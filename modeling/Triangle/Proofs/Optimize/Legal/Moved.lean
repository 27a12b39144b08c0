import Mathlib
import Triangle.Optimize.Hoist
import Triangle.Proofs.Typing.Nodes
import Triangle.Proofs.Typing.Widening

/-! What can be read before a loop. An invariant expression that is accepted inside the loop is accepted
before it, with the same type. -/
namespace Triangle.Optimize.Hoist
open Check

variable {mutated : List String} {outer inner : Env} {t : Ty} {e : Expr}

/-- The inner scope lies in a loop that the outer one is around. Only names that the loop changes are
bound otherwise there, never to something standard. -/
structure Under (mutated : List String) (outer inner : Env) : Prop where
  kept : ∀ x, x ∉ mutated → inner.terms.bound? x = outer.terms.bound? x
  standard : ∀ x entry, inner.terms.bound? x = some entry → entry.value.decl.isStandard = true →
    outer.terms.bound? x = some entry
  missing : ∀ x, inner.terms.bound? x = none → outer.terms.bound? x = none
  operators : ∀ op ∈ pureUnary, inner.terms.bound? op = outer.terms.bound? op

namespace Under

theorem refl (mutated : List String) (env : Env) : Under mutated env env :=
  ⟨fun _ _ => rfl, fun _ _ found _ => found, fun _ none => none, fun _ _ => rfl⟩

/-- Blocks change nothing. -/
theorem enterBlock (under : Under mutated outer inner) : Under mutated outer inner.enterBlock := by
  obtain ⟨kept, standard, missing, operators⟩ := under
  exact ⟨by simpa [Env.enterBlock] using kept, by simpa [Env.enterBlock] using standard,
    by simpa [Env.enterBlock] using missing, by simpa [Env.enterBlock] using operators⟩

theorem enterOuterBlock (under : Under mutated outer inner) :
    Under mutated outer.enterBlock inner := by
  obtain ⟨kept, standard, missing, operators⟩ := under
  exact ⟨by simpa [Env.enterBlock] using kept, by simpa [Env.enterBlock] using standard,
    by simpa [Env.enterBlock] using missing, by simpa [Env.enterBlock] using operators⟩

/-- The loop declares a name, which it thereby changes. -/
theorem declare (under : Under mutated outer inner) {d : Decl} (changed : d.name ∈ mutated)
    (plain : d.name ∉ pureUnary) : Under mutated outer (inner.declare d) where
  kept x unchanged := by
    have other : x ≠ d.name := fun same => unchanged (same ▸ changed)
    rw [bound?_declare, if_neg (fun both => other both.2)]
    exact under.kept x unchanged
  standard x entry found isStandard := by
    rw [bound?_declare] at found
    split at found
    · cases found
      cases isStandard
    · exact under.standard x entry found isStandard
  missing x none := by
    rw [bound?_declare] at none
    split at none
    · cases none
    · exact under.missing x none
  operators op member := by
    have other : op ≠ d.name := fun same => plain (same ▸ member)
    rw [bound?_declare, if_neg (fun both => other both.2)]
    exact under.operators op member

/-- A constant before the loop is in both scopes. -/
theorem declareBoth (under : Under mutated outer inner) (d : Decl) :
    Under mutated (outer.declare d) (inner.declare d) where
  kept x unchanged := by rw [bound?_declare, bound?_declare, under.kept x unchanged]
  standard x entry found isStandard := by
    rw [bound?_declare] at found ⊢
    split at found
    · rwa [if_pos ‹_›]
    · rw [if_neg ‹_›]
      exact under.standard x entry found isStandard
  missing x none := by
    rw [bound?_declare] at none ⊢
    split at none
    · cases none
    · rw [if_neg ‹_›]
      exact under.missing x none
  operators op member := by rw [bound?_declare, bound?_declare, under.operators op member]

theorem declareAll (under : Under mutated outer inner) (ds : List Decl) :
    Under mutated (outer.declareAll ds) (inner.declareAll ds) := by
  induction ds generalizing outer inner with
  | nil => exact under
  | cons d ds ih => exact ih (under.declareBoth d)

theorem lookup (under : Under mutated outer inner) {x : String} {m : Check.Meaning}
    (found : inner.terms.lookup? x = some m) (isStandard : m.decl.isStandard = true) :
    outer.terms.lookup? x = some m := by
  rw [Scope.Table.lookup?_eq_bound?] at found ⊢
  obtain ⟨entry, known, rfl⟩ := Option.map_eq_some_iff.mp found
  rw [under.standard x entry known isStandard]
  rfl

theorem unary (under : Under mutated outer inner) {op : String} {m : Check.Meaning}
    (pure : op ∈ pureUnary) (found : inner.unary? op = some m)
    (isStandard : m.decl.isStandard = true) : outer.unary? op = some m := by
  have own : outer.terms.lookup? op = inner.terms.lookup? op := by
    simp only [Scope.Table.lookup?_eq_bound?, under.operators op pure]
  have key : outer.terms.lookup? (unaryKey op) = inner.terms.lookup? (unaryKey op) := by
    rcases Env.unary?_standard found isStandard with known | unknown
    · rw [known, under.lookup known isStandard]
    · rw [unknown]
      rw [Scope.Table.lookup?_eq_bound?, Option.map_eq_none_iff] at unknown ⊢
      exact under.missing _ unknown
  simpa only [Env.unary?, own, key] using found

/-! ## Invariant expressions -/

theorem operand (under : Under mutated outer inner) (operand : isOperand mutated e = true)
    (stable : ExprStable inner e t) : ExprStable outer e t := by
  cases e with
  | int => exact expr_int.mpr (expr_int.mp stable)
  | char => exact expr_char.mpr (expr_char.mp stable)
  | bool => exact expr_bool.mpr (expr_bool.mp stable)
  | ident i decl name =>
    obtain ⟨plain, b, found, whole⟩ := expr_ident.mp stable
    refine expr_ident.mpr ⟨plain, b, ?_, whole⟩
    have unchanged : name ∉ mutated := by
      have filled := Info.ty_of_eq_setTy (Expr.ident.inj whole).1
      simp only [isOperand, filled, Bool.and_eq_true, decide_eq_true_eq] at operand
      exact operand.1.1
    rwa [Scope.Table.lookup?_eq_bound?, ← under.kept name unchanged,
      ← Scope.Table.lookup?_eq_bound?]
  | _ => cases operand

end Under

theorem isInvariant_call {i : Info} {decl : Option Binding} {name : String} {as : List Arg}
    (invariant : isInvariant mutated (.call i decl name as) = true) :
    ∃ j e, as = [.value j e] ∧ decl.any Binding.isStandard = true ∧ isOperand mutated e = true := by
  cases as with
  | nil => simp [isInvariant] at invariant
  | cons a rest =>
    cases rest with
    | cons => simp [isInvariant] at invariant
    | nil =>
      cases a with
      | value j e =>
        simp only [isInvariant, Bool.and_eq_true] at invariant
        exact ⟨j, e, rfl, invariant.1.2, invariant.2⟩
      | var | func => simp [isInvariant] at invariant

/-- An invariant expression is an operator over operands, whose type is that of the operator. -/
theorem Under.invariant (under : Under mutated outer inner) (sound : inner.IsSound)
    (invariant : isInvariant mutated e = true) (stable : ExprStable inner e t) :
    ExprStable outer e t ∧ t.IsData := by
  cases e with
  | unary i decl op operand =>
    simp only [isInvariant, Bool.and_eq_true, decide_eq_true_eq] at invariant
    obtain ⟨⟨pure, isStandard⟩, plain⟩ := invariant
    obtain ⟨m, want, _, got, found, signature, first, same, whole⟩ := expr_unary.mp stable
    obtain ⟨info, rfl, -, rfl⟩ := Expr.unary.inj whole
    exact ⟨expr_unary.mpr ⟨m, want, operand, got, under.unary pure found (by simpa using isStandard),
      signature, under.operand plain first, same, whole⟩, (sound.unary found).result signature⟩
  | binary i decl op left right =>
    simp only [isInvariant, Bool.and_eq_true, decide_eq_true_eq] at invariant
    obtain ⟨⟨⟨-, isStandard⟩, plainLeft⟩, plainRight⟩ := invariant
    obtain ⟨m, _, u, _, v, found, first, second, joins, whole⟩ := expr_binary.mp stable
    obtain ⟨info, rfl, -, rfl, rfl⟩ := Expr.binary.inj whole
    exact ⟨expr_binary.mpr ⟨m, left, u, right, v, under.lookup found (by simpa using isStandard),
      under.operand plainLeft first, under.operand plainRight second, joins, whole⟩,
      (sound.terms _ _ found).joined joins⟩
  | call i decl name as =>
    obtain ⟨j, e, rfl, isStandard, plain⟩ := isInvariant_call invariant
    obtain ⟨valued, wants, b, _, found, count, inside, whole⟩ := expr_call.mp stable
    obtain ⟨info, rfl, -, rfl⟩ := Expr.call.inj whole
    have isStandard : b.isStandard = true := by simpa using isStandard
    refine ⟨expr_call.mpr ⟨valued, wants, b, _, under.lookup found isStandard, count, ?_, whole⟩,
      sound.terms _ _ found⟩
    obtain ⟨want, rfl⟩ := List.length_eq_one_iff.mp count.symm
    obtain ⟨_, _, first, rest, same⟩ := args_cons.mp inside
    cases same
    obtain ⟨noRef, noFunc, _, got, value, suits, same⟩ := arg_value.mp first
    obtain ⟨-, rfl⟩ := Arg.value.inj same
    exact args_cons.mpr ⟨_, _, arg_value.mpr ⟨noRef, noFunc, _, got, under.operand plain value, suits,
      same⟩, rest, rfl⟩
  | _ => cases invariant

end Triangle.Optimize.Hoist
