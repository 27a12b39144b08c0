import Mathlib
import Triangle.Proofs.Optimize.Legal.Moved
import Triangle.Proofs.Optimize.Legal.Names
import Triangle.Proofs.Tree.Declared
import Triangle.Proofs.Typing.Replacing

/-! Extraction from one loop. The constants that are collected are stable before the loop, and what is
left of the loop is stable wherever they are in scope. -/
namespace Triangle
open List

namespace Check

theorem declsStable_concat {env : Env} {ds : List Decl} {d : Decl} :
    DeclsStable env (ds ++ [d]) ↔ DeclsStable env ds ∧ DeclStable (env.declareAll ds) d := by
  induction ds generalizing env with
  | nil =>
    rw [nil_append, declsStable_cons]
    exact ⟨fun both => ⟨rfl, both.1⟩, fun both => ⟨both.2, rfl⟩⟩
  | cons first ds ih =>
    rw [cons_append, declsStable_cons, declsStable_cons, ih, and_assoc]
    rfl

/-- Constants are no types. -/
theorem types_declareAll {env : Env} {ds : List Decl} (consts : ∀ d ∈ ds, d.kind = .const) :
    (env.declareAll ds).types = env.types := by
  induction ds generalizing env with
  | nil => rfl
  | cons d ds ih =>
    rw [forall_mem_cons] at consts
    cases d with
    | const => exact ih consts.2
    | var | func | proc | type => cases consts.1

end Check

namespace Optimize.Hoist
open Check

variable {start : Int} {outer inner env : Env} {x : Extraction} {loop : Loop} {e e' : Expr} {t : Ty}

/-! ## Collected constants -/

/-- No name of a new constant is bound. -/
def Clear (start : Int) (env : Env) : Prop :=
  ∀ k, start ≤ k → k < 2 ^ 63 → env.terms.bound? (constName k) = none

/-- The constants are in scope. -/
def Ready (env : Env) (ds : List Decl) : Prop :=
  ∀ d ∈ ds, env.terms.bound? d.name = some ⟨.typed (d.info.ty.getD .void) d.binding, true⟩

/-- Constants that were collected for the scope before the loop, numbered from `start`. -/
structure Collected (start : Int) (outer : Env) (x : Extraction) : Prop where
  room : start + x.decls.length < 2 ^ 63
  next : x.next = start + x.decls.length
  names : x.decls.map Decl.name = (range x.decls.length).map fun k : Nat => constName (start + k)
  consts : ∀ d ∈ x.decls, d.kind = .const ∧ ∃ t, d.info.ty = some t ∧ t.IsData
  plain : ∀ d ∈ x.decls, ∀ deep P, P .const d.name → d.Declares deep P
  stable : DeclsStable outer.enterBlock x.decls

namespace Collected

theorem named (collected : Collected start outer x) {name : String}
    (member : name ∈ x.decls.map Decl.name) :
    ∃ k, start ≤ k ∧ k < start + x.decls.length ∧ name = constName k := by
  rw [collected.names] at member
  obtain ⟨k, inside, rfl⟩ := mem_map.mp member
  have below := mem_range.mp inside
  exact ⟨start + k, by omega, by omega, rfl⟩

theorem distinct (collected : Collected start outer x) (positive : 0 ≤ start) :
    (x.decls.map Decl.name).Nodup := by
  rw [collected.names]
  refine List.Nodup.map_on (fun j first k second same => ?_) nodup_range
  have room := collected.room
  have low := mem_range.mp first
  have high := mem_range.mp second
  have numbers := constName_inj (by omega) (by omega) (by omega) (by omega) same
  omega

theorem fresh (collected : Collected start outer x) (positive : 0 ≤ start) :
    constName x.next ∉ x.decls.map Decl.name := by
  intro member
  obtain ⟨k, low, high, same⟩ := collected.named member
  have room := collected.room
  rw [collected.next] at same
  have numbers := constName_inj (by omega) (by omega) (by omega) (by omega) same
  omega

theorem ready (collected : Collected start outer x) (positive : 0 ≤ start) (env : Env) :
    Ready (env.declareAll x.decls) x.decls := fun _ member =>
  bound?_declareAll_const (collected.distinct positive) (fun d inside => (collected.consts d inside).1)
    member

/-- The constants may be added to a scope that holds none of their names. -/
theorem wide (collected : Collected start outer x) (positive : 0 ≤ start) (clear : Clear start env) :
    env.Widens (env.declareAll x.decls) where
  terms name := by
    by_cases member : name ∈ x.decls.map Decl.name
    · obtain ⟨k, low, high, same⟩ := collected.named member
      have room := collected.room
      obtain ⟨d, inside, rfl⟩ := mem_map.mp member
      obtain ⟨-, t, filled, data⟩ := collected.consts d inside
      refine .inr ⟨?_, fun op => ?_, t, d.binding, true, ?_, data.notFunc⟩
      · rw [same]
        exact clear k low (by omega)
      · rw [same]
        exact constName_ne_unaryKey k op
      · rw [collected.ready positive env d inside, filled]
        rfl
    · exact .inl (bound?_declareAll_of_not_mem member)
  types name := by rw [types_declareAll fun d inside => (collected.consts d inside).1]

theorem sound (collected : Collected start outer x) (sound : env.IsSound) :
    (env.declareAll x.decls).IsSound := by
  have consts := collected.consts
  generalize x.decls = ds at consts
  induction ds generalizing env with
  | nil => exact sound
  | cons d ds ih =>
    rw [forall_mem_cons] at consts
    obtain ⟨⟨kind, t, filled, data⟩, rest⟩ := consts
    cases d with
    | const i name value =>
      have meaning : (Check.Meaning.typed (i.ty.getD .void) (Decl.const i name value).binding).IsSound := by
        rw [show i.ty = some t from filled]
        exact Meaning.isSound_of_data data _
      exact ih (sound.addConst name meaning) rest
    | var | func | proc | type => cases kind

end Collected

/-! ## One extraction -/

theorem declares_of_isOperand {mutated : List String} (operand : isOperand mutated e = true)
    (deep : Bool) (P : DeclKind → String → Prop) : e.Declares deep P := by
  cases e with
  | int | char | bool | ident => simp [Expr.Declares]
  | _ => cases operand

/-- An invariant expression declares nothing. -/
theorem declares_of_isInvariant {mutated : List String} (invariant : isInvariant mutated e = true)
    (deep : Bool) (P : DeclKind → String → Prop) : e.Declares deep P := by
  cases e with
  | unary i decl op operand =>
    simp only [isInvariant, Bool.and_eq_true] at invariant
    exact declares_of_isOperand invariant.2 deep P
  | binary i decl op left right =>
    simp only [isInvariant, Bool.and_eq_true] at invariant
    exact ⟨declares_of_isOperand invariant.1.2 deep P, declares_of_isOperand invariant.2 deep P⟩
  | call i decl name as =>
    obtain ⟨j, value, rfl, -, operand⟩ := isInvariant_call invariant
    exact ⟨declares_of_isOperand operand deep P, trivial⟩
  | _ => cases invariant

/-- Where extraction stands: in a scope inside the loop, which does not bind the new names. -/
structure Scene (loop : Loop) (start : Int) (outer inner : Env) : Prop where
  positive : 0 ≤ start
  under : Under loop.mutated outer inner
  sound : inner.IsSound
  clear : Clear start inner

/-- An invariant expression, with what its parts have become, is stable before the loop. -/
theorem Collected.add (collected : Collected start outer x) (scene : Scene loop start outer inner)
    (room : start + (x.decls.length + 1 : Nat) < 2 ^ 63) (guarded : Bool)
    (invariant : isInvariant loop.mutated e' = true) (stable : ExprStable inner e t)
    (becomes : ∀ env, Ready env x.decls → inner.Widens env → Becomes inner env e e') :
    ∃ t', e'.info.ty = some t' ∧ t'.IsData ∧ t'.deref = t.deref ∧
      Collected start outer
        ⟨wrap64 (x.next + 1), x.decls ++ [.const e'.info (constName x.next) e'], guarded⟩ := by
  -- the expression is looked at inside the loop, where the constants are added
  obtain ⟨t', inside, deref, -⟩ := becomes (inner.declareAll x.decls)
    (collected.ready scene.positive inner) (collected.wide scene.positive scene.clear) t stable
  have sound := collected.sound scene.sound
  obtain ⟨before, data⟩ := (scene.under.enterOuterBlock.declareAll x.decls).invariant sound invariant inside
  have filled := (expr_typed sound inside).1.slot
  have fresh := collected.fresh scene.positive
  have next := collected.next
  have positive := scene.positive
  refine ⟨t', filled, data, deref, ?_⟩
  refine ⟨by simpa using room, ?_, ?_, ?_, ?_, ?_⟩
  · simp only [length_append, length_singleton]
    rw [wrap64_eq (by omega) (by omega), next]
    omega
  · simp only [map_append, map_cons, map_nil, length_append,
      length_singleton, range_succ, collected.names, Decl.name, next]
  · simp only [mem_append, mem_singleton]
    rintro d (old | rfl)
    · exact collected.consts d old
    · exact ⟨rfl, t', filled, data⟩
  · simp only [mem_append, mem_singleton]
    rintro d (old | rfl) deep P named
    · exact collected.plain d old deep P named
    · exact ⟨named, declares_of_isInvariant invariant deep P⟩
  · refine declsStable_concat.mpr ⟨collected.stable, decl_const.mpr ⟨?_, e', t', before, ?_, rfl⟩⟩
    · rw [declaredHere_declareAll fresh]
      simp [Env.enterBlock]
    · rw [data.deref, ← Info.eq_setTy filled]

end Optimize.Hoist
end Triangle
