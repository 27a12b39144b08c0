import Mathlib
import Triangle.Proofs.Typing.Signatures

/-! What the judgements of checking pass: each gives a type exactly where its rule holds. -/
namespace Triangle.Check
open Checked

variable {env : Env} {t r want got left right base elem : Ty} {ps : List Ty} {m : Meaning}
  {name op field : String} {pos : Pos} {i : Info} {e' : Expr}

theorem elemRule_ok {array : Expr} :
    elemRule pos array t = .ok elem ↔ ∃ length, t.deref = .array length elem := by
  unfold elemRule
  split
  · rename_i length elem' same
    simp [same]
  · rename_i other
    simp only [reduceCtorEq, false_iff, not_exists]
    intro length same
    exact other length elem same

theorem fieldRule_ok {record : Expr} :
    fieldRule pos record field base = .ok t ↔
      ∃ fields inner k, base.deref = .record fields ∧ Ty.field? field 0 fields = some (inner, k) ∧
        t = propagate base inner := by
  unfold fieldRule
  split
  · rename_i fields same
    simp only [same, Ty.record.injEq]
    split
    · rename_i inner k found
      constructor
      · intro ok
        cases ok
        exact ⟨fields, inner, k, rfl, found, rfl⟩
      · rintro ⟨_, _, _, rfl, again, rfl⟩
        cases found.symm.trans again
        rfl
    · rename_i missing
      simp only [reduceCtorEq, false_iff, not_exists]
      rintro _ inner k ⟨rfl, found, _⟩
      exact absurd (missing.symm.trans found) (by simp)
  · rename_i other
    simp only [reduceCtorEq, false_iff, not_exists]
    rintro fields _ _ ⟨same, _⟩
    exact other fields same

theorem unaryRule_ok :
    unaryRule pos op m = .ok (want, t) ↔ m.signature? = some ([want], t) := by
  unfold unaryRule
  split
  · rename_i found
    simp [found]
  · rename_i other
    simp only [reduceCtorEq, false_iff]
    exact other want t

theorem operandRule_ok :
    operandRule pos op want r got = .ok t ↔ got.deref = want.deref ∧ t = r := by
  unfold operandRule
  split
  · rename_i same
    simp [Ty.equal_iff.mp same, eq_comm]
  · rename_i differ
    simp [mt Ty.equal_iff.mpr differ]

theorem Meaning.signature?_ok :
    m.signature? = some (ps, r) ↔ ∃ b, m = .typed (.func ps r) b := by
  unfold Meaning.signature?
  split
  · rename_i b
    simp
  · rename_i other
    simp only [reduceCtorEq, false_iff, not_exists]
    intro b
    exact other ps r b

theorem binaryRule_ok : binaryRule pos op m left right = .ok t ↔ m.Joins left right t := by
  cases m with
  | equality b =>
    simp only [binaryRule, Meaning.Joins]
    split
    · rename_i same
      simp [Ty.equal_iff.mp same, eq_comm]
    · rename_i differ
      simp [mt Ty.equal_iff.mpr differ]
  | typed u b =>
    simp only [binaryRule, Meaning.Joins]
    split
    · rename_i p q result found
      obtain ⟨b', same⟩ := Meaning.signature?_ok.mp found
      cases same
      have fits : (left.equal p && right.equal q) = true ↔
          left.deref = p.deref ∧ right.deref = q.deref := by
        rw [Bool.and_eq_true, Ty.equal_iff, Ty.equal_iff]
      by_cases both : left.deref = p.deref ∧ right.deref = q.deref
      · simp only [fits.mpr both, if_true, Except.ok.injEq, Ty.func.injEq, List.cons.injEq]
        constructor
        · rintro rfl
          exact ⟨p, q, ⟨⟨rfl, rfl, trivial⟩, rfl⟩, both⟩
        · rintro ⟨_, _, ⟨_, rfl⟩, _⟩
          rfl
      · simp only [mt fits.mp both, if_false, Bool.false_eq_true, reduceCtorEq, false_iff, not_exists]
        rintro _ _ ⟨same, agree⟩
        cases same
        exact both agree
    · rename_i other
      simp only [reduceCtorEq, false_iff, not_exists]
      rintro p q ⟨rfl, _⟩
      exact other p q t rfl

theorem functionRule_ok :
    functionRule pos name m = .ok (ps, r) ↔ r ≠ .void ∧ ∃ b, m = .typed (.func ps r) b := by
  rw [← Meaning.signature?_ok]
  cases found : m.signature? with
  | none => simp [functionRule, found]
  | some signature =>
    obtain ⟨params, result⟩ := signature
    by_cases isVoid : result = .void
    · subst isVoid
      simp only [functionRule, found, reduceCtorEq, Option.some.injEq, Prod.mk.injEq, false_iff]
      rintro ⟨valued, rfl, rfl⟩
      exact valued rfl
    · have same : functionRule pos name m = .ok (params, result) := by
        cases result <;> simp_all [functionRule]
      rw [same]
      simp only [Except.ok.injEq, Prod.mk.injEq, Option.some.injEq]
      constructor
      · rintro ⟨rfl, rfl⟩
        exact ⟨isVoid, rfl, rfl⟩
      · exact And.right

theorem procedureRule_ok :
    procedureRule pos name m = .ok ps ↔ ∃ b, m = .typed (.func ps .void) b := by
  rw [← Meaning.signature?_ok]
  unfold procedureRule
  split
  · rename_i found
    simp [found]
  · rename_i found
    simp [found]
  · rename_i result other found
    simp only [found, reduceCtorEq, Option.some.injEq, false_iff]
    rintro rfl
    exact other ps rfl

theorem identRule_ok :
    identRule pos name m = .ok t ↔ t.isFunc = false ∧ ∃ b, m = .typed t b := by
  cases m with
  | equality b => simp [identRule]
  | typed u b =>
    simp only [identRule, Meaning.typed.injEq]
    split
    · rename_i isFunc
      simp only [reduceCtorEq, false_iff]
      rintro ⟨plain, _, rfl, _⟩
      simp [isFunc] at plain
    · rename_i plain
      simp only [Except.ok.injEq]
      constructor
      · rintro rfl
        exact ⟨by simpa using plain, b, rfl, rfl⟩
      · rintro ⟨_, _, same, _⟩
        exact same

theorem routineArgument_ok {decl : Option Binding} {a : Arg} :
    routineArgument env callee index (.func ps r) i decl name = ⟨a, .ok (), []⟩ ↔
      ∃ b, env.terms.lookup? name = some (.typed (.func ps r) b) ∧
        a = .func (i.setTy (.func ps r)) (some b) name := by
  unfold routineArgument
  split
  · rename_i missing
    simp [missing]
  · rename_i qs s b found
    simp only [found, Option.some.injEq, Meaning.typed.injEq]
    split
    · rename_i same
      cases Ty.identical_iff.mp same
      simp
    · rename_i differ
      simp only [fail_ok, false_iff, not_exists]
      rintro _ ⟨⟨same, _⟩, _⟩
      exact differ (Ty.identical_iff.mpr same)
  · rename_i other found
    simp only [fail_ok, false_iff, not_exists]
    rintro b ⟨again, _⟩
    exact other ps r b (Option.some.inj (found.symm.trans again))

theorem asVariable_ok {target : Expr} {checked : Checked Expr Ty} :
    asVariable env target checked = ⟨e', .ok t, []⟩ ↔ checked = ⟨e', .ok t, []⟩ ∧
      ∃ root, target.root? = some root ∧ env.terms.isConst root = false := by
  unfold asVariable
  split
  · rename_i none
    simp [none]
  · rename_i root found
    simp only [andThen_ok, found, Option.some.injEq, exists_eq_left']
    by_cases isConst : env.terms.isConst root = true
    · simp [isConst]
    · simp only [isConst, Bool.false_eq_true, if_false, pass_ok]
      constructor
      · rintro ⟨_, _, same, rfl, rfl⟩
        exact ⟨same, trivial⟩
      · rintro ⟨same, _⟩
        exact ⟨_, _, same, rfl, rfl⟩

theorem conditionReports_ok {test : Expr} {checked : Checked Expr Ty} :
    conditionReports test checked = (e', []) ↔
      ∃ t, checked = ⟨e', .ok t, []⟩ ∧ t.deref = .boolean := by
  obtain ⟨node, result, reports⟩ := checked
  cases result with
  | error d => simp [conditionReports]
  | ok t =>
    simp only [conditionReports, mk.injEq, Except.ok.injEq]
    split
    · rename_i boolean
      have boolean : t.deref = .boolean := Ty.equal_iff.mp boolean
      simp only [Prod.mk.injEq]
      constructor
      · rintro ⟨rfl, rfl⟩
        exact ⟨t, ⟨rfl, rfl, rfl⟩, boolean⟩
      · rintro ⟨_, ⟨rfl, _, rfl⟩, _⟩
        exact ⟨rfl, rfl⟩
    · rename_i differ
      simp only [Prod.mk.injEq, List.append_eq_nil_iff, List.cons_ne_self, and_false, false_iff,
        not_exists]
      rintro u ⟨⟨_, rfl, _⟩, boolean⟩
      exact differ (Ty.equal_iff.mpr boolean)

theorem settled_ok {checked : Checked Expr Ty} (ok : (settled checked).2 = [])
    (clean : checked.reports = []) : ∃ t, checked = ⟨(settled checked).1, .ok t, []⟩ := by
  obtain ⟨node, result, reports⟩ := checked
  cases result with
  | error d => simp [settled] at ok
  | ok t =>
    simp only at clean
    exact ⟨t, by rw [clean]; rfl⟩

end Triangle.Check
