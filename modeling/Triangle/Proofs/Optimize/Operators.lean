import Mathlib
import Triangle.Proofs.Optimize.Literals
import Triangle.Proofs.Semantics.Standard

/-! Operators over literals have the values that folding gives them. -/
namespace Triangle

/-- The value that a literal stands for. -/
def Literal.value : Literal → Semantics.Value
  | .int n => .int (.truncate n)
  | .char c => .char c.toNat
  | .bool b => .bool b

variable {op : String} {a : Literal} {b : Int}

namespace Optimize.Fold
open Semantics (Standard)

/-- The standard routine has this value for these arguments, whatever the state. -/
def Yields (known : Option Standard) (actuals : List Literal) (l : Literal) : Prop :=
  ∃ s, known = some s ∧ ∀ state,
    s.apply (actuals.map fun a => .value a.value) state = .ok (some l.value) state

theorem value_ofWord? {w : Option Word} (found : ofWord? w = .literal l) :
    ∃ x, w = some x ∧ l.value = .int x := by
  cases w with
  | none => cases found
  | some w =>
    cases found
    exact ⟨w, rfl, by rw [Literal.value, Word.truncate_toInt]⟩

theorem ofUnary_yields (found : ofUnary op a = .literal l) :
    Yields (Standard.prefixed? op) [a] l := by
  unfold ofUnary at found
  split at found
  · rename_i n
    obtain ⟨w, same, value⟩ := value_ofWord? found
    refine ⟨.neg, by decide, fun state => ?_⟩
    rw [value]
    exact congrArg (Standard.checked · state) same
  · cases found
    exact ⟨.not, by decide, fun _ => rfl⟩
  · cases found

theorem division_exact {part : Word × Word → Word} {x y w : Word}
    (same : (Word.divide? x y).map part = some w) (state : Semantics.State) :
    Standard.division part x y state = .ok (some (.int w)) state := by
  have nonzero : y ≠ 0 := by
    rintro rfl
    simp [Word.divide?] at same
  rw [Standard.division, if_neg nonzero, same]
  rfl

theorem arithmetic_yields {f : Word → Word → Option Word} {a : Int}
    (known : arithmetic? op = some f) (found : ofWord? (f (.truncate a) (.truncate b)) = .literal l) :
    Yields (Standard.named.lookup op) [.int a, .int b] l := by
  obtain ⟨w, same, value⟩ := value_ofWord? found
  unfold Yields
  rw [value]
  unfold arithmetic? at known
  split at known <;> cases known
  · exact ⟨.add, by decide, fun state => congrArg (Standard.checked · state) same⟩
  · exact ⟨.sub, by decide, fun state => congrArg (Standard.checked · state) same⟩
  · exact ⟨.mult, by decide, fun state => congrArg (Standard.checked · state) same⟩
  · exact ⟨.div, by decide, division_exact same⟩
  · exact ⟨.mod, by decide, division_exact same⟩

/-- A comparison of literals is one of the values that they stand for. -/
theorem truth_yields {b : Literal} (known : Standard) {test truth : Bool}
    (named : Standard.named.lookup op = some known)
    (applied : known.apply [.value a.value, .value b.value] = Standard.truthValue test)
    (same : test = truth) : Yields (Standard.named.lookup op) [a, b] (.bool truth) := by
  refine ⟨known, named, fun state => ?_⟩
  subst same
  exact congrFun applied state

theorem truncate_lt {a : Int} (left : (Literal.int a).Fits) (right : (Literal.int b).Fits) :
    Word.truncate a < Word.truncate b ↔ a < b := by
  rw [Int16.lt_iff_toInt_lt, Word.toInt_truncate left.1 left.2, Word.toInt_truncate right.1 right.2]

theorem truncate_eq {a : Int} (left : (Literal.int a).Fits) (right : (Literal.int b).Fits) :
    Word.truncate a = Word.truncate b ↔ a = b := by
  rw [← Int16.toInt_inj, Word.toInt_truncate left.1 left.2, Word.toInt_truncate right.1 right.2]

theorem ofInts_yields {a : Int} (left : (Literal.int a).Fits)
    (right : (Literal.int b).Fits) (found : ofInts op a b = .literal l) :
    Yields (Standard.named.lookup op) [.int a, .int b] l := by
  unfold ofInts at found
  split at found
  · rename_i f known
    split at found
    · cases found
    · exact arithmetic_yields known found
  · have same : (Word.truncate a == Word.truncate b) = decide (a = b) := by
      rw [Bool.eq_iff_iff, beq_iff_eq, decide_eq_true_iff, truncate_eq left right]
    split at found <;> cases found
    · exact truth_yields .lt (by decide) rfl (by simp [truncate_lt left right])
    · exact truth_yields .le (by decide) rfl (by simp [← Int16.not_lt, truncate_lt right left])
    · exact truth_yields .gt (by decide) rfl (by simp [truncate_lt right left])
    · exact truth_yields .ge (by decide) rfl (by simp [← Int16.not_lt, truncate_lt left right])
    · exact truth_yields .eq (by decide) rfl same
    · refine truth_yields .ne (by decide) rfl ?_
      simp only [Semantics.Value.same, Literal.value, same, decide_not]

theorem ofBools_yields {a b : Bool} (found : ofBools op a b = .literal l) :
    Yields (Standard.named.lookup op) [.bool a, .bool b] l := by
  unfold ofBools at found
  split at found <;> cases found
  · exact truth_yields .and (by decide) rfl rfl
  · exact truth_yields .or (by decide) rfl rfl
  · exact truth_yields .eq (by decide) rfl rfl
  · exact truth_yields .ne (by decide) rfl rfl

theorem ofChars_yields {a b : Char} (found : ofChars op a b = .literal l) :
    Yields (Standard.named.lookup op) [.char a, .char b] l := by
  have same : ((a.toNat : Int) == b.toNat) = (a == b) := by
    rw [Bool.eq_iff_iff, beq_iff_eq, beq_iff_eq, Int.natCast_inj, Char.toNat_inj]
  unfold ofChars at found
  split at found <;> cases found
  · exact truth_yields .eq (by decide) rfl same
  · refine truth_yields .ne (by decide) rfl ?_
    simp only [Semantics.Value.same, Literal.value, same, bne]

theorem ofBinary_yields {b : Literal} (left : a.Fits) (right : b.Fits)
    (found : ofBinary op a b = .literal l) : Yields (Standard.named.lookup op) [a, b] l := by
  unfold ofBinary at found
  split at found
  · exact ofInts_yields left right found
  · exact ofBools_yields found
  · exact ofChars_yields found
  · cases found

theorem ofCall_yields {name : String} (found : ofCall name a = .literal l) :
    Yields (Standard.named.lookup name) [a] l := by
  unfold ofCall at found
  split at found
  · rename_i n
    split at found <;> cases found
    rename_i range
    simp only [Word.greatest] at range
    have code : (Char.ofNat n.toNat).toNat = n.toNat := by
      rw [Char.toNat_ofNat, if_pos (.inl (by omega))]
    have same : (Literal.char (Char.ofNat n.toNat)).value = .char (Word.truncate n).toInt := by
      rw [Literal.value, code, Word.toInt_truncate (by omega) (by omega), Int.toNat_of_nonneg range.1]
    exact ⟨.chr, by decide, fun state => by rw [same]; rfl⟩
  · rename_i c
    split at found <;> cases found
    rename_i small
    simp only [Word.greatest] at small
    exact ⟨.ord, by decide, fun state =>
      congrArg (Standard.checked · state) (Word.ofInt?_eq (by omega) (by omega))⟩
  · cases found

end Optimize.Fold
end Triangle
