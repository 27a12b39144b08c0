import Mathlib
import Triangle.Optimize.Hoist
import Triangle.Proofs.Text.Numeral
import Triangle.Proofs.Text.Utf8
import Triangle.Proofs.Typing.Scopes

/-! The names of new constants. Their numbers can be read back, so that they differ, and the first
number is above those that the program already uses. -/
namespace Triangle
open List

/-! ## Names that are spelled as they are -/

namespace Text

/-- No character of ASCII, but zero, is chosen as a stand-in. -/
theorem StandIns.byte?_unused (used : List Char) {c : Char} (ascii : 0 < c.toNat ∧ c.toNat < 0x80) :
    (unused used).byte? c = none := by
  rw [byte?, Option.map_eq_none_iff, idxOf?_eq_none_iff]
  intro member
  have candidate := mem_of_mem_filter (mem_of_mem_take member)
  obtain ⟨k, -, rfl⟩ := mem_map.mp candidate
  by_cases valid : (least + k).isValidChar
  · rw [Char.toNat_ofNat, if_pos valid, least] at ascii
    omega
  · rw [Char.toNat_ofNat, if_neg valid] at ascii
    omega

/-- How characters are written in a text that was read: those beyond ASCII as they are, or by
stand-ins that the text does not use. -/
def Form.Read (form : Form) : Prop := ∀ s, form = .bytewise s → ∃ used, s = .unused used

theorem Form.Read.gather_ascii {form : Form} (read : form.Read) {text : String}
    (ascii : ∀ c ∈ text.toList, 0 < c.toNat ∧ c.toNat < 0x80) : form.gather text = text := by
  cases form with
  | given => rfl
  | bytewise s =>
    obtain ⟨used, rfl⟩ := read s rfl
    have plain : (StandIns.unused used).bytes text = encodeUtf8 text := by
      refine flatMap_congr fun c member => ?_
      rw [StandIns.byte?_unused used (ascii c member)]
    rw [Form.gather, plain, pieces_encodeUtf8, StandIns.ofPieces, map_map]
    simp [Function.comp_def]

end Text

namespace Optimize.Hoist
open Text

/-! ## The names of constants -/

theorem toList_constName (k : Int) : (constName k).toList = '$' :: 'h' :: decimal k := by
  rw [← toList_repr]
  simp [constName, toString]

theorem gather_constName {form : Form} (read : form.Read) (k : Int) :
    form.gather (constName k) = constName k := by
  refine read.gather_ascii ?_
  have digits : ∀ c ∈ Nat.toDigits 10 k.natAbs, 0 < c.toNat ∧ c.toNat < 0x80 := by
    intro c member
    obtain ⟨least, greatest⟩ := Numeral.isDigit_bounds (Numeral.isDigit_toDigits member)
    have low : 48 ≤ c.toNat := least
    have high : c.toNat ≤ 57 := greatest
    omega
  rw [toList_constName, decimal]
  split <;> simpa using digits

/-- The number of a constant can be read off its name. -/
theorem constNumber?_constName {k : Int} (low : 0 ≤ k) (high : k < 2 ^ 63) :
    constNumber? (constName k) = some k := by
  unfold constNumber?
  rw [toList_constName]
  have fits : Numeral.Fits 64 k := ⟨by omega, high⟩
  have whole : decimal k = Nat.toDigits 10 k.natAbs := by
    rw [decimal, if_neg (by omega)]
  have digit : ∀ c ∈ decimal k, c.isDigit = true := by
    rw [whole]
    exact fun c => Numeral.isDigit_toDigits
  obtain ⟨c, cs, shape⟩ := exists_cons_of_ne_nil (whole ▸ Nat.toDigits_ne_nil)
  have first : 48 ≤ c.toNat ∧ c.toNat ≤ 57 :=
    Numeral.isDigit_bounds (digit c (by rw [shape]; exact mem_cons_self))
  have dark : (isBlank c && c != '\n') = false := by
    simp only [isBlank]
    grind
  have rest : (decimal k).dropWhile (fun c => isBlank c && c != '\n') = decimal k := by
    rw [shape, dropWhile_cons_of_neg (by simp [dark])]
  have all : (decimal k).takeWhile Char.isDigit = decimal k :=
    takeWhile_eq_self_iff.mpr digit
  simp only [rest]
  split
  · rename_i found
    cases shape.symm.trans found
    simp at first
  · rename_i found
    cases shape.symm.trans found
    simp at first
  · rw [all, nil_append, Numeral.ofDecimal_decimal (by decide) fits]
    rfl

theorem constName_inj {j k : Int} (lowJ : 0 ≤ j) (highJ : j < 2 ^ 63) (lowK : 0 ≤ k)
    (highK : k < 2 ^ 63) (same : constName j = constName k) : j = k := by
  have read := congrArg constNumber? same
  rw [constNumber?_constName lowJ highJ, constNumber?_constName lowK highK] at read
  exact Option.some.inj read

theorem constName_ne_unaryKey (k : Int) (op : String) : constName k ≠ Check.unaryKey op := by
  intro same
  have chars := congrArg String.toList same
  rw [toList_constName] at chars
  simp [Check.unaryKey] at chars

theorem constName_not_mem_pureUnary (k : Int) : constName k ∉ pureUnary := by
  intro member
  simp only [pureUnary, mem_cons, not_mem_nil, or_false] at member
  rcases member with same | same <;>
  · have chars := congrArg String.toList same
    rw [toList_constName] at chars
    simp at chars

/-- No standard name is that of a new constant. -/
theorem bound?_constName (k : Int) : Check.Env.standard.terms.bound? (constName k) = none := by
  have other : ∀ row ∈ Check.standardTerms, row.1.toList.head? ≠ some '$' := by decide
  cases found : Check.standardTerms.lookup (constName k) with
  | none => rfl
  | some m =>
    have first := other _ (Scope.mem_of_lookup found)
    simp [toList_constName] at first

/-! ## The first number -/

/-- The number that a node uses up. -/
def usedNumber? (form : Form) : Node → Option Int
  | .decl (.const _ name _) => constNumber? (form.gather name)
  | _ => none

/-- The next number after a node. -/
def numberAfter (form : Form) (next : Int) (n : Node) : Int :=
  match usedNumber? form n with
  | some k => if next ≤ k then wrap64 (k + 1) else next
  | none => next

theorem firstNumber_eq (form : Form) (p : Program) :
    firstNumber form p = p.nodes.foldl (numberAfter form) 0 := by
  unfold firstNumber
  congr 1
  funext next n
  cases n with
  | decl d => cases d <;> rfl
  | expr | stmt | param | arg | sig => rfl

theorem numberAfter_step {form : Form} {next limit : Int} {n : Node} (small : limit < 2 ^ 63)
    (low : 0 ≤ next) (high : next ≤ limit) (bound : ∀ k ∈ usedNumber? form n, k < limit) :
    next ≤ numberAfter form next n ∧ numberAfter form next n ≤ limit ∧
      ∀ k ∈ usedNumber? form n, k < numberAfter form next n := by
  unfold numberAfter
  split
  · rename_i k used
    have below := bound k used
    split
    · have exact : wrap64 (k + 1) = k + 1 := wrap64_eq (by omega) (by omega)
      refine ⟨by omega, by omega, fun j same => ?_⟩
      cases used.symm.trans same
      omega
    · refine ⟨le_refl _, high, fun j same => ?_⟩
      cases used.symm.trans same
      omega
  · rename_i unused
    exact ⟨le_refl _, high, fun k same => by cases unused.symm.trans same⟩

/-- The first number is above all numbers in use, if these are small. -/
theorem firstNumber_above (form : Form) (p : Program) (limit : Int) (small : limit < 2 ^ 63)
    (positive : 0 ≤ limit) (bounds : ∀ n ∈ p.nodes, ∀ k ∈ usedNumber? form n, k < limit) :
    0 ≤ firstNumber form p ∧ firstNumber form p ≤ limit ∧
      ∀ n ∈ p.nodes, ∀ k ∈ usedNumber? form n, k < firstNumber form p := by
  have run : ∀ (ns : List Node) (next : Int), 0 ≤ next → next ≤ limit →
      (∀ n ∈ ns, ∀ k ∈ usedNumber? form n, k < limit) →
      next ≤ ns.foldl (numberAfter form) next ∧ ns.foldl (numberAfter form) next ≤ limit ∧
        ∀ n ∈ ns, ∀ k ∈ usedNumber? form n, k < ns.foldl (numberAfter form) next := by
    intro ns
    induction ns with
    | nil => exact fun next _ high _ => ⟨le_refl _, high, by simp⟩
    | cons n ns ih =>
      intro next low high bounds
      obtain ⟨grown, within, above⟩ :=
        numberAfter_step small low high (bounds n mem_cons_self)
      obtain ⟨more, final, rest⟩ := ih _ (by omega) within
        fun m member => bounds m (mem_cons_of_mem _ member)
      refine ⟨grown.trans more, final, fun m member k used => ?_⟩
      rcases mem_cons.mp member with rfl | later
      · exact lt_of_lt_of_le (above k used) more
      · exact rest m later k used
  rw [firstNumber_eq]
  exact run p.nodes 0 (le_refl 0) positive bounds

end Optimize.Hoist
end Triangle
