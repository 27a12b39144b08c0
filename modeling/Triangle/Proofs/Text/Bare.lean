import Mathlib
import Triangle.Code.Reader
import Triangle.Proofs.Text.Numeral

/-! Words of a listing. A word is *bare* when none of its characters separates words or marks a
part of a line, so that every reader of a line takes the word whole. -/
namespace Triangle.Text
open List

/-- The characters that mark the parts of a line of code. -/
def marks : List Char := [':', ';', '/', '(', ')', ',', '[', ']']

def isBare (c : Char) : Bool := !isBlank c && !marks.contains c

/-- A word that no reader splits or skips. -/
structure Bare (cs : List Char) : Prop where
  nonempty : cs ≠ []
  bare : ∀ c ∈ cs, isBare c = true

instance (cs : List Char) : Decidable (Bare cs) :=
  decidable_of_iff (cs ≠ [] ∧ cs.all isBare = true)
    ⟨fun both => ⟨both.1, all_eq_true.mp both.2⟩,
      fun bare => ⟨bare.nonempty, all_eq_true.mpr bare.bare⟩⟩

theorem not_isBlank_of_isBare {c : Char} (bare : isBare c = true) : isBlank c = false := by
  simp only [isBare, Bool.and_eq_true, Bool.not_eq_true'] at bare
  exact bare.1

theorem ne_of_isBare {c mark : Char} (bare : isBare c = true) (member : mark ∈ marks) :
    c ≠ mark := by
  rintro rfl
  simp only [isBare, Bool.and_eq_true, Bool.not_eq_true', contains_eq_mem,
    decide_eq_false_iff_not] at bare
  exact bare.2 member

/-- The code points of the blanks, one by one. -/
def blankCodes : List Nat :=
  [0x09, 0x0A, 0x0B, 0x0C, 0x0D, 0x20, 0x85, 0xA0, 0x1680, 0x2000, 0x2001, 0x2002, 0x2003, 0x2004,
    0x2005, 0x2006, 0x2007, 0x2008, 0x2009, 0x200A, 0x2028, 0x2029, 0x202F, 0x205F, 0x3000]

theorem mem_blankCodes {c : Char} (blank : isBlank c = true) : c.toNat ∈ blankCodes := by
  simp only [isBlank, Bool.or_eq_true, Bool.and_eq_true, decide_eq_true_eq, beq_iff_eq] at blank
  simp only [blankCodes, mem_cons, not_mem_nil, or_false]
  omega

/-- No blank and no mark is a letter, a digit or one of the other characters of a name. -/
def isNameChar (c : Char) : Bool :=
  isLetter c || isDecimal c || c == '_' || c == '.' || c == '$'

theorem isNameChar_blank : ∀ n ∈ blankCodes, isNameChar (Char.ofNat n) = false := by
  decide +kernel

theorem isNameChar_mark : ∀ c ∈ marks, isNameChar c = false := by
  have all : marks.all (fun c => !isNameChar c) = true := by decide +kernel
  simpa only [all_eq_true, Bool.not_eq_true'] using all

theorem isBare_of_isNameChar {c : Char} (named : isNameChar c = true) : isBare c = true := by
  have visible : isBlank c = false := by
    rw [Bool.eq_false_iff]
    intro blank
    have none := isNameChar_blank c.toNat (mem_blankCodes blank)
    rw [Char.ofNat_toNat, named] at none
    cases none
  have unmarked : c ∉ marks := by
    intro member
    rw [isNameChar_mark c member] at named
    cases named
  simp [isBare, visible, unmarked]

theorem bare_of_isIdentifier {cs : List Char} (identifier : Code.isIdentifier cs = true) :
    Bare cs := by
  cases cs with
  | nil => cases identifier
  | cons c cs =>
    simp only [Code.isIdentifier, Bool.and_eq_true, all_eq_true] at identifier
    obtain ⟨first, others⟩ := identifier
    refine ⟨cons_ne_nil c cs, ?_⟩
    intro d member
    apply isBare_of_isNameChar
    cases mem_cons.mp member with
    | inl same =>
      subst same
      simp only [Bool.or_eq_true] at first
      rcases first with letter | underscore
      · simp [isNameChar, letter]
      · simp [isNameChar, underscore]
    | inr later => exact others d later

theorem isBare_of_isDigit {c : Char} (digit : c.isDigit = true) : isBare c = true := by
  apply isBare_of_isNameChar
  have ascii : c.toNat < 128 := by
    have bound : c.toNat ≤ 57 := (Numeral.isDigit_bounds digit).2
    omega
  simp [isNameChar, isDecimal, ascii, digit]

theorem bare_decimal (n : Int) : Bare (decimal n) := by
  have digits : ∀ c ∈ Nat.toDigits 10 n.natAbs, isBare c = true := fun c member =>
    isBare_of_isDigit (Numeral.isDigit_toDigits member)
  unfold decimal
  split
  · refine ⟨cons_ne_nil _ _, ?_⟩
    intro c member
    cases mem_cons.mp member with
    | inl minus => subst minus; decide
    | inr digit => exact digits c digit
  · exact ⟨Nat.toDigits_ne_nil, digits⟩

end Triangle.Text
