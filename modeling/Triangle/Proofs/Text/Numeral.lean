import Mathlib
import Triangle.Text.Numeral

/-! Written numerals read back: the decimal digits of a number, read as a decimal or as a literal,
give the number again. -/
namespace Triangle.Text

theorem toList_repr (n : Int) : n.repr.toList = decimal n := by
  cases n with
  | ofNat n =>
    simp [decimal, Int.repr]
  | negSucc n =>
    have negative : Int.negSucc n < 0 := Int.negSucc_lt_zero n
    simp [decimal, Int.repr, negative]

variable {n : Int} {bits : Nat}

namespace Numeral

theorem isDigit_bounds {c : Char} (digit : c.isDigit = true) : '0' ≤ c ∧ c ≤ '9' := by
  simp only [Char.isDigit, Bool.and_eq_true, decide_eq_true_eq] at digit
  exact digit

/-- A decimal digit is worth less than ten. -/
theorem digitValue_digit {c : Char} (digit : c.isDigit = true) :
    digitValue c = some (c.toNat - 48) ∧ c.toNat - 48 < 10 := by
  obtain ⟨least, greatest⟩ := isDigit_bounds digit
  constructor
  · rw [digitValue, if_pos ⟨least, greatest⟩]
  · have bound : c.toNat ≤ 57 := greatest
    omega

/-- What stands for the digits so far never exceeds what all of them stand for. -/
theorem le_ofDigitChars (value : Nat) (cs : List Char) :
    value ≤ Nat.ofDigitChars 10 cs value := by
  induction cs generalizing value with
  | nil => exact Nat.le_of_eq Nat.ofDigitChars_nil.symm
  | cons c cs ih =>
    rw [Nat.ofDigitChars_cons]
    have grown := ih (10 * value + (c.toNat - '0'.toNat))
    omega

/-- Decimal digits are read onto a value as long as the result is within the limit. -/
theorem digits_decimal {limit : Nat} {sep : Separators} {cs : List Char} {value : Nat}
    {afterDigit : Bool} (digit : ∀ c ∈ cs, c.isDigit = true)
    (ended : cs = [] → afterDigit = true) (bound : Nat.ofDigitChars 10 cs value ≤ limit) :
    digits 10 limit sep value afterDigit true cs = .ok (Nat.ofDigitChars 10 cs value) := by
  induction cs generalizing value afterDigit with
  | nil => simp [digits, ended rfl]
  | cons c cs ih =>
    obtain ⟨worth, small⟩ := digitValue_digit (digit c List.mem_cons_self)
    have plain : ¬ (c = '_' ∧ sep = .allowed) := by
      rintro ⟨rfl, _⟩
      exact absurd (digit '_' List.mem_cons_self) (by decide)
    rw [Nat.ofDigitChars_cons, Nat.mul_comm] at bound ⊢
    have within : value * 10 + (c.toNat - 48) ≤ limit :=
      Nat.le_trans (le_ofDigitChars _ cs) bound
    rw [digits, if_neg plain, worth]
    simp only [Nat.not_le.mpr small, Nat.not_lt.mpr within, ↓reduceIte]
    exact ih (fun d member => digit d (List.mem_cons_of_mem c member)) (fun _ => rfl) bound

theorem isDigit_toDigits {n : Nat} {c : Char} (member : c ∈ Nat.toDigits 10 n) :
    c.isDigit = true := Nat.isDigit_of_mem_toDigits (by decide) (by decide) member

theorem digits_toDigits {limit n : Nat} {sep : Separators} {afterDigit : Bool}
    (bound : n ≤ limit) :
    digits 10 limit sep 0 afterDigit true (Nat.toDigits 10 n) = .ok n := by
  have read := @digits_decimal limit sep (Nat.toDigits 10 n) 0 afterDigit
    (fun _ => isDigit_toDigits) (fun empty => absurd empty Nat.toDigits_ne_nil)
  rw [Nat.ofDigitChars_ten_toDigits] at read
  exact read bound

/-- A digit other than zero leads the digits of a number other than zero. -/
theorem toDigits_head_ne_zero {n : Nat} (positive : 0 < n) :
    ∃ c cs, Nat.toDigits 10 n = c :: cs ∧ c ≠ '0' := by
  induction n using Nat.strongRecOn with
  | ind n ih =>
    by_cases small : n < 10
    · refine ⟨n.digitChar, [], Nat.toDigits_of_lt_base small, ?_⟩
      simpa using Nat.ne_of_gt positive
    · obtain ⟨c, cs, shape, nonzero⟩ := ih (n / 10) (by omega) (by omega)
      rw [Nat.toDigits_of_base_le (by decide) (by omega), shape]
      exact ⟨c, cs ++ [(n % 10).digitChar], rfl, nonzero⟩

theorem magnitude_toDigits {n : Nat} (bound : n ≤ Nat.pow 2 bits - 1) :
    magnitude bits (Nat.toDigits 10 n) = .ok n := by
  by_cases zero : n = 0
  · subst zero
    rfl
  · obtain ⟨c, cs, shape, nonzero⟩ := toDigits_head_ne_zero (Nat.pos_of_ne_zero zero)
    have read := @digits_toDigits _ n .allowed false bound
    rw [shape] at read ⊢
    simpa [magnitude, nonzero] using read

theorem splitSign_toDigits (n : Nat) :
    splitSign (Nat.toDigits 10 n) = (false, Nat.toDigits 10 n) := by
  have digit : ∀ c ∈ Nat.toDigits 10 n, c.isDigit = true := fun _ => isDigit_toDigits
  cases shape : Nat.toDigits 10 n with
  | nil => rfl
  | cons c cs =>
    rw [shape] at digit
    have head := digit c List.mem_cons_self
    unfold splitSign
    split <;> simp_all

/-- The sign and the digits of a written number, as the readers take them apart. -/
theorem splitSign_decimal (n : Int) :
    splitSign (decimal n) = (decide (n < 0), Nat.toDigits 10 n.natAbs) := by
  unfold decimal
  by_cases negative : n < 0
  · simp [negative, splitSign]
  · simp [negative, splitSign_toDigits]

/-- The numbers that a signed word of `bits` bits holds. -/
def Fits (bits : Nat) (n : Int) : Prop :=
  -((2 ^ (bits - 1) : Nat) : Int) ≤ n ∧ n < ((2 ^ (bits - 1) : Nat) : Int)

theorem Fits.natAbs_le (fits : Fits bits n) : n.natAbs ≤ 2 ^ (bits - 1) := by
  obtain ⟨least, greatest⟩ := fits
  omega

theorem Fits.natAbs_lt (some : 1 < bits) (fits : Fits bits n) : n.natAbs ≤ Nat.pow 2 bits - 1 := by
  have half := fits.natAbs_le
  have double : Nat.pow 2 bits = 2 * 2 ^ (bits - 1) := by
    rw [Nat.pow_eq, ← Nat.pow_succ', Nat.succ_eq_add_one, Nat.sub_add_cancel (by omega)]
  have many : 2 ≤ 2 ^ (bits - 1) := Nat.le_self_pow (by omega) 2
  omega

theorem withSign_natAbs (fits : Fits bits n) : withSign bits (decide (n < 0)) n.natAbs = .ok n := by
  have half := fits.natAbs_le
  obtain ⟨least, greatest⟩ := fits
  unfold withSign
  rw [Nat.pow_eq]
  by_cases negative : n < 0
  · simp only [negative, decide_true, ↓reduceIte, Nat.not_lt.mpr half]
    rw [Int.ofNat_natAbs_of_nonpos (Int.le_of_lt negative), Int.neg_neg]
  · have within : ¬ 2 ^ (bits - 1) ≤ n.natAbs := by omega
    simp only [negative, decide_false, Bool.false_eq_true, ↓reduceIte, within]
    rw [Int.natAbs_of_nonneg (Int.not_lt.mp negative)]

theorem ofDecimal_decimal (some : 1 < bits) (fits : Fits bits n) :
    ofDecimal bits (decimal n) = .ok n := by
  unfold ofDecimal
  rw [splitSign_decimal]
  simp only [digits_toDigits (fits.natAbs_lt some)]
  exact withSign_natAbs fits

theorem literal_decimal (some : 1 < bits) (fits : Fits bits n) :
    literal bits (decimal n) = .ok n := by
  unfold literal
  rw [splitSign_decimal]
  simp only [magnitude_toDigits (fits.natAbs_lt some)]
  exact withSign_natAbs fits

end Numeral
end Triangle.Text
