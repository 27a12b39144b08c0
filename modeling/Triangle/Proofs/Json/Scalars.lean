import Mathlib
import Triangle.Tree.Shape
import Triangle.Proofs.Layout.Types
import Triangle.Proofs.Text.Numeral

/-! The parts of a printed JSON text read back: strings through their escapes, numbers of 64 bits,
and the keys of members, whatever blanks stand around them. -/
namespace Triangle.Json
open List
open Text (Form)

/-! ## Strings -/

theorem hexValue?_hexDigit {n : Nat} (small : n < 16) : hexValue? (Text.hexDigit n) = some n := by
  interval_cases n <;> rfl

/-- Four digits spell the code unit that they were written for. -/
theorem unit?_hex {n : Nat} (small : n < 65536) :
    ∃ a b c d, Text.hex 4 n = [a, b, c, d] ∧ unit? a b c d = some n := by
  refine ⟨_, _, _, _, rfl, ?_⟩
  simp only [unit?]
  rw [hexValue?_hexDigit (Nat.mod_lt _ (by decide)), hexValue?_hexDigit (Nat.mod_lt _ (by decide)),
    hexValue?_hexDigit (Nat.mod_lt _ (by decide)), hexValue?_hexDigit (Nat.mod_lt _ (by decide))]
  simp only [Option.bind_eq_bind, Option.bind_some, Option.pure_def, Option.some.injEq]
  omega

theorem readString_unit {n : Nat} (small : n < 65536) (high : isHigh n = false)
    (low : isLow n = false) (cs : List Char) :
    readString .given none (['\\', 'u'] ++ Text.hex 4 n ++ cs) =
      before [Char.ofNat n] (readString .given none cs) := by
  obtain ⟨a, b, c, d, digits, unit⟩ := unit?_hex small
  rw [digits]
  change readString .given none ('\\' :: 'u' :: a :: b :: c :: d :: cs) = _
  rw [readString.eq_def]
  simp [unit, high, low, unitChar, Form.spell]

theorem readString_plain {c : Char} (cs : List Char) (quote : c ≠ '"') (backslash : c ≠ '\\')
    (nul : isNul c = false) :
    readString .given none (c :: cs) = before [c] (readString .given none cs) := by
  rw [readString]
  · simp [nul]
  all_goals simp [quote, backslash]

theorem readString_escape (c : Char) (cs : List Char) :
    readString .given none (escape c ++ cs) = before [c] (readString .given none cs) := by
  unfold escape
  split
  · rename_i special
    rcases special with rfl | rfl <;> rfl
  split
  · rename_i newline
    subst newline
    rfl
  split
  · rename_i carriageReturn
    subst carriageReturn
    rfl
  split
  · rename_i tab
    subst tab
    rfl
  split
  · rename_i special
    have bound : c.toNat < 0x3000 := by
      rcases special with control | rfl | rfl | rfl | line | line
      · omega
      · decide
      · decide
      · decide
      · omega
      · omega
    rw [readString_unit (by omega) (by simp [isHigh]; omega) (by simp [isLow]; omega),
      Char.ofNat_toNat]
  · rename_i quote _ _ _ special
    rw [not_or] at quote
    exact readString_plain cs quote.1 quote.2 (by simp [isNul]; omega)

/-- A string is read as it was written. -/
theorem readString_quoted (text rest : List Char) :
    readString .given none (text.flatMap escape ++ '"' :: rest) = some (text, rest) := by
  induction text with
  | nil => rfl
  | cons c text ih =>
    rw [flatMap_cons, append_assoc, readString_escape, ih]
    rfl

/-! ## Numbers -/

theorem digitsValue_eq (ds : List Char) : digitsValue ds = Nat.ofDigitChars 10 ds 0 := by
  rfl

theorem digitsInt?_toDigits {n : Nat} (negative : Bool) (bound : n < 10 ^ 19) :
    digitsInt? negative (Nat.toDigits 10 n) = some (wrap64 (if negative then -n else n)) := by
  have short := Nat.toDigits_length 10 n 19 (by decide) bound
  simp only [digitsInt?, digitsValue_eq, Nat.ofDigitChars_ten_toDigits, short, ↓reduceIte]

/-- Digits end where something else begins. -/
theorem takeWhile_digits {digits rest : List Char} (inside : ∀ c ∈ digits, c.isDigit = true)
    (boundary : ∀ c ∈ rest.head?, c.isDigit = false) :
    (digits ++ rest).takeWhile Char.isDigit = digits ∧
      (digits ++ rest).dropWhile Char.isDigit = rest := by
  rw [takeWhile_append_of_pos inside, dropWhile_append_of_pos inside]
  cases rest with
  | nil => simp
  | cons c rest => simp [boundary c rfl]

/-- A number is read as it was written. -/
theorem readInt_decimal {n : Int} {rest : List Char} (fits : Text.Numeral.Fits 64 n)
    (boundary : ∀ c ∈ rest.head?, c.isDigit = false) :
    readInt (Text.decimal n ++ rest) = some (n, rest) := by
  have small : n.natAbs < 10 ^ 19 := by
    have := fits.natAbs_le
    omega
  have same : wrap64 n = n := wrap64_eq fits.1 fits.2
  obtain ⟨taken, dropped⟩ := @takeWhile_digits (Nat.toDigits 10 n.natAbs) rest
    (fun _ => Text.Numeral.isDigit_toDigits) boundary
  unfold Text.decimal
  split
  · rename_i negative
    have magnitude : (-(n.natAbs : Int)) = n := by omega
    simp only [cons_append, readInt, taken, dropped, digitsInt?_toDigits true small,
      ↓reduceIte, magnitude, same]
    rfl
  · rename_i positive
    have magnitude : (n.natAbs : Int) = n := by omega
    by_cases zero : n = 0
    · subst zero
      rfl
    · obtain ⟨c, cs, shape, nonzero⟩ := Text.Numeral.toDigits_head_ne_zero (n :=
        n.natAbs) (by omega)
      have digit : c.isDigit = true := Text.Numeral.isDigit_toDigits (n :=
        n.natAbs) (by simp [shape])
      have read := digitsInt?_toDigits false small
      simp only [Bool.false_eq_true, ↓reduceIte, magnitude, same] at read
      rw [shape] at taken dropped read ⊢
      simp only [cons_append, takeWhile_cons, dropWhile_cons, digit, ↓reduceIte,
        List.cons.injEq, true_and] at taken dropped
      have unsigned : c ≠ '-' := by
        rintro rfl
        cases digit
      rw [cons_append, readInt]
      · simp [digit, taken, dropped, read]
      · simp [nonzero]
      · simp [unsigned]

/-! ## Blanks and keys -/

theorem skip_front {front : List Char} (blank : ∀ c ∈ front, isBlank c = true) (cs : List Char) :
    skip (front ++ cs) = skip cs :=
  dropWhile_append_of_pos blank

theorem skip_visible {c : Char} (visible : isBlank c = false) (cs : List Char) :
    skip (c :: cs) = c :: cs := by
  simp [skip, visible]

theorem blank_newline (level : Nat) : ∀ c ∈ newline level, isBlank c = true := by
  intro c member
  rcases mem_cons.mp member with rfl | inside
  · rfl
  · rw [(mem_replicate.mp inside).2]
    rfl

theorem quoted_append (text : String) (rest : List Char) :
    quoted text ++ rest = '"' :: (text.toList.flatMap escape ++ '"' :: rest) := by
  simp [quoted]

/-- The keys that a part has are read as they were written. -/
theorem readKey_quoted {part : Part} {key : String} (known : (part.shape? key).isSome = true)
    (rest : List Char) : part.readKey .given (quoted key ++ rest) = some (key, rest) := by
  rw [quoted_append]
  cases part with
  | node =>
    simp only [Part.readKey, skip_visible (show isBlank '"' = false from rfl), readString_quoted,
      String.ofList_toList]
  | field =>
    have names : key = "name" ∨ key = "type" ∨ key = "value" := by
      by_contra other
      simp only [not_or] at other
      simp [Part.shape?, other] at known
    rcases names with rfl | rfl | rfl
    · rfl
    · rfl
    · rfl

end Triangle.Json
