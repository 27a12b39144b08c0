import Mathlib
import Triangle.Text.Encoded

/-! The bytes of a text in UTF-8 read back as its characters. -/
namespace Triangle.Text
open List

theorem toNat_byte {n : Nat} (small : n < 256) : (UInt8.ofNat n).toNat = n :=
  UInt8.toNat_ofNat_of_lt' small

theorem byte_lt {n k : Nat} (small : n < 256) (bound : k < 256) :
    UInt8.ofNat n < UInt8.ofNat k ↔ n < k := by
  rw [UInt8.lt_iff_toNat_lt, toNat_byte small, toNat_byte bound]

theorem byte_below {n : Nat} (k : Nat) (less : n < k) (bound : k < 256) :
    UInt8.ofNat n < UInt8.ofNat k :=
  (byte_lt (by omega) bound).mpr less

theorem byte_above {n : Nat} (k : Nat) (least : k ≤ n) (small : n < 256) :
    ¬ UInt8.ofNat n < UInt8.ofNat k :=
  fun below => absurd ((byte_lt small (by omega)).mp below) (by omega)

/-- A byte that continues a character holds six bits of it. -/
theorem continuation?_byte (n : Nat) :
    continuation? (UInt8.ofNat (n % 64 + 128)) = some (n % 64) := by
  have small : n % 64 + 128 < 256 := by omega
  have least : 0x80 ≤ UInt8.ofNat (n % 64 + 128) :=
    UInt8.not_lt.mp (byte_above 0x80 (by omega) small)
  have greatest : UInt8.ofNat (n % 64 + 128) < 0xC0 := byte_below 0xC0 (by omega) (by decide)
  rw [continuation?, if_pos ⟨least, greatest⟩, toNat_byte small, Nat.add_sub_cancel]

theorem charFrom?_toNat {c : Char} {least : Nat} (enough : least ≤ c.toNat) :
    charFrom? least c.toNat = some c := by
  rw [charFrom?, if_pos ⟨enough, c.valid⟩, Char.ofNat_toNat]

/-- The bytes of a character are read as the character. -/
theorem decodeChar?_utf8 (c : Char) (rest : List UInt8) :
    decodeChar? (String.utf8EncodeChar c ++ rest) = some (c, rest) := by
  have bound : c.toNat < 0x110000 := by
    have valid : c.toNat.isValidChar := c.valid
    unfold Nat.isValidChar at valid
    omega
  have value : c.val.toNat = c.toNat := rfl
  simp only [String.utf8EncodeChar, value]
  generalize known : c.toNat = n at bound
  split
  · have lead : UInt8.ofNat n < 0x80 := byte_below 0x80 (by omega) (by decide)
    simp only [cons_append, nil_append, decodeChar?, if_pos lead]
    rw [toNat_byte (by omega), ← known, Char.ofNat_toNat]
  split
  · have small : n / 64 % 32 + 192 < 256 := by omega
    have whole : n / 64 % 32 * 64 + n % 64 = n := by omega
    have one : ¬ UInt8.ofNat (n / 64 % 32 + 192) < 0x80 := byte_above 0x80 (by omega) small
    have stray : ¬ UInt8.ofNat (n / 64 % 32 + 192) < 0xC0 := byte_above 0xC0 (by omega) small
    have two : UInt8.ofNat (n / 64 % 32 + 192) < 0xE0 := byte_below 0xE0 (by omega) (by decide)
    have char : charFrom? 0x80 n = some c := known ▸ charFrom?_toNat (by omega)
    simp only [cons_append, nil_append, decodeChar?, if_neg one, if_neg stray, if_pos two,
      continuation?_byte, toNat_byte small, Nat.add_sub_cancel, Option.bind_eq_bind,
      Option.bind_some, whole, char, Option.pure_def]
  split
  · have small : n / 4096 % 16 + 224 < 256 := by omega
    have whole : (n / 4096 % 16 * 64 + n / 64 % 64) * 64 + n % 64 = n := by omega
    have one : ¬ UInt8.ofNat (n / 4096 % 16 + 224) < 0x80 := byte_above 0x80 (by omega) small
    have stray : ¬ UInt8.ofNat (n / 4096 % 16 + 224) < 0xC0 := byte_above 0xC0 (by omega) small
    have two : ¬ UInt8.ofNat (n / 4096 % 16 + 224) < 0xE0 := byte_above 0xE0 (by omega) small
    have three : UInt8.ofNat (n / 4096 % 16 + 224) < 0xF0 := byte_below 0xF0 (by omega) (by decide)
    have char : charFrom? 0x800 n = some c := known ▸ charFrom?_toNat (by omega)
    simp only [cons_append, nil_append, decodeChar?, if_neg one, if_neg stray, if_neg two,
      if_pos three, continuation?_byte, toNat_byte small, Nat.add_sub_cancel, Option.bind_eq_bind,
      Option.bind_some, whole, char, Option.pure_def]
  · have small : n / 262144 % 8 + 240 < 256 := by omega
    have whole : ((n / 262144 % 8 * 64 + n / 4096 % 64) * 64 + n / 64 % 64) * 64 + n % 64 = n := by
      omega
    have one : ¬ UInt8.ofNat (n / 262144 % 8 + 240) < 0x80 := byte_above 0x80 (by omega) small
    have stray : ¬ UInt8.ofNat (n / 262144 % 8 + 240) < 0xC0 := byte_above 0xC0 (by omega) small
    have two : ¬ UInt8.ofNat (n / 262144 % 8 + 240) < 0xE0 := byte_above 0xE0 (by omega) small
    have three : ¬ UInt8.ofNat (n / 262144 % 8 + 240) < 0xF0 := byte_above 0xF0 (by omega) small
    have four : UInt8.ofNat (n / 262144 % 8 + 240) < 0xF8 := byte_below 0xF8 (by omega) (by decide)
    have char : charFrom? 0x10000 n = some c := known ▸ charFrom?_toNat (by omega)
    simp only [cons_append, nil_append, decodeChar?, if_neg one, if_neg stray, if_neg two,
      if_neg three, if_pos four, continuation?_byte, toNat_byte small, Nat.add_sub_cancel,
      Option.bind_eq_bind, Option.bind_some, whole, char, Option.pure_def]

/-- The pieces of encoded text are its characters. -/
theorem pieces_encodeUtf8 (text : String) : pieces (encodeUtf8 text) = text.toList.map .char := by
  have read : ∀ (cs : List Char) (fuel : Nat), cs.length ≤ fuel →
      readPieces fuel (cs.flatMap String.utf8EncodeChar) = cs.map .char := by
    intro cs
    induction cs with
    | nil =>
      intro fuel _
      cases fuel <;> rfl
    | cons c cs ih =>
      intro fuel enough
      cases fuel with
      | zero => simp at enough
      | succ fuel =>
        have first := decodeChar?_utf8 c (cs.flatMap String.utf8EncodeChar)
        rw [flatMap_cons, map_cons]
        generalize String.utf8EncodeChar c ++ cs.flatMap String.utf8EncodeChar = bytes at first
        cases bytes with
        | nil => cases first
        | cons b bytes =>
          rw [readPieces, first]
          simp only [ih fuel (by simpa using enough)]
  refine read _ _ ?_
  rw [encodeUtf8]
  induction text.toList with
  | nil => simp
  | cons c cs ih =>
    have some : 0 < (String.utf8EncodeChar c).length := by
      rw [String.length_utf8EncodeChar]
      exact c.utf8Size_pos
    rw [flatMap_cons, length_append, length_cons]
    omega
end Triangle.Text
