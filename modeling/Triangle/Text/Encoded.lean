import Triangle.Text.Quoted

/-! Text in the bytes of UTF-8, of which some may be no part of a character. -/
namespace Triangle.Text

def replacementChar : Char := Char.ofNat 0xFFFD

/-- The last six bits of a byte that continues a character. -/
def continuation? (b : UInt8) : Option Nat :=
  if 0x80 ≤ b ∧ b < 0xC0 then some (b.toNat - 0x80) else none

/-- The character of a code point that is not written in more bytes than it needs. -/
def charFrom? (least n : Nat) : Option Char :=
  if least ≤ n ∧ n.isValidChar then some (Char.ofNat n) else none

/-- The first character, and the bytes after it. -/
def decodeChar? : List UInt8 → Option (Char × List UInt8)
  | [] => none
  | a :: rest =>
    if a < 0x80 then some (Char.ofNat a.toNat, rest)
    else if a < 0xC0 then none
    else if a < 0xE0 then
      match rest with
      | b :: rest => do
        let c ← charFrom? 0x80 ((a.toNat - 0xC0) * 64 + (← continuation? b))
        return (c, rest)
      | [] => none
    else if a < 0xF0 then
      match rest with
      | b :: c :: rest => do
        let n := ((a.toNat - 0xE0) * 64 + (← continuation? b)) * 64 + (← continuation? c)
        return (← charFrom? 0x800 n, rest)
      | _ => none
    else if a < 0xF8 then
      match rest with
      | b :: c :: d :: rest => do
        let n := (((a.toNat - 0xF0) * 64 + (← continuation? b)) * 64 + (← continuation? c)) * 64 +
          (← continuation? d)
        return (← charFrom? 0x10000 n, rest)
      | _ => none
    else none

/-- A character, or a byte that is no part of one. -/
inductive Piece where
  | char (c : Char)
  | stray (b : UInt8)
  deriving DecidableEq, Repr

namespace Piece

def char? : Piece → Option Char
  | char c => some c
  | stray _ => none

/-- The character that is seen; a stray byte is seen as the replacement character. -/
def seen : Piece → Char
  | char c => c
  | stray _ => replacementChar

def escape : Piece → List Char
  | char c => Text.escape c
  | stray b => ['\\', 'x'] ++ hex 2 b.toNat

end Piece

/-- Reads at most `fuel` pieces. -/
def readPieces : (fuel : Nat) → List UInt8 → List Piece
  | 0, _ => []
  | _ + 1, [] => []
  | fuel + 1, b :: rest =>
    match decodeChar? (b :: rest) with
    | some (c, rest) => .char c :: readPieces fuel rest
    | none => .stray b :: readPieces fuel rest

def pieces (bytes : List UInt8) : List Piece := readPieces bytes.length bytes

/-- Quotes pieces of text, with stray bytes in hexadecimal. -/
def quotePieces (ps : List Piece) : String :=
  "\"" ++ String.ofList (ps.flatMap Piece.escape) ++ "\""

def encodeUtf8 (text : String) : List UInt8 := text.toList.flatMap String.utf8EncodeChar

end Triangle.Text
