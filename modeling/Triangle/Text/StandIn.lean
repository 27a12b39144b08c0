import Triangle.Text.Encoded

/-! Text for bytes that are not all characters. Private-use characters that occur nowhere else in
the text stand in for such bytes, and are written as bytes again. -/
namespace Triangle.Text

/-- One character for each byte from 0x80 on, in the order of the bytes. -/
structure StandIns where
  chars : List Char
  deriving DecidableEq, Repr

namespace StandIns

/-- The text of a byte: itself if it is ASCII, its stand-in otherwise. -/
def ofByte (s : StandIns) (b : UInt8) : Char :=
  if b < 0x80 then Char.ofNat b.toNat else s.chars.getD (b.toNat - 0x80) replacementChar

/-- The byte that a character stands in for. -/
def byte? (s : StandIns) (c : Char) : Option UInt8 :=
  (s.chars.idxOf? c).map fun k => UInt8.ofNat (k + 0x80)

/-- The bytes of a text with stand-ins. -/
def bytes (s : StandIns) (text : String) : List UInt8 :=
  text.toList.flatMap fun c =>
    match s.byte? c with
    | some b => [b]
    | none => String.utf8EncodeChar c

/-- The character that is seen; a stray byte is seen as the replacement character. -/
def seen (s : StandIns) (c : Char) : Char := if (s.byte? c).isSome then replacementChar else c

/-- Characters, with stand-ins for stray bytes. -/
def ofPieces (s : StandIns) (ps : List Piece) : String :=
  String.ofList (ps.map fun
    | .char c => c
    | .stray b => s.ofByte b)

/-- Bytes one by one, with stand-ins for all beyond ASCII. -/
def ofBytes (s : StandIns) (bytes : List UInt8) : String := String.ofList (bytes.map s.ofByte)

/-- The first private-use character that can stand in for a byte. -/
def least : Nat := 0xF0000

/-- The first 128 private-use characters that are not used. They are among the first that are as
many as these and the used ones together. -/
def unused (used : List Char) : StandIns :=
  let taken := (used.filter fun c => least ≤ c.toNat).eraseDups
  let candidates := (List.range (0x80 + taken.length)).map fun k => Char.ofNat (least + k)
  ⟨(candidates.filter fun c => !taken.contains c).take 0x80⟩

end StandIns

/-- How characters are written in a text: each as itself, or as its bytes, those beyond ASCII by
their stand-ins. -/
inductive Form where
  | given
  | bytewise (s : StandIns)
  deriving DecidableEq, Repr

namespace Form

def spell : Form → Char → List Char
  | given, c => [c]
  | bytewise s, c => (String.utf8EncodeChar c).map s.ofByte

/-- The number of bytes that a character of the text takes. -/
def size : Form → Char → Nat
  | given, c => c.utf8Size
  | bytewise _, _ => 1

/-- The one character that a text holds, where a stray byte counts as a character. -/
def single? : Form → List Char → Option Char
  | given, [c] => some c
  | given, _ => none
  | bytewise s, cs =>
    match pieces (s.bytes (String.ofList cs)) with
    | [p] => some p.seen
    | _ => none

/-- A text with its characters as themselves, and stand-ins for stray bytes only. -/
def gather : Form → String → String
  | given, text => text
  | bytewise s, text => s.ofPieces (pieces (s.bytes text))

def quote : Form → String → String
  | given, text => Text.quote text
  | bytewise s, text => quotePieces (pieces (s.bytes text))

/-- The bytes of a text. -/
def bytes : Form → String → List UInt8
  | given, text => encodeUtf8 text
  | bytewise s, text => s.bytes text

end Form
end Triangle.Text
