import Triangle.Text.Numeral
import Triangle.Text.Quoted

/-! Reading from the byte stream that a machine consumes. -/
namespace Triangle

/-- Why nothing could be read. -/
inductive InputFault where
  | ended
  | numeral (token : List UInt8) (fault : Text.Numeral.Fault)
  deriving DecidableEq, Repr

namespace InputFault

def message : InputFault → String
  | ended => "EOF"
  | numeral token fault =>
    let reason :=
      match fault with
      | .malformed => "invalid syntax"
      | .tooLarge => "value out of range"
    s!"strconv.ParseInt: parsing {Text.quoteBytes token}: {reason}"

end InputFault

namespace Input

/-- Bytes that may stand before a number. -/
def isBlank (b : UInt8) : Bool := b == 32 || b == 9 || b == 10 || b == 13

def isDigit (b : UInt8) : Bool := 48 ≤ b && b ≤ 57

def newline : UInt8 := 10

def ofChars (cs : List Char) : List UInt8 := cs.map fun c => UInt8.ofNat c.toNat

def toChars (bytes : List UInt8) : List Char := bytes.map fun b => Char.ofNat b.toNat

/-- Reads a decimal integer of 16 bits: blanks are skipped, one byte of any kind is taken, and
the digits after it. Returns the bytes left unread, also when what was taken is no number. -/
def readInt (bytes : List UInt8) : Except InputFault Int × List UInt8 :=
  match bytes.dropWhile isBlank with
  | [] => (.error .ended, [])
  | first :: rest =>
    let token := first :: rest.takeWhile isDigit
    let left := rest.dropWhile isDigit
    match Text.Numeral.ofDecimal 16 (toChars token) with
    | .ok n => (.ok n, left)
    | .error fault => (.error (.numeral token fault), left)

/-- Skips what is left of the line, its end included. -/
def skipLine (bytes : List UInt8) : Except InputFault Unit × List UInt8 :=
  match bytes.dropWhile (· != newline) with
  | [] => (.error .ended, [])
  | _ :: rest => (.ok (), rest)

end Input
end Triangle
