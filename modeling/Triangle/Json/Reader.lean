import Triangle.Json.Basic
import Triangle.Text.StandIn
import Triangle.Word

/-! The parts of a JSON text. A NUL ends the text. Strings may hold other control characters
unescaped, and a surrogate without its partner reads as U+FFFD. How deep values may nest is up to
the reader. -/
namespace Triangle.Json

def isBlank (c : Char) : Bool := c == ' ' || c == '\t' || c == '\n' || c == '\r'

def skip (cs : List Char) : List Char := cs.dropWhile isBlank

def isNul (c : Char) : Bool := c.toNat == 0

/-- Whether nothing but blanks comes before the end of the text. -/
def atEnd (cs : List Char) : Bool := (skip cs).head?.all isNul

def hexValue? (c : Char) : Option Nat :=
  if '0' ≤ c ∧ c ≤ '9' then some (c.toNat - 48)
  else if 'a' ≤ c ∧ c ≤ 'f' then some (c.toNat - 87)
  else if 'A' ≤ c ∧ c ≤ 'F' then some (c.toNat - 55)
  else none

/-- The code unit that four hexadecimal digits spell. -/
def unit? (a b c d : Char) : Option Nat := do
  return (((← hexValue? a) * 16 + (← hexValue? b)) * 16 + (← hexValue? c)) * 16 + (← hexValue? d)

def isHigh (unit : Nat) : Bool := 0xD800 ≤ unit && unit < 0xDC00
def isLow (unit : Nat) : Bool := 0xDC00 ≤ unit && unit < 0xE000

def replacement : Char := Char.ofNat 0xFFFD

def unitChar (unit : Nat) : Char :=
  if isHigh unit || isLow unit then replacement else Char.ofNat unit

def pairChar (high low : Nat) : Char :=
  Char.ofNat (0x10000 + (high - 0xD800) * 0x400 + (low - 0xDC00))

def simpleEscape? : Char → Option Char
  | '"' => some '"'
  | '\\' => some '\\'
  | '/' => some '/'
  | 'b' => some (Char.ofNat 8)
  | 'f' => some (Char.ofNat 12)
  | 'n' => some '\n'
  | 'r' => some '\r'
  | 't' => some '\t'
  | _ => none

/-- The code units that escapes in a text spell, wherever they stand. -/
def spelledUnits : List Char → List Nat
  | '\\' :: 'u' :: a :: b :: c :: d :: rest =>
    (unit? a b c d).toList ++ spelledUnits (a :: b :: c :: d :: rest)
  | _ :: rest => spelledUnits rest
  | [] => []

/-- The characters beyond the first plane that pairs of units spell. -/
def spelledPairs (units : List Nat) : List Char :=
  (units.zip units.tail).filterMap fun (high, low) =>
    if isHigh high && isLow low then some (pairChar high low) else none

/-- Puts characters in front of a string that has been read. -/
def before (cs : List Char) : Option (List Char × List Char) → Option (List Char × List Char)
  | some (text, rest) => some (cs ++ text, rest)
  | none => none

/-- Reads a string after its opening quote; `high` is a high surrogate just before. -/
def readString (form : Text.Form) (high : Option Nat) :
    List Char → Option (List Char × List Char)
  | [] => none
  | '\\' :: 'u' :: a :: b :: c :: d :: rest =>
    match unit? a b c d, high with
    | none, _ => none
    | some unit, some first =>
      if isLow unit then before (form.spell (pairChar first unit)) (readString form none rest)
      else if isHigh unit then
        before (form.spell replacement) (readString form (some unit) rest)
      else
        before (form.spell replacement)
          (before (form.spell (unitChar unit)) (readString form none rest))
    | some unit, none =>
      if isHigh unit then readString form (some unit) rest
      else before (form.spell (unitChar unit)) (readString form none rest)
  | c :: cs =>
    let lone := fun (read : Option (List Char × List Char)) =>
      if high.isSome then before (form.spell replacement) read else read
    match c, cs with
    | '"', rest => lone (some ([], rest))
    | '\\', e :: rest =>
      match simpleEscape? e with
      | some c => lone (before [c] (readString form none rest))
      | none => none
    | '\\', [] => none
    | c, rest => if isNul c then none else lone (before [c] (readString form none rest))

def digitsValue (ds : List Char) : Nat := ds.foldl (fun n d => 10 * n + (d.toNat - 48)) 0

/-- The integer that digits spell, at most nineteen of them. It wraps around at 64 bits. -/
def digitsInt? (negative : Bool) (ds : List Char) : Option Int :=
  let n : Int := digitsValue ds
  if ds.length ≤ 19 then some (wrap64 (if negative then -n else n)) else none

/-- Reads an integer: digits after an optional minus sign, where a zero in front of other digits
needs the sign. -/
def readInt : List Char → Option (Int × List Char)
  | '0' :: rest => some (0, rest)
  | '-' :: rest => do
    return (← digitsInt? true (rest.takeWhile Char.isDigit), rest.dropWhile Char.isDigit)
  | c :: rest => do
    if c.isDigit then
      return (← digitsInt? false (c :: rest.takeWhile Char.isDigit), rest.dropWhile Char.isDigit)
    else none
  | [] => none

/-- How deep values may nest, if there is a limit. -/
abbrev Limit := Option Nat

def Limit.admits (limit : Limit) (depth : Int) : Bool := limit.all fun most => depth ≤ most

/-- The limit for programs. -/
def maxDepth : Limit := some 10000

/-! A value that nobody asks for is passed over without a check of what stands in its brackets. -/

/-- Passes over a string after its opening quote. -/
def passString : List Char → Option (List Char)
  | [] => none
  | '\\' :: c :: rest => if isNul c then none else passString rest
  | '"' :: rest => some rest
  | c :: rest => if isNul c then none else passString rest

/-- Where a character inside brackets stands: outside of strings, in a string, or in a string
after a backslash. -/
inductive Within where
  | plain | quoted | escaped
  deriving DecidableEq, Repr

/-- Passes over the rest of a value in brackets, of which `count` are open. Only brackets of the
value's own kind are paired; those of both kinds count for the depth. -/
def passBrackets (limit : Limit) (left right : Char) (count : Nat) (depth : Int)
    (within : Within) : List Char → Option (List Char)
  | [] => none
  | c :: rest =>
    if isNul c then none
    else
      match within with
      | .escaped => passBrackets limit left right count depth .quoted rest
      | .quoted =>
        let within := if c = '"' then .plain else if c = '\\' then .escaped else .quoted
        passBrackets limit left right count depth within rest
      | .plain =>
        if c = '"' then passBrackets limit left right count depth .quoted rest
        else if c = '[' ∨ c = '\x7b' then
          if !limit.admits (depth + 1) then none
          else
            let count := if c = left then count + 1 else count
            passBrackets limit left right count (depth + 1) .plain rest
        else if c = right ∧ count ≤ 1 then some rest
        else if c = ']' ∨ c = '\x7d' then
          let count := if c = right then count - 1 else count
          passBrackets limit left right count (depth - 1) .plain rest
        else passBrackets limit left right count depth .plain rest

def isNumberChar (c : Char) : Bool :=
  c.isDigit || c == '-' || c == '+' || c == '.' || c == 'e' || c == 'E'

/-- Passes over a value inside `depth` brackets. -/
def passValue (limit : Limit) (depth : Nat) (cs : List Char) : Option (List Char) :=
  match skip cs with
  | '\x7b' :: rest => passBrackets limit '\x7b' '\x7d' 1 (depth + 1) .plain rest
  | '[' :: rest => passBrackets limit '[' ']' 1 (depth + 1) .plain rest
  | '"' :: rest => passString rest
  | 'n' :: 'u' :: 'l' :: 'l' :: rest => some rest
  | 't' :: 'r' :: 'u' :: 'e' :: rest => some rest
  | 'f' :: 'a' :: 'l' :: 's' :: 'e' :: rest => some rest
  | c :: rest => if c.isDigit || c == '-' then some (rest.dropWhile isNumberChar) else none
  | [] => none

end Triangle.Json
