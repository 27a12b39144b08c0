/-! Reading and writing of integers. A numeral has an optional sign. A *literal* may also
name its base (`0x`, `0o`, `0b`, or a leading `0` for octal) and hold `_` between digits. -/
namespace Triangle.Text

/-- The decimal digits of `n`, after a minus sign if it is negative. -/
def decimal (n : Int) : List Char :=
  if n < 0 then '-' :: Nat.toDigits 10 n.natAbs else Nat.toDigits 10 n.natAbs

namespace Numeral

inductive Fault where
  | malformed
  | tooLarge
  deriving DecidableEq, Repr

def digitValue (c : Char) : Option Nat :=
  if '0' ≤ c ∧ c ≤ '9' then some (c.toNat - 48)
  else if 'a' ≤ c ∧ c ≤ 'z' then some (c.toNat - 87)
  else if 'A' ≤ c ∧ c ≤ 'Z' then some (c.toNat - 55)
  else none

/-- Whether `_` may stand between digits. -/
inductive Separators where
  | allowed
  | refused
  deriving DecidableEq, Repr

/-- Reads digits onto `value`. `afterDigit` says that a digit, or the mark of the base, stands
just before, and `spaced` that every `_` so far did follow one. A value above `limit` is
refused at the digit that makes it so, ahead of any fault further on. -/
def digits (base limit : Nat) (sep : Separators) (value : Nat) (afterDigit spaced : Bool) :
    List Char → Except Fault Nat
  | [] => if afterDigit && spaced then .ok value else .error .malformed
  | c :: cs =>
    if c = '_' ∧ sep = .allowed then digits base limit sep value false (spaced && afterDigit) cs
    else
      match digitValue c with
      | none => .error .malformed
      | some d =>
        if base ≤ d then .error .malformed
        else if limit < value * base + d then .error .tooLarge
        else digits base limit sep (value * base + d) true spaced cs

/-- The magnitude of a literal of at most `bits` bits. -/
def magnitude (bits : Nat) (cs : List Char) : Except Fault Nat :=
  let limit := Nat.pow 2 bits - 1
  match cs with
  | '0' :: mark :: c :: rest =>
    if mark = 'b' ∨ mark = 'B' then digits 2 limit .allowed 0 true true (c :: rest)
    else if mark = 'o' ∨ mark = 'O' then digits 8 limit .allowed 0 true true (c :: rest)
    else if mark = 'x' ∨ mark = 'X' then digits 16 limit .allowed 0 true true (c :: rest)
    else digits 8 limit .allowed 0 true true (mark :: c :: rest)
  | '0' :: rest => digits 8 limit .allowed 0 true true rest
  | cs => digits 10 limit .allowed 0 false true cs

/-- Gives a magnitude its sign, within the signed range of `bits` bits. -/
def withSign (bits : Nat) (negative : Bool) (n : Nat) : Except Fault Int :=
  if negative then if Nat.pow 2 (bits - 1) < n then .error .tooLarge else .ok (-n)
  else if Nat.pow 2 (bits - 1) ≤ n then .error .tooLarge else .ok n

def splitSign : List Char → Bool × List Char
  | '-' :: cs => (true, cs)
  | '+' :: cs => (false, cs)
  | cs => (false, cs)

/-- Reads a signed literal of `bits` bits. -/
def literal (bits : Nat) (cs : List Char) : Except Fault Int := do
  let (negative, body) := splitSign cs
  withSign bits negative (← magnitude bits body)

/-- Reads a signed decimal numeral of `bits` bits. -/
def ofDecimal (bits : Nat) (cs : List Char) : Except Fault Int := do
  let (negative, body) := splitSign cs
  withSign bits negative (← digits 10 (Nat.pow 2 bits - 1) .refused 0 false true body)

end Numeral
end Triangle.Text
