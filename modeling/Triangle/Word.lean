/-! Integers of fixed width. A machine word has 16 bits and is signed; its arithmetic is exact
or fails. Sizes, offsets and addresses are counted in 64 bits and wrap around. -/
namespace Triangle

def wrap64 (n : Int) : Int := n.bmod 0x10000000000000000

abbrev Word := Int16

namespace Word

def least : Int := -32768
def greatest : Int := 32767

/-- The word of value `n`, if there is one. -/
def ofInt? (n : Int) : Option Word :=
  if least ≤ n ∧ n ≤ greatest then some (Int16.ofInt n) else none

/-- The word with the low 16 bits of `n`. -/
def truncate (n : Int) : Word := Int16.ofInt n

def ofBool (b : Bool) : Word := if b then 1 else 0

def add? (a b : Word) : Option Word := ofInt? (a.toInt + b.toInt)
def sub? (a b : Word) : Option Word := ofInt? (a.toInt - b.toInt)
def mul? (a b : Word) : Option Word := ofInt? (a.toInt * b.toInt)

/-- Quotient, rounded toward zero, and remainder. There are none for a zero divisor, nor where
the quotient is no word. -/
def divide? (a b : Word) : Option (Word × Word) :=
  if b = 0 ∨ (a.toInt = least ∧ b.toInt = -1) then none
  else some (Int16.ofInt (a.toInt.tdiv b.toInt), Int16.ofInt (a.toInt.tmod b.toInt))

end Word
end Triangle
