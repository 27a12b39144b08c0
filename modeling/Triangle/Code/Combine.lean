import Triangle.Code.Basic
import Triangle.Word

/-! Combining of literals: two literals and a call of `add` or `mult` become one literal when
the result is a word. -/
namespace Triangle.Code

/-- The value of an item that pushes a literal. -/
def literal? : Item → Option Int
  | .label _ => none
  | .op ins _ =>
    if ins.op = .loadL ∧ Instruction.minDisplacement ≤ ins.d ∧ ins.d ≤ Instruction.maxDisplacement
    then some ins.d
    else none

/-- The operation of an item that calls `add` or `mult`. -/
def combiner? : Item → Option (Word → Word → Option Word)
  | .op ins none =>
    if ins.op = .call then
      match ins.primitive? with
      | some .add => some Word.add?
      | some .mult => some Word.mul?
      | _ => none
    else none
  | _ => none

def combined? (a b call : Item) : Option Item :=
  match literal? a, literal? b, combiner? call with
  | some x, some y, some f =>
    (f (Word.truncate x) (Word.truncate y)).map fun w => Item.loadL w.toInt
  | _, _, _ => none

/-- Adds an item to code kept in reverse. -/
def combineOnto (done : List Item) (item : Item) : List Item :=
  match done with
  | b :: a :: rest =>
    match combined? a b item with
    | some literal => literal :: rest
    | none => item :: done
  | _ => item :: done

/-- Combines from left to right, so that a chain of operations becomes one literal. -/
def combine (code : List Item) : List Item := (code.foldl combineOnto []).reverse

end Triangle.Code
