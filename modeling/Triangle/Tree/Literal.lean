import Triangle.Tree.Basic

/-! Scalar literals, apart from the nodes that write them. -/
namespace Triangle

inductive Literal where
  | int (value : Int)
  | char (value : Char)
  | bool (value : Bool)
  deriving DecidableEq, Repr

/-- The node that writes a literal. -/
def Literal.toExpr (i : Info) : Literal → Expr
  | int value => .int i value
  | char value => .char i value
  | bool value => .bool i value

/-- The value of a literal in the machine. -/
def Literal.word : Literal → Int
  | int value => value
  | char value => value.toNat
  | bool value => if value then 1 else 0

def Expr.literal? : Expr → Option Literal
  | .int _ value => some (.int value)
  | .char _ value => some (.char value)
  | .bool _ value => some (.bool value)
  | _ => none

def Expr.isLiteral (e : Expr) : Bool := e.literal?.isSome

end Triangle
