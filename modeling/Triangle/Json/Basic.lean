import Triangle.Text.Numeral
import Triangle.Text.Quoted

/-! JSON values and their indented text. -/
namespace Triangle

/-- A value; numbers are integers, and an object keeps its members in order. -/
inductive Json where
  | null
  | bool (value : Bool)
  | int (value : Int)
  | str (text : String)
  | arr (elems : List Json)
  | obj (members : List (String × Json))
  deriving Repr, Inhabited

namespace Json

def elems : Json → List Json
  | arr elems => elems
  | _ => []

def members : Json → List (String × Json)
  | obj members => members
  | _ => []

/-- Gives a member its value, in the place that it has already or after the others. -/
def setMember (key : String) (value : Json) : List (String × Json) → List (String × Json)
  | [] => [(key, value)]
  | (other, x) :: rest =>
    if other = key then (key, value) :: rest else (other, x) :: setMember key value rest

/-- A character inside a string. Besides what must be escaped, the characters special to markup
and the two line separators are written as escapes. -/
def escape (c : Char) : List Char :=
  if c = '"' ∨ c = '\\' then ['\\', c]
  else if c = '\n' then ['\\', 'n']
  else if c = '\r' then ['\\', 'r']
  else if c = '\t' then ['\\', 't']
  else if c.toNat < 32 ∨ c = '<' ∨ c = '>' ∨ c = '&' ∨ c.toNat = 0x2028 ∨ c.toNat = 0x2029 then
    ['\\', 'u'] ++ Text.hex 4 c.toNat
  else [c]

def quoted (text : String) : List Char := '"' :: text.toList.flatMap escape ++ ['"']

/-- The end of a line and the indentation of the next, two blanks for each level. -/
def newline (level : Nat) : List Char := '\n' :: List.replicate (2 * level) ' '

def comma (after : Bool) : List Char := if after then [','] else []

mutual
/-- The text of a value inside `level` brackets. -/
def chars (level : Nat) : Json → List Char
  | .null => ['n', 'u', 'l', 'l']
  | .bool true => ['t', 'r', 'u', 'e']
  | .bool false => ['f', 'a', 'l', 's', 'e']
  | .int n => Text.decimal n
  | .str text => quoted text
  | .arr [] => ['[', ']']
  | .arr (x :: xs) => '[' :: elemChars (level + 1) false (x :: xs) ++ newline level ++ [']']
  | .obj [] => ['\x7b', '\x7d']
  | .obj (m :: ms) => '\x7b' :: memberChars (level + 1) false (m :: ms) ++ newline level ++ ['\x7d']

def elemChars (level : Nat) (after : Bool) : List Json → List Char
  | [] => []
  | x :: xs => comma after ++ newline level ++ chars level x ++ elemChars level true xs

def memberChars (level : Nat) (after : Bool) : List (String × Json) → List Char
  | [] => []
  | (key, x) :: rest =>
    comma after ++ newline level ++ quoted key ++ [':', ' '] ++ chars level x ++
      memberChars level true rest
end

def print (j : Json) : String := String.ofList (j.chars 0)

end Json
end Triangle
