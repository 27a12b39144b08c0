import Triangle.Ty

/-! Values of programs and the variables that hold them. Values have the shape of their types; how
they are laid out in words is not part of them. -/
namespace Triangle.Semantics

/-- Integers are words. A character is known by its code: any integer is the code of one. -/
inductive Value where
  | bool (b : Bool)
  | int (w : Word)
  | char (code : Int)
  | array (elems : List Value)
  | record (fields : List (String × Value))

/-- A step from a value to one of its components. -/
inductive Selector where
  | index (k : Nat)
  | field (name : String)

namespace Value

mutual
/-- Sameness in every component. -/
def same : Value → Value → Bool
  | bool a, bool b => a == b
  | int a, int b => a == b
  | char a, char b => a == b
  | array vs, array ws => sameAll vs ws
  | record fs, record gs => sameFields fs gs
  | _, _ => false

def sameAll : List Value → List Value → Bool
  | [], [] => true
  | v :: vs, w :: ws => v.same w && sameAll vs ws
  | _, _ => false

def sameFields : List (String × Value) → List (String × Value) → Bool
  | [], [] => true
  | (x, v) :: fs, (y, w) :: gs => x == y && v.same w && sameFields fs gs
  | _, _ => false
end

mutual
/-- What a variable holds at first. -/
def zero : Ty → Value
  | .boolean => bool false
  | .integer => int 0
  | .char => char 0
  | .array length elem => array (List.replicate length.toNat (zero elem))
  | .record fields => record (zeroFields fields)
  | .void | .func _ _ | .ref _ => record []

def zeroFields : List (String × Ty) → List (String × Value)
  | [] => []
  | (x, t) :: rest => (x, zero t) :: zeroFields rest
end

/-- The component at the end of a path. -/
def get? : List Selector → Value → Option Value
  | [], v => some v
  | .index k :: path, array vs => vs[k]?.bind (get? path)
  | .field x :: path, record fs => (fs.lookup x).bind (get? path)
  | _, _ => none

/-- Changes the first field called `x`. -/
def modifyField (x : String) (f : Value → Value) : List (String × Value) → List (String × Value)
  | [] => []
  | (y, v) :: rest => if x = y then (y, f v) :: rest else (y, v) :: modifyField x f rest

/-- The value with another one at the end of a path. -/
def set (new : Value) : List Selector → Value → Value
  | [], _ => new
  | .index k :: path, array vs => array (vs.modify k (set new path))
  | .field x :: path, record fs => record (modifyField x (set new path) fs)
  | _, v => v

end Value

/-- A variable, or a component of one, by the number of the variable among those in existence. -/
structure Place where
  loc : Nat
  path : List Selector := []

def Place.select (p : Place) (s : Selector) : Place := { p with path := p.path ++ [s] }

/-- The variables in existence, the oldest first. -/
abbrev Store := List Value

namespace Store

def read? (s : Store) (p : Place) : Option Value := s[p.loc]?.bind (Value.get? p.path)

def write (s : Store) (p : Place) (v : Value) : Store := s.modify p.loc (Value.set v p.path)

end Store
end Triangle.Semantics
