import Triangle.Word

/-! Types of the language and the words that their values occupy. A record type keeps its
fields in the order of their names: that order decides both equality and layout. -/
namespace Triangle

/-- A parameter's kind shows in the type of the routine: `ref` for a variable parameter, `func`
for a routine parameter, any other type for a value. A procedure has result `void`. -/
inductive Ty where
  | void
  | boolean
  | integer
  | char
  | func (params : List Ty) (result : Ty)
  | array (length : Int) (elem : Ty)
  | record (fields : List (String × Ty))
  | ref (inner : Ty)
  deriving Repr, Inhabited

namespace Ty

mutual
/-- Words that a value occupies. A reference is an address, a routine a static link and a code
address. -/
def size : Ty → Int
  | void => 0
  | boolean | integer | char | ref _ => 1
  | func _ _ => 2
  | array length elem => wrap64 (length * elem.size)
  | record fields => fieldsSize 0 fields

def fieldsSize (total : Int) : List (String × Ty) → Int
  | [] => total
  | (_, t) :: rest => fieldsSize (wrap64 (total + t.size)) rest
end

/-- The type of the first field called `name` and its offset in words. -/
def field? (name : String) (offset : Int) : List (String × Ty) → Option (Ty × Int)
  | [] => none
  | (n, t) :: rest =>
    if n = name then some (t, offset) else field? name (wrap64 (offset + t.size)) rest

/-- The record type with these fields. -/
def ofFields (fields : List (String × Ty)) : Ty :=
  record (fields.mergeSort fun f g => !decide (g.1 < f.1))

def isRef : Ty → Bool
  | ref _ => true
  | _ => false

/-- A reference to a value of type `t`; a reference is not wrapped again. -/
def refOf : Ty → Ty
  | ref inner => ref inner
  | t => ref t

def deref : Ty → Ty
  | ref inner => inner
  | t => t

def isFunc (t : Ty) : Bool :=
  match t.deref with
  | func _ _ => true
  | _ => false

mutual
/-- Sameness in every part, references included. -/
def identical : Ty → Ty → Bool
  | void, void | boolean, boolean | integer, integer | char, char => true
  | func ps r, func qs s => identicalAll ps qs && r.identical s
  | array n t, array m u => n == m && t.identical u
  | record fs, record gs => identicalFields fs gs
  | ref t, ref u => t.identical u
  | _, _ => false

def identicalAll : List Ty → List Ty → Bool
  | [], [] => true
  | t :: ts, u :: us => t.identical u && identicalAll ts us
  | _, _ => false

def identicalFields : List (String × Ty) → List (String × Ty) → Bool
  | [], [] => true
  | (n, t) :: fs, (m, u) :: gs => n == m && t.identical u && identicalFields fs gs
  | _, _ => false
end

/-- Sameness of values: a reference stands for the value it refers to. -/
def equal (t u : Ty) : Bool := t.deref.identical u.deref

mutual
def text : Ty → String
  | void => "Void"
  | boolean => "Boolean"
  | integer => "Integer"
  | char => "Char"
  | func params void => "proc(" ++ ", ".intercalate (texts params) ++ ")"
  | func params result => "func(" ++ ", ".intercalate (texts params) ++ ") : " ++ result.text
  | array length elem => s!"array {length} of {elem.text}"
  | record fields => "record " ++ ", ".intercalate (fieldTexts fields) ++ " end"
  | ref inner => s!"var {inner.text}"

def texts : List Ty → List String
  | [] => []
  | t :: ts => t.text :: texts ts

def fieldTexts : List (String × Ty) → List String
  | [] => []
  | (name, t) :: rest => s!"{name} : {t.text}" :: fieldTexts rest
end

end Ty
end Triangle
