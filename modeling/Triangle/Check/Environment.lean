import Triangle.Scope
import Triangle.Tree.Slots

/-! What names mean. Terms and types are in two tables of their own; the outermost frame of
each holds the standard environment. -/
namespace Triangle.Check

/-- What a name stands for as a term. An equality takes two operands of any one type and has no
type of its own. -/
inductive Meaning where
  | typed (ty : Ty) (decl : Binding)
  | equality (decl : Binding)

namespace Meaning

def decl : Meaning → Binding
  | typed _ decl => decl
  | equality decl => decl

/-- The parameter types and the result of a routine. -/
def signature? : Meaning → Option (List Ty × Ty)
  | typed (.func params result) _ => some (params, result)
  | _ => none

end Meaning

structure Env where
  terms : Scope.Table Meaning
  types : Scope.Table Ty

namespace Env

def enterBlock (env : Env) : Env :=
  { terms := env.terms.enterBlock, types := env.types.enterBlock }

/-- Opens the scope of a routine's body. -/
def enterRoutine (env : Env) : Env := { env with terms := env.terms.enterScope 0 }

def addConst (env : Env) (name : String) (m : Meaning) : Env :=
  { env with terms := env.terms.addConst name m }

def addVar (env : Env) (name : String) (m : Meaning) : Env :=
  { env with terms := env.terms.add name m }

def addType (env : Env) (name : String) (t : Ty) : Env :=
  { env with types := env.types.addConst name t }

end Env

/-- A prefix operator has a key of its own, since minus is also an infix operator. -/
def unaryKey (op : String) : String := "unary " ++ op

def standardTypes : List (String × Ty) :=
  [("Integer", .integer), ("Char", .char), ("Boolean", .boolean)]

def standardConstants : List (String × Ty) :=
  [("true", .boolean), ("false", .boolean), ("maxint", .integer)]

/-- The standard routines: key, name, parameters, result. -/
def standardRoutines : List (String × String × List Ty × Ty) :=
  [(unaryKey "\\", "\\", [.boolean], .boolean),
    (unaryKey "-", "-", [.integer], .integer),
    ("/\\", "/\\", [.boolean, .boolean], .boolean),
    ("\\/", "\\/", [.boolean, .boolean], .boolean),
    ("+", "+", [.integer, .integer], .integer),
    ("-", "-", [.integer, .integer], .integer),
    ("*", "*", [.integer, .integer], .integer),
    ("/", "/", [.integer, .integer], .integer),
    ("//", "//", [.integer, .integer], .integer),
    ("<", "<", [.integer, .integer], .boolean),
    ("<=", "<=", [.integer, .integer], .boolean),
    (">", ">", [.integer, .integer], .boolean),
    (">=", ">=", [.integer, .integer], .boolean),
    ("chr", "chr", [.integer], .char),
    ("ord", "ord", [.char], .integer),
    ("eol", "eol", [], .boolean),
    ("eof", "eof", [], .boolean),
    ("get", "get", [.ref .char], .void),
    ("put", "put", [.char], .void),
    ("getint", "getint", [.ref .integer], .void),
    ("putint", "putint", [.integer], .void),
    ("geteol", "geteol", [], .void),
    ("puteol", "puteol", [], .void)]

def equalities : List String := ["=", "\\="]

def standardTerms : List (String × Meaning) :=
  let constants := standardConstants.map fun (name, t) =>
    (name, Meaning.typed t (.standard .const name))
  let routines := standardRoutines.map fun (key, name, params, result) =>
    let kind := match result with
      | .void => DeclKind.proc
      | _ => DeclKind.func
    (key, Meaning.typed (.func params result) (.standard kind name))
  let poly := equalities.map fun op => (op, Meaning.equality (.standard .func op))
  constants ++ routines ++ poly

def Env.standard : Env where
  terms := standardTerms.foldl (fun t (name, m) => t.addConst name m) (.new 0)
  types := standardTypes.foldl (fun t (name, ty) => t.addConst name ty) (.new 0)

/-- The type of a standard constant or routine. -/
def standardType? (name : String) : Option Ty :=
  match standardTerms.lookup name with
  | some (.typed t _) => some t
  | _ => none

/-- What an operator in front of an operand means. A routine of one parameter that the program
declares under the operator's own name hides the standard one. -/
def Env.unary? (env : Env) (op : String) : Option Meaning :=
  let own := match env.terms.lookup? op with
    | some (.typed (.func [p] result) decl) =>
      if decl.isStandard then none else some (Meaning.typed (.func [p] result) decl)
    | _ => none
  match own with
  | some m => some m
  | none =>
    match env.terms.lookup? (unaryKey op) with
    | some m => some m
    | none => env.terms.lookup? op

/-- Parameters as they stand in the scope of the body: only a variable parameter can be
assigned to. -/
def Env.bindParams (env : Env) : List Param → List Ty → Env
  | p :: ps, t :: ts =>
    let m := Meaning.typed t p.binding
    let next := match p with
      | .var _ _ _ => env.addVar p.name m
      | _ => env.addConst p.name m
    next.bindParams ps ts
  | _, _ => env

end Triangle.Check
