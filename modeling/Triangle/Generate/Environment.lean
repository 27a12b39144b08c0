import Triangle.Check.Environment
import Triangle.Machine.Instruction

/-! What names stand for in the code. Values and routines are in two tables, which open a frame
for each routine body and a block for each let, so that the depth of a name selects the register
of its frame. -/
namespace Triangle.Generate

/-- A known value is written into each use and has no storage. A variable parameter is reached
through the address in its slot. -/
inductive Entity where
  | known (value : Int)
  | stored (offset : Int)
  | indirect (offset : Int)
  deriving DecidableEq, Repr

/-- A routine parameter is a closure in its frame: static link, then code address. A conversion
only changes the type of a word and needs no code. -/
inductive Callable where
  | routine (label : String)
  | closure (offset : Int)
  | primitive (p : Primitive)
  | conversion
  deriving DecidableEq, Repr

structure Env where
  locals : Scope.Table Entity
  callables : Scope.Table Callable

namespace Env

def enterBlock (env : Env) : Env :=
  { locals := env.locals.enterBlock, callables := env.callables.enterBlock }

def enterFrame (env : Env) : Env :=
  { locals := env.locals.enterScope 0, callables := env.callables.enterScope 0 }

def addConst (env : Env) (name : String) (e : Entity) : Env :=
  { env with locals := env.locals.addConst name e }

def addVar (env : Env) (name : String) (e : Entity) : Env :=
  { env with locals := env.locals.add name e }

def addCallable (env : Env) (name : String) (c : Callable) : Env :=
  { env with callables := env.callables.addConst name c }

end Env

def knownValues : List (String × Int) := [("false", 0), ("true", 1), ("maxint", 32767)]

/-- The routines that the machine provides. -/
def primitives : List (String × Primitive) :=
  [(Check.unaryKey "\\", .not),
    (Check.unaryKey "-", .neg),
    ("/\\", .and),
    ("\\/", .or),
    ("+", .add),
    ("-", .sub),
    ("*", .mult),
    ("/", .div),
    ("//", .mod),
    ("<", .lt),
    ("<=", .le),
    (">", .gt),
    (">=", .ge),
    ("=", .eq),
    ("\\=", .ne),
    ("eol", .eol),
    ("eof", .eof),
    ("get", .get),
    ("put", .put),
    ("getint", .getint),
    ("putint", .putint),
    ("geteol", .geteol),
    ("puteol", .puteol)]

def conversions : List String := ["chr", "ord"]

def Env.standard : Env where
  locals := knownValues.foldl (fun t (name, v) => t.addConst name (.known v)) (.new 0)
  callables :=
    let withPrimitives :=
      primitives.foldl (fun t (name, p) => t.addConst name (Callable.primitive p)) (.new 0)
    conversions.foldl (fun t name => t.addConst name .conversion) withPrimitives

end Triangle.Generate
