import Triangle.Check.Environment
import Triangle.Machine.Step
import Triangle.Proofs.Semantics.Value

/-! What names mean when a program runs, and what the standard routines do. -/
namespace Triangle.Semantics

/-- The standard operators and routines. -/
inductive Standard where
  | not | neg | and | or | add | sub | mult | div | mod | lt | le | gt | ge | eq | ne
  | chr | ord | eol | eof | get | put | getint | putint | geteol | puteol
  deriving DecidableEq

/-- The standard routines by the keys under which they are known. -/
def Standard.named : List (String × Standard) :=
  [(Check.unaryKey "\\", not), (Check.unaryKey "-", neg), ("/\\", and), ("\\/", or), ("+", add),
    ("-", sub), ("*", mult), ("/", div), ("//", mod), ("<", lt), ("<=", le), (">", gt),
    (">=", ge), ("=", eq), ("\\=", ne), ("chr", chr), ("ord", ord), ("eol", eol), ("eof", eof),
    ("get", get), ("put", put), ("getint", getint), ("putint", putint), ("geteol", geteol),
    ("puteol", puteol)]

/-- An operator in front of an operand. -/
def Standard.prefixed? (op : String) : Option Standard :=
  match named.lookup (Check.unaryKey op) with
  | some s => some s
  | none => named.lookup op

/-- The body of a function or of a procedure. -/
inductive Body where
  | value (e : Expr)
  | command (s : Stmt)

/-- What a name stands for: a constant, a variable, or a routine with the meaning that names have
where it is declared. -/
inductive Meaning where
  | value (v : Value)
  | place (p : Place)
  | standard (s : Standard)
  | routine (name : String) (params : List Param) (body : Body) (env : List (String × Meaning))

/-- The nearest meaning of a name comes first. -/
abbrev Env := List (String × Meaning)

def Env.standard : Env :=
  Standard.named.map (fun (key, s) => (key, .standard s)) ++
    [("true", .value (.bool true)), ("false", .value (.bool false)),
      ("maxint", .value (.int 32767))]

/-- Why a program goes no further. -/
inductive Stop where
  | trap (cause : Cause)
  /-- A subscript has left its array. -/
  | outOfRange
  /-- The bound on calls and rounds of a loop is reached. -/
  | unfinished
  /-- The program has no meaning here. -/
  | wrong
  deriving DecidableEq

structure State where
  store : Store := []
  input : List UInt8 := []
  output : List UInt8 := []

/-- A part of a program: it changes the state and may stop. -/
abbrev Run := EStateM Stop State

def read (p : Place) : Run Value := do
  match (← get).store.read? p with
  | some v => return v
  | none => throw .wrong

def write (p : Place) (v : Value) : Run Unit :=
  modify fun s => { s with store := s.store.write p v }

/-- A new variable. -/
def allocate (v : Value) : Run Place := do
  let s ← get
  set { s with store := s.store ++ [v] }
  return { loc := s.store.length }

/-- What is declared inside exists until the end. -/
def inScope {α : Type} (x : Run α) : Run α := do
  let count := (← get).store.length
  let a ← x
  modify fun s => { s with store := s.store.take count }
  return a

def emit (bytes : List UInt8) : Run Unit :=
  modify fun s => { s with output := s.output ++ bytes }

def reading {α : Type} (reader : List UInt8 → Except InputFault α × List UInt8) : Run α := do
  let s ← get
  let (result, rest) := reader s.input
  set { s with input := rest }
  match result with
  | .ok a => return a
  | .error fault => throw (.trap (.input fault))

def truth : Value → Run Bool
  | .bool b => return b
  | _ => throw .wrong

/-- The result of a function; a procedure has none. -/
def valued : Option Value → Run Value
  | some v => return v
  | none => throw .wrong

namespace Standard

/-- Arithmetic is exact or fails. -/
def checked : Option Word → Run (Option Value)
  | some w => return some (.int w)
  | none => throw (.trap .overflow)

def division (part : Word × Word → Word) (a b : Word) : Run (Option Value) :=
  if b = 0 then throw (.trap .divisionByZero) else checked ((Word.divide? a b).map part)

def truthValue (b : Bool) : Run (Option Value) := return some (.bool b)

/-! Arguments of the kinds that standard routines take. -/

def nothing? : List Meaning → Option Unit
  | [] => some ()
  | _ => none

def boolean? : List Meaning → Option Bool
  | [.value (.bool a)] => some a
  | _ => none

def booleans? : List Meaning → Option (Bool × Bool)
  | [.value (.bool a), .value (.bool b)] => some (a, b)
  | _ => none

def integer? : List Meaning → Option Word
  | [.value (.int a)] => some a
  | _ => none

def integers? : List Meaning → Option (Word × Word)
  | [.value (.int a), .value (.int b)] => some (a, b)
  | _ => none

def character? : List Meaning → Option Int
  | [.value (.char c)] => some c
  | _ => none

def values? : List Meaning → Option (Value × Value)
  | [.value v, .value w] => some (v, w)
  | _ => none

def place? : List Meaning → Option Place
  | [.place p] => some p
  | _ => none

/-- With arguments of another kind a routine has no meaning. -/
def taking {α : Type} (kind? : List Meaning → Option α) (f : α → Run (Option Value))
    (actuals : List Meaning) : Run (Option Value) :=
  match kind? actuals with
  | some a => f a
  | none => throw .wrong

def apply : Standard → List Meaning → Run (Option Value)
  | .not => taking boolean? fun a => truthValue !a
  | .neg => taking integer? fun a => checked (Word.sub? 0 a)
  | .and => taking booleans? fun (a, b) => truthValue (a && b)
  | .or => taking booleans? fun (a, b) => truthValue (a || b)
  | .add => taking integers? fun (a, b) => checked (Word.add? a b)
  | .sub => taking integers? fun (a, b) => checked (Word.sub? a b)
  | .mult => taking integers? fun (a, b) => checked (Word.mul? a b)
  | .div => taking integers? fun (a, b) => division Prod.fst a b
  | .mod => taking integers? fun (a, b) => division Prod.snd a b
  | .lt => taking integers? fun (a, b) => truthValue (a < b)
  | .le => taking integers? fun (a, b) => truthValue (a ≤ b)
  | .gt => taking integers? fun (a, b) => truthValue (b < a)
  | .ge => taking integers? fun (a, b) => truthValue (b ≤ a)
  | .eq => taking values? fun (v, w) => truthValue (v.same w)
  | .ne => taking values? fun (v, w) => truthValue !(v.same w)
  | .chr => taking integer? fun a => return some (.char a.toInt)
  | .ord => taking character? fun c => checked (Word.ofInt? c)
  | .eol => taking nothing? fun () => do
    truthValue ((← getThe State).input.head? == some Input.newline)
  | .eof => taking nothing? fun () => do truthValue (← getThe State).input.isEmpty
  | .get => taking place? fun p => do
    let b ← reading Machine.readByte
    write p (.char b.toNat)
    return none
  | .put => taking character? fun c => do
    emit [UInt8.ofInt c]
    return none
  | .getint => taking place? fun p => do
    let n ← reading Input.readInt
    write p (.int (.truncate n))
    return none
  | .putint => taking integer? fun a => do
    emit (Input.ofChars (Text.decimal a.toInt))
    return none
  | .geteol => taking nothing? fun () => do
    reading Input.skipLine
    return none
  | .puteol => taking nothing? fun () => do
    emit [Input.newline]
    return none

end Standard
end Triangle.Semantics
