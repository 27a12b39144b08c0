import Triangle.Code.Basic
import Triangle.Generate.Environment
import Triangle.Tree.Slots

/-! Emission of code. The generator counts how far the stack reaches above the base of the frame
(the offset), numbers its labels, and remembers the last known position for its errors. -/
namespace Triangle.Generate

/-- A tree that the checker accepts has none of these. -/
inductive Malformed where
  | noValue (name : String)
  | noRoutine (name : String)
  | notAFunction (name : String) (ty : Ty)
  | noStorage (name : String)
  | notARecordLiteral (ty : Ty)
  | missingField (field : String)
  | notARecord (text : String)
  | noField (record : Ty) (field : String)
  | notAVariable (text : String)
  | notARoutineArgument (name : String) (ty : Ty)

def Malformed.message : Malformed → String
  | noValue name => "value " ++ Scope.notFoundMessage name
  | noRoutine name => "routine " ++ Scope.notFoundMessage name
  | notAFunction name ty => s!"function {name} of type {ty.text}"
  | noStorage name => s!"{name} has no storage"
  | notARecordLiteral ty => s!"record literal of type {ty.text}"
  | missingField field => s!"record literal without field {field}"
  | notARecord text => s!"{text} is not a record"
  | noField record field => s!"{record.text} has no field {field}"
  | notAVariable text => s!"{text} is not a variable"
  | notARoutineArgument name ty => s!"{name} passed as {ty.text}"

/-- Why no code can be made: a limit of the machine, or a tree that is not well formed. -/
inductive Cause where
  | tooDeep (depth : Nat)
  | valueTooLarge (words : Int)
  | malformed (m : Malformed)

def Cause.message : Cause → String
  | tooDeep depth =>
    s!"static depth {depth}, at most {Reg.maxDisplay}: routines nested too deeply"
  | valueTooLarge words => s!"{words} words: value too large to move"
  | malformed m => m.message ++ ": malformed tree"

inductive Fault where
  | fatal (pos : Pos) (cause : Cause)
  | untyped (pos : Pos)

def Fault.message : Fault → String
  | fatal pos cause => s!"{pos.text}: {cause.message}"
  | untyped pos => s!"ast: node at {pos.text} read before type annotation"

structure State where
  labels : Nat := 0
  pos : Pos := .none
  offset : Int := 0

abbrev Gen := EStateM Fault State

abbrev Code := List Code.Item

def fail {α : Type} (cause : Cause) : Gen α := do
  throw (.fatal (← get).pos cause)

/-- Moves to a node; one without a position leaves the last one. -/
def moveTo (pos : Pos) : Gen Unit :=
  unless pos = .none do modify fun s => { s with pos }

def offset : Gen Int := return (← get).offset

def setOffset (n : Int) : Gen Unit := modify fun s => { s with offset := wrap64 n }

def adjust (delta : Int) : Gen Unit :=
  modify fun s => { s with offset := wrap64 (s.offset + delta) }

def newLabel (stem : String) : Gen String := do
  modify fun s => { s with labels := s.labels + 1 }
  return s!"{stem}.{(← get).labels}"

def isLabelStart (c : Char) : Bool := c == '_' || c.isAlpha

/-- Names the entry of a routine after the routine if that can be a label; an operator gets a
generic name. -/
def routineLabel (name : String) : Gen String :=
  match name.toList with
  | c :: rest =>
    if isLabelStart c && rest.all fun d => isLabelStart d || d.isDigit then newLabel name
    else newLabel "op"
  | [] => newLabel "op"

/-- The operations whose count is a number of words to move. -/
def movesWords : Op → Bool
  | .load | .loadI | .store | .storeI | .ret | .pop => true
  | _ => false

/-- What an instruction adds to the offset. A call is accounted for by its caller. -/
def growth (ins : Instruction) : Int :=
  match ins.op with
  | .load => ins.n
  | .loadA | .loadL => 1
  | .loadI => ins.n - 1
  | .store => -ins.n
  | .storeI => -ins.n - 1
  | .push => ins.d
  | .pop => -ins.d
  | .jumpIf | .jumpI => -1
  | .callI => -2
  | _ => 0

def emit (item : Code.Item) : Gen Code := do
  match item with
  | .label _ => return [item]
  | .op ins _ =>
    if movesWords ins.op && 255 < ins.n then fail (.valueTooLarge ins.n)
    adjust (growth ins)
    return [item]

/-- Calls a primitive that takes two words and returns one. -/
def emitBinary (p : Primitive) : Gen Code := do
  let code ← emit (.callPrim p)
  adjust (-1)
  return code

/-! ## Names -/

/-- The register of the frame that lies `depth` frames out. -/
def register (env : Env) (depth : Nat) : Gen Reg :=
  if env.locals.frames = depth + 1 then return .SB
  else
    match Reg.display? depth with
    | some r => return r
    | none => fail (.tooDeep depth)

def entity (env : Env) (name : String) : Gen (Entity × Nat) :=
  match env.locals.lookupWithDepth? name with
  | some found => return found
  | none => fail (.malformed (.noValue name))

/-- A routine and the register of the frame that it belongs to. -/
def callable (env : Env) (name : String) : Gen (Callable × Reg) :=
  match env.callables.lookupWithDepth? name with
  | none => fail (.malformed (.noRoutine name))
  | some (.primitive p, _) => return (.primitive p, .SB)
  | some (.conversion, _) => return (.conversion, .SB)
  | some (c, depth) => return (c, ← register env depth)

/-- The type of an annotated node. -/
def typeOf (i : Info) : Gen Ty :=
  match i.ty with
  | some t => return t
  | none => throw (.untyped i.pos)

/-- The words that the value of a node takes once it is loaded. -/
def sizeOf (i : Info) : Gen Int := return (← typeOf i).deref.size

/-! ## Locations -/

/-- Where a variable lives: at a place of a frame, or `disp` words after the address on top of the
stack. -/
inductive Location where
  | inFrame (r : Reg) (disp : Int)
  | onStack (disp : Int)
  deriving DecidableEq, Repr

def Location.shift (k : Int) : Location → Location
  | inFrame r disp => inFrame r (wrap64 (disp + k))
  | onStack disp => onStack (wrap64 (disp + k))

/-- Leaves the plain address of a location on the stack. -/
def address (loc : Location) : Gen Code := do
  match loc with
  | .inFrame r disp => emit (.loadA r disp)
  | .onStack disp =>
    if disp = 0 then return []
    let first ← emit (.loadL disp)
    return first ++ (← emitBinary .add)

def load (loc : Location) (n : Int) : Gen Code := do
  match loc with
  | .inFrame r disp => emit (.load n r disp)
  | .onStack _ =>
    let base ← address loc
    return base ++ (← emit (.loadI n))

def store (loc : Location) (n : Int) : Gen Code := do
  match loc with
  | .inFrame r disp => emit (.store n r disp)
  | .onStack _ =>
    let base ← address loc
    return base ++ (← emit (.storeI n))

end Triangle.Generate
