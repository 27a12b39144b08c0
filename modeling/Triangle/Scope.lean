import Triangle.Text.Quoted

/-! Nested scopes. A scope is a *frame*, which starts a new static level, or a *block* inside
the current level. Depths count frames only, so that a depth tells how many static links lead
to the frame of a name. Each scope also carries a counter of its own. -/
namespace Triangle.Scope

structure Entry (V : Type) where
  value : V
  constant : Bool
  deriving Repr

inductive Kind where
  | frame
  | block
  deriving DecidableEq, Repr

structure Level (V : Type) where
  kind : Kind
  state : Int
  names : List (String × Entry V) := []
  deriving Repr

def Level.get? {V : Type} (l : Level V) (name : String) : Option (Entry V) := l.names.lookup name

/-- Binds `name`, in place of a binding already there. -/
def Level.insert {V : Type} (l : Level V) (name : String) (e : Entry V) : Level V :=
  { l with names := (name, e) :: l.names.filter (·.1 != name) }

/-- A stack of scopes that is never empty: the innermost scope and those around it. -/
structure Table (V : Type) where
  top : Level V
  outer : List (Level V) := []
  deriving Repr

namespace Table
variable {V : Type}

/-- One outermost frame. -/
def new (state : Int) : Table V := { top := { kind := .frame, state } }

def levels (t : Table V) : List (Level V) := t.top :: t.outer

def enterScope (t : Table V) (state : Int) : Table V :=
  { top := { kind := .frame, state }, outer := t.levels }

/-- Opens a block, whose counter starts from that of the scope around it. -/
def enterBlock (t : Table V) : Table V :=
  { top := { kind := .block, state := t.top.state }, outer := t.levels }

/-- Closes the innermost scope; the outermost is never closed. -/
def exit (t : Table V) : Table V :=
  match t.outer with
  | [] => t
  | next :: rest => { top := next, outer := rest }

def insert (t : Table V) (name : String) (e : Entry V) : Table V :=
  { t with top := t.top.insert name e }

def add (t : Table V) (name : String) (value : V) : Table V := t.insert name ⟨value, false⟩

def addConst (t : Table V) (name : String) (value : V) : Table V := t.insert name ⟨value, true⟩

/-- The nearest binding of `name` in `levels`, innermost first, and the frames passed on the
way to it. -/
def findIn (name : String) (depth : Nat) : List (Level V) → Option (Entry V × Nat)
  | [] => none
  | l :: rest =>
    match l.get? name with
    | some e => some (e, depth)
    | none => findIn name (if l.kind = .frame then depth + 1 else depth) rest

def find? (t : Table V) (name : String) : Option (Entry V × Nat) := findIn name 0 t.levels

def lookup? (t : Table V) (name : String) : Option V := (t.find? name).map (·.1.value)

/-- The value of `name` and how many frames out it is bound. -/
def lookupWithDepth? (t : Table V) (name : String) : Option (V × Nat) :=
  (t.find? name).map fun (e, depth) => (e.value, depth)

def isConst (t : Table V) (name : String) : Bool :=
  match t.find? name with
  | some (e, _) => e.constant
  | none => false

def declaredHere (t : Table V) (name : String) : Bool := (t.top.get? name).isSome

/-- The number of open frames. -/
def frames (t : Table V) : Nat := t.levels.countP (·.kind = .frame)

def state (t : Table V) : Int := t.top.state

def setState (t : Table V) (state : Int) : Table V := { t with top := { t.top with state } }

def padded (width : Nat) (name : String) : String :=
  name ++ String.ofList (List.replicate (width - name.length) ' ')

def levelText (valueText : V → String) (index : Nat) (l : Level V) : String :=
  let kind := match l.kind with
    | .frame => "frame"
    | .block => "block"
  let sorted := l.names.mergeSort fun a b => !decide (b.1 < a.1)
  let line := fun (entry : String × Entry V) =>
    let flag := if entry.2.constant then " (const)" else ""
    s!"  {padded 20 entry.1} {valueText entry.2.value}{flag}\n"
  s!"Scope {index} ({kind}, state {l.state}):\n" ++ String.join (sorted.map line)

/-- All scopes, the innermost last, with their names in order. -/
def text (valueText : V → String) (t : Table V) : String :=
  String.join (t.levels.reverse.mapIdx (levelText valueText))

end Table

/-- The message for a name bound in no visible scope. -/
def notFoundMessage (name : String) : String := s!"{Text.quote name}: not found"

end Triangle.Scope
