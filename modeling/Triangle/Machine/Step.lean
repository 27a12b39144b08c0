import Triangle.Machine.Basic

/-! Execution. An instruction that fails keeps what it has done so far: operands it popped stay
popped, and input it read stays read. The machine may be stepped again after a failure. -/
namespace Triangle
namespace Machine

/-- A part of an instruction: it changes the machine and may fail. -/
abbrev Exec := EStateM Cause Machine

/-- What the machine's registers and stores say, unchanged. -/
def asking {α : Type} (question : Machine → Except Cause α) : Exec α := do
  match question (← get) with
  | .ok a => return a
  | .error cause => throw cause

def push (ws : List Word) : Exec Unit := do
  let m ← get
  if (dataSize : Int) < m.st + ws.length then throw .stackOverflow
  else set { m with data := m.data.writeBlock m.st ws, st := m.st + ws.length }

def pop : Exec Word := do
  let m ← get
  if m.st ≤ 0 then throw .dataAccess
  else
    set { m with st := m.st - 1 }
    return m.data.read (m.st - 1)

/-- Removes the top `n` words and returns them, the deepest first. -/
def popN (n : Int) : Exec (List Word) := do
  let m ← get
  if m.st < n then throw .dataAccess
  else
    set { m with st := m.st - n }
    return m.data.readBlock (m.st - n) n.toNat

def popPair : Exec (Word × Word) := do
  let m ← get
  if m.st < 2 then throw .dataAccess
  else
    set { m with st := m.st - 2 }
    return (m.data.read (m.st - 2), m.data.read (m.st - 1))

/-- Replaces the words from `address` on. As for `block`, the end need not be wrapped. -/
def storeBlock (address : Int) (ws : List Word) : Exec Unit := do
  let m ← get
  if address < 0 ∨ m.st < address + ws.length then throw .dataAccess
  else set { m with data := m.data.writeBlock address ws }

def emit (bytes : List UInt8) : Exec Unit :=
  modify fun m => { m with output := m.output ++ bytes }

/-- Reads from the input; what the reader leaves is the input from then on. -/
def reading {α : Type} (reader : List UInt8 → Except InputFault α × List UInt8) : Exec α := do
  let m ← get
  let (result, rest) := reader m.input
  set { m with input := rest }
  match result with
  | .ok a => return a
  | .error fault => throw (.input fault)

def readByte : List UInt8 → Except InputFault UInt8 × List UInt8
  | [] => (.error .ended, [])
  | b :: rest => (.ok b, rest)

/-- Pushes the result of an operation on words, or fails where it has none. -/
def pushResult (cause : Cause) : Option Word → Exec Unit
  | some w => push [w]
  | none => throw cause

def arithmetic (op : Word → Word → Option Word) : Exec Unit := do
  let (a, b) ← popPair
  pushResult .overflow (op a b)

def division (part : Word × Word → Word) : Exec Unit := do
  let (a, b) ← popPair
  if b = 0 then throw .divisionByZero
  else pushResult .overflow ((Word.divide? a b).map part)

def comparison (test : Word → Word → Bool) : Exec Unit := do
  let (a, b) ← popPair
  push [.ofBool (test a b)]

def stepping (op : Word → Option Word) : Exec Unit := do
  pushResult .overflow (op (← pop))

/-- Compares two values of as many words as the top of the stack says. -/
def equality (expected : Bool) : Exec Unit := do
  let size ← pop
  if size.toInt < 0 then throw .dataAccess
  else
    let b ← popN size.toInt
    let a ← popN size.toInt
    push [.ofBool ((a == b) == expected)]

def primitive : Primitive → Exec Unit
  | .id => return
  | .not => do push [.ofBool ((← pop) == 0)]
  | .and => comparison fun a b => a != 0 && b != 0
  | .or => comparison fun a b => a != 0 || b != 0
  | .succ => stepping (Word.add? · 1)
  | .pred => stepping (Word.sub? · 1)
  | .neg => stepping (Word.sub? 0)
  | .add => arithmetic Word.add?
  | .sub => arithmetic Word.sub?
  | .mult => arithmetic Word.mul?
  | .div => division Prod.fst
  | .mod => division Prod.snd
  | .lt => comparison fun a b => a < b
  | .le => comparison fun a b => a ≤ b
  | .ge => comparison fun a b => b ≤ a
  | .gt => comparison fun a b => b < a
  | .eq => equality true
  | .ne => equality false
  | .eol => do push [.ofBool ((← get).input.head? == some Input.newline)]
  | .eof => do push [.ofBool (← get).input.isEmpty]
  | .get => do
    let address ← pop
    let b ← reading readByte
    storeBlock address.toInt [.truncate b.toNat]
  | .put => do emit [UInt8.ofInt (← pop).toInt]
  | .geteol => reading Input.skipLine
  | .puteol => emit [Input.newline]
  | .getint => do
    let address ← pop
    let n ← reading Input.readInt
    storeBlock address.toInt [.truncate n]
  | .putint => do emit (Input.ofChars (Text.decimal (← pop).toInt))

def goTo (address : Int) : Exec Unit := modify fun m => { m with cp := address }

def next : Exec Unit := modify fun m => { m with cp := m.cp + 1 }

/-- Enters the routine at `target` with static link `link`, or runs the primitive there. A
frame starts with the static link, the caller's local base and the return address. -/
def enter (target link : Int) : Exec Unit := do
  if primBase ≤ target ∧ target < primTop then
    match Primitive.ofDisplacement? (target - primBase) with
    | none => throw .invalidOp
    | some p =>
      primitive p
      next
  else
    let m ← get
    if target < 0 ∨ m.code.size ≤ target then throw .codeAccess
    else
      push [.truncate link, .truncate m.lb, .truncate (m.cp + 1)]
      modify fun after => { after with lb := m.st, cp := target }

/-- Leaves the current frame: `n` words of result replace the frame and the `d` words of
arguments below it. -/
def leave (n d : Int) : Exec Unit := do
  let result ← popN n
  let m ← get
  let frame ← asking (·.block m.lb 3)
  let st := wrap64 (m.lb - d)
  set { m with st }
  if st < 0 then throw .dataAccess
  else
    modify fun m => { m with lb := (frame.getD 1 0).toInt }
    push result
    goTo (frame.getD 2 0).toInt

/-- Reserves `d` words, cleared. -/
def reserve (d : Int) : Exec Unit := do
  let m ← get
  if d < 0 then throw .invalidOp
  else if (dataSize : Int) < m.st + d then throw .stackOverflow
  else set { m with data := m.data.writeBlock m.st (List.replicate d.toNat 0), st := m.st + d }

/-- Removes `d` words from under the top `n`. -/
def discard (n d : Int) : Exec Unit := do
  let result ← popN n
  let m ← get
  if d < 0 ∨ m.st < d then throw .dataAccess
  else
    set { m with st := m.st - d }
    push result

def exec (i : Instruction) : Exec Unit :=
  match i.op with
  | .load => do
    let address ← asking (·.address i)
    push (← asking (·.block address i.n))
    next
  | .loadA => do
    push [.truncate (← asking (·.address i))]
    next
  | .loadI => do
    let address ← pop
    push (← asking (·.block address.toInt i.n))
    next
  | .loadL => do
    push [.truncate i.d]
    next
  | .store => do
    let address ← asking (·.address i)
    storeBlock address (← popN i.n)
    next
  | .storeI => do
    let address ← pop
    storeBlock address.toInt (← popN i.n)
    next
  | .call => do
    let target ← asking (·.address i)
    let link ← asking (·.reg ⟨UInt8.ofInt i.n⟩)
    enter target link
  | .callI => do
    let target ← pop
    let link ← pop
    enter target.toInt link.toInt
  | .ret => leave i.n i.d
  | .push => do
    reserve i.d
    next
  | .pop => do
    discard i.n i.d
    next
  | .jump => do goTo (← asking (·.address i))
  | .jumpI => do goTo (← pop).toInt
  | .jumpIf => do
    if (← pop).toInt = i.n then goTo (← asking (·.address i)) else next
  | .halt => modify fun m => { m with halted := true }
  | .undefined _ => throw .invalidOp

/-- Executes one instruction. A halted machine stays as it is. -/
def step (m : Machine) : Machine × Option Trap :=
  if m.halted then (m, none)
  else if m.cp < 0 then (m, some ⟨m.cp, .codeAccess⟩)
  else
    match m.code[m.cp.toNat]? with
    | none => (m, some ⟨m.cp, .codeAccess⟩)
    | some i =>
      let address := m.cp
      match exec i m with
      | .ok () after => ({ after with steps := after.steps + 1 }, none)
      | .error cause after => (after, some ⟨address, cause⟩)

/-- Executes at most `count` instructions, stopping at the first failure. -/
def stepMany : (count : Nat) → Machine → Machine × Option Trap
  | 0, m => (m, none)
  | count + 1, m =>
    match m.step with
    | (after, none) => stepMany count after
    | (after, some trap) => (after, some trap)

/-- Executes until the machine halts or fails, with at most `budget` more instructions. -/
def runFor : (budget : Nat) → Machine → Machine × Option Trap
  | 0, m => if m.halted then (m, none) else (m, some ⟨m.cp, .stepLimit⟩)
  | budget + 1, m =>
    if m.halted then (m, none)
    else
      match m.step with
      | (after, none) => runFor budget after
      | (after, some trap) => (after, some trap)

/-- Runs a machine that may complete `limit` instructions in all. -/
def run (limit : Nat) (m : Machine) : Machine × Option Trap := runFor (limit - m.steps) m

/-- A fresh machine. -/
def start (code : List Instruction) (input : List UInt8) : Machine :=
  { code := code.toArray, input }

end Machine
end Triangle
