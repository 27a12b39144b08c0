import Triangle.Word
import Triangle.Machine.Input
import Triangle.Machine.Instruction

/-! The machine: its stores, its registers, and the ways in which an instruction can fail. The
stack grows upwards from address 0 and there is no heap. -/
namespace Triangle

/-- Why an instruction cannot be completed. -/
inductive Cause where
  | stackOverflow
  | dataAccess
  | codeAccess
  | overflow
  | divisionByZero
  | invalidOp
  | input (fault : InputFault)
  | stepLimit
  deriving DecidableEq, Repr

def Cause.message : Cause → String
  | stackOverflow => "stack overflow"
  | dataAccess => "data access violation"
  | codeAccess => "code access violation"
  | overflow => "arithmetic overflow"
  | divisionByZero => "division by zero"
  | invalidOp => "invalid instruction"
  | input fault => s!"input error: {fault.message}"
  | stepLimit => "step limit exceeded"

/-- A failure, with the code address of the instruction that caused it. -/
structure Trap where
  address : Int
  cause : Cause
  deriving DecidableEq, Repr

def Trap.message (t : Trap) : String := s!"trap at {t.address}: {t.cause.message}"

/-- The data store. Words outside of it read as zero and cannot be written; the machine's
own checks keep accesses inside. -/
abbrev Store := Vector Word dataSize

namespace Store

def empty : Store := Vector.replicate dataSize 0

def read (s : Store) (address : Int) : Word :=
  if 0 ≤ address then s[address.toNat]?.getD 0 else 0

def readBlock (s : Store) (address : Int) (count : Nat) : List Word :=
  (List.range count).map fun (k : Nat) => s.read (address + k)

def write (s : Store) (address : Int) (w : Word) : Store :=
  if 0 ≤ address then s.setIfInBounds address.toNat w else s

def writeBlock (s : Store) (address : Int) : List Word → Store
  | [] => s
  | w :: ws => (s.write address w).writeBlock (address + 1) ws

end Store

structure Machine where
  code : Array Instruction
  data : Store := Store.empty
  cp : Int := 0
  st : Int := 0
  lb : Int := 0
  halted : Bool := false
  /-- Instructions completed so far. -/
  steps : Nat := 0
  /-- Bytes not yet read. -/
  input : List UInt8 := []
  output : Array UInt8 := #[]

namespace Machine

def load (m : Machine) (address : Int) : Except Cause Word :=
  if address < 0 ∨ m.st ≤ address then .error .dataAccess else .ok (m.data.read address)

/-- Follows `links` static links out from the frame at `address`. -/
def follow (m : Machine) : (links : Nat) → (address : Int) → Except Cause Int
  | 0, address => .ok address
  | links + 1, address => do m.follow links (← m.load address).toInt

/-- The value of a register. Those that hold no value of their own name the frame as many
static links out as they lie beyond the local base. -/
def reg (m : Machine) (r : Reg) : Except Cause Int :=
  if r = .CB ∨ r = .SB then .ok 0
  else if r = .CT then .ok m.code.size
  else if r = .PB then .ok primBase
  else if r = .PT then .ok primTop
  else if r = .ST then .ok m.st
  else if r = .HB ∨ r = .HT then .ok dataSize
  else if r = .LB then .ok m.lb
  else if r = .CP then .ok m.cp
  else m.follow (r.index.toNat - Reg.LB.index.toNat) m.lb

/-- The address that an instruction names by register and displacement. -/
def address (m : Machine) (i : Instruction) : Except Cause Int := do
  return wrap64 ((← m.reg i.r) + i.d)

/-- The `n` words from `address` on. The end of the block is not wrapped to 64 bits: an address from
which a count reaches beyond that range is far outside the data store, and no access there succeeds,
wrapped or not. -/
def block (m : Machine) (address n : Int) : Except Cause (List Word) :=
  if address < 0 ∨ m.st < address + n then .error .dataAccess
  else .ok (m.data.readBlock address n.toNat)

end Machine
end Triangle
