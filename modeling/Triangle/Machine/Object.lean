import Triangle.Machine.Instruction

/-! Object files: four 32-bit integers for each instruction, the most significant byte first. -/
namespace Triangle.Object

/-- The low 32 bits of `n`. -/
def int32Bytes (n : Int) : List UInt8 :=
  let bits := (n % 0x100000000).toNat
  [UInt8.ofNat (bits / 0x1000000), UInt8.ofNat (bits / 0x10000), UInt8.ofNat (bits / 0x100),
    UInt8.ofNat bits]

def int32OfBytes (a b c d : UInt8) : Int :=
  (a.toNat * 0x1000000 + b.toNat * 0x10000 + c.toNat * 0x100 + d.toNat : Int).bmod 0x100000000

def instructionBytes (i : Instruction) : List UInt8 :=
  int32Bytes i.op.code.toNat ++ int32Bytes i.r.index.toNat ++ int32Bytes i.n ++ int32Bytes i.d

def write (code : List Instruction) : List UInt8 := code.flatMap instructionBytes

inductive Fault where
  | cutOff
  | badOpcodeOrRegister
  | invalid (fault : Instruction.Fault)
  deriving DecidableEq, Repr

/-- What is wrong with an object file, and at which instruction. -/
structure ReadFault where
  index : Nat
  fault : Fault
  deriving DecidableEq, Repr

def Fault.message : Fault → String
  | cutOff => "unexpected EOF"
  | badOpcodeOrRegister => "bad opcode or register"
  | invalid fault => fault.message

def ReadFault.message (f : ReadFault) : String := s!"instruction {f.index}: {f.fault.message}"

/-- The integers in `bytes`, and the bytes left over at the end. -/
def ints : List UInt8 → List Int × List UInt8
  | a :: b :: c :: d :: rest =>
    let (more, left) := ints rest
    (int32OfBytes a b c d :: more, left)
  | left => ([], left)

def instruction (op r n d : Int) : Except Fault Instruction :=
  if op < 0 ∨ 15 < op ∨ r < 0 ∨ 15 < r then .error .badOpcodeOrRegister
  else
    let i : Instruction := ⟨.ofCode (UInt8.ofNat op.toNat), ⟨UInt8.ofNat r.toNat⟩, n, d⟩
    match i.validate with
    | .ok () => .ok i
    | .error fault => .error (.invalid fault)

/-- Instructions from `index` on, four integers each; `whole` says that no bytes are left over
after the integers. -/
def instructions (whole : Bool) (index : Nat) : List Int → Except ReadFault (List Instruction)
  | op :: r :: n :: d :: rest =>
    match instruction op r n d with
    | .error fault => .error ⟨index, fault⟩
    | .ok i =>
      match instructions whole (index + 1) rest with
      | .error fault => .error fault
      | .ok more => .ok (i :: more)
  | [] => if whole then .ok [] else .error ⟨index, .cutOff⟩
  | _ => .error ⟨index, .cutOff⟩

def read (bytes : List UInt8) : Except ReadFault (List Instruction) :=
  let (fields, left) := ints bytes
  instructions left.isEmpty 0 fields

end Triangle.Object
