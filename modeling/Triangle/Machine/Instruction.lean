/-! Instructions of the abstract machine: an operation, a register, a count and a
displacement. Field values are not limited here; `validate` says which instructions fit the
fixed-width encodings. -/
namespace Triangle

/-- Codes 0 to 15, without 9, name the operations; the others name none. -/
inductive Op where
  | load | loadA | loadI | loadL | store | storeI | call | callI | ret | push | pop
  | jump | jumpI | jumpIf | halt
  | undefined (code : { c : UInt8 // c = 9 ∨ 15 < c })
  deriving DecidableEq, Repr

namespace Op

def code : Op → UInt8
  | load => 0
  | loadA => 1
  | loadI => 2
  | loadL => 3
  | store => 4
  | storeI => 5
  | call => 6
  | callI => 7
  | ret => 8
  | push => 10
  | pop => 11
  | jump => 12
  | jumpI => 13
  | jumpIf => 14
  | halt => 15
  | undefined c => c.val

def ofCode (c : UInt8) : Op :=
  if h : c = 9 ∨ 15 < c then undefined ⟨c, h⟩
  else
    match c.toNat with
    | 0 => load
    | 1 => loadA
    | 2 => loadI
    | 3 => loadL
    | 4 => store
    | 5 => storeI
    | 6 => call
    | 7 => callI
    | 8 => ret
    | 10 => push
    | 11 => pop
    | 12 => jump
    | 13 => jumpI
    | 14 => jumpIf
    | _ => halt

def name : Op → String
  | load => "LOAD"
  | loadA => "LOADA"
  | loadI => "LOADI"
  | loadL => "LOADL"
  | store => "STORE"
  | storeI => "STOREI"
  | call => "CALL"
  | callI => "CALLI"
  | ret => "RETURN"
  | push => "PUSH"
  | pop => "POP"
  | jump => "JUMP"
  | jumpI => "JUMPI"
  | jumpIf => "JUMPIF"
  | halt => "HALT"
  | undefined c => s!"OP{c.val.toNat}"

def named : List Op :=
  [load, loadA, loadI, loadL, store, storeI, call, callI, ret, push, pop, jump, jumpI, jumpIf,
    halt]

def ofName? (text : String) : Option Op := named.find? (·.name == text)

end Op

/-- A register by its number. Sixteen have names; a number beyond them is a frame further out
along the static links. -/
structure Reg where
  index : UInt8
  deriving DecidableEq, Repr

namespace Reg

def CB : Reg := ⟨0⟩
def CT : Reg := ⟨1⟩
def PB : Reg := ⟨2⟩
def PT : Reg := ⟨3⟩
def SB : Reg := ⟨4⟩
def ST : Reg := ⟨5⟩
def HB : Reg := ⟨6⟩
def HT : Reg := ⟨7⟩
def LB : Reg := ⟨8⟩
def CP : Reg := ⟨15⟩

def names : List String :=
  ["CB", "CT", "PB", "PT", "SB", "ST", "HB", "HT", "LB", "L1", "L2", "L3", "L4", "L5", "L6", "CP"]

def name (r : Reg) : String := names.getD r.index.toNat s!"R{r.index.toNat}"

def ofName? (text : String) : Option Reg := (names.idxOf? text).map fun i => ⟨UInt8.ofNat i⟩

/-- The farthest static level with a register of its own. -/
def maxDisplay : Int := 6

/-- The register that holds the base of the frame `depth` static levels out. -/
def display? (depth : Int) : Option Reg :=
  if 0 ≤ depth ∧ depth ≤ maxDisplay then some ⟨LB.index + UInt8.ofNat depth.toNat⟩ else none

end Reg

/-- The routines built into the machine. -/
inductive Primitive where
  | id | not | and | or | succ | pred | neg | add | sub | mult | div | mod
  | lt | le | ge | gt | eq | ne | eol | eof | get | put | geteol | puteol | getint | putint
  deriving DecidableEq, Repr

namespace Primitive

/-- The primitives by displacement, the first at 1. -/
def all : List Primitive :=
  [id, not, and, or, succ, pred, neg, add, sub, mult, div, mod, lt, le, ge, gt, eq, ne, eol, eof,
    get, put, geteol, puteol, getint, putint]

def displacement : Primitive → Int
  | id => 1
  | not => 2
  | and => 3
  | or => 4
  | succ => 5
  | pred => 6
  | neg => 7
  | add => 8
  | sub => 9
  | mult => 10
  | div => 11
  | mod => 12
  | lt => 13
  | le => 14
  | ge => 15
  | gt => 16
  | eq => 17
  | ne => 18
  | eol => 19
  | eof => 20
  | get => 21
  | put => 22
  | geteol => 23
  | puteol => 24
  | getint => 25
  | putint => 26

def name : Primitive → String
  | id => "id"
  | not => "not"
  | and => "and"
  | or => "or"
  | succ => "succ"
  | pred => "pred"
  | neg => "neg"
  | add => "add"
  | sub => "sub"
  | mult => "mult"
  | div => "div"
  | mod => "mod"
  | lt => "lt"
  | le => "le"
  | ge => "ge"
  | gt => "gt"
  | eq => "eq"
  | ne => "ne"
  | eol => "eol"
  | eof => "eof"
  | get => "get"
  | put => "put"
  | geteol => "geteol"
  | puteol => "puteol"
  | getint => "getint"
  | putint => "putint"

def ofDisplacement? (d : Int) : Option Primitive := all.find? (·.displacement == d)

def ofName? (text : String) : Option Primitive := all.find? (·.name == text)

end Primitive

/-- Words of code and of data that the machine holds. -/
def codeSize : Nat := 1024
def dataSize : Nat := 1024

/-- Primitives are called at addresses just past the code store. -/
def primBase : Int := codeSize
def primTop : Int := primBase + 27

structure Instruction where
  op : Op
  r : Reg
  n : Int
  d : Int
  deriving DecidableEq, Repr

namespace Instruction

def maxCount : Int := 255
def minDisplacement : Int := -32768
def maxDisplacement : Int := 32767

/-- Why an instruction fits no encoding. -/
inductive Fault where
  | opcode (code : UInt8)
  | register (op : Op) (r : Reg)
  | count (op : Op) (n : Int)
  | displacement (op : Op) (d : Int)
  deriving DecidableEq, Repr

def Fault.message : Fault → String
  | opcode code => s!"invalid opcode {code.toNat}"
  | register op r => s!"{op.name}: register {r.index.toNat} out of range"
  | count op n => s!"{op.name}: count {n} out of range"
  | displacement op d => s!"{op.name}: displacement {d} out of range"

def validate (i : Instruction) : Except Fault Unit :=
  match i.op with
  | .undefined c => .error (.opcode c)
  | op =>
    if Reg.CP.index < i.r.index then .error (.register op i.r)
    else if i.n < 0 ∨ maxCount < i.n then .error (.count op i.n)
    else if i.d < minDisplacement ∨ maxDisplacement < i.d then .error (.displacement op i.d)
    else .ok ()

/-- Packs an instruction into one word: four bits of operation, four of register, eight of
count and sixteen of displacement. Higher bits of a field are lost. -/
def encode (i : Instruction) : UInt32 :=
  UInt32.ofNat (i.op.code.toNat % 16 * 0x10000000 + i.r.index.toNat % 16 * 0x1000000 +
    (i.n % 256).toNat * 0x10000 + (i.d % 65536).toNat)

def decode (w : UInt32) : Instruction where
  op := .ofCode (UInt8.ofNat (w.toNat / 0x10000000))
  r := ⟨UInt8.ofNat (w.toNat / 0x1000000 % 16)⟩
  n := w.toNat / 0x10000 % 256
  d := (w.toNat % 65536 : Int).bmod 65536

/-- The primitive that the instruction calls, if it calls one. -/
def primitive? (i : Instruction) : Option Primitive :=
  if i.r = .PB then Primitive.ofDisplacement? i.d else none

def text (i : Instruction) : String :=
  match i.op with
  | .load | .store => s!"{i.op.name}({i.n}) {i.d}[{i.r.name}]"
  | .loadA | .jump => s!"{i.op.name} {i.d}[{i.r.name}]"
  | .loadI | .storeI => s!"{i.op.name}({i.n})"
  | .loadL | .push => s!"{i.op.name} {i.d}"
  | .call =>
    match i.primitive? with
    | some p => s!"CALL {p.name}"
    | none => s!"CALL({(Reg.mk (UInt8.ofInt i.n)).name}) {i.d}[{i.r.name}]"
  | .ret | .pop => s!"{i.op.name}({i.n}) {i.d}"
  | .jumpIf => s!"JUMPIF({i.n}) {i.d}[{i.r.name}]"
  | op => op.name

end Instruction
end Triangle
