import Triangle.Code.Basic
import Triangle.Text.Quoted

/-! Code addresses of labels, and resolution of symbolic code into machine instructions. -/
namespace Triangle.Code

inductive ResolveFault where
  | duplicateLabel (name : String)
  | tooLarge (count : Nat)
  | undefinedLabel (item : Item) (target : String)
  | invalid (index : Nat) (fault : Instruction.Fault)
  deriving DecidableEq, Repr

def ResolveFault.message : ResolveFault → String
  | duplicateLabel name => s!"duplicate label {Text.quote name}"
  | tooLarge count =>
    s!"program exceeds the code store: {count} instructions, limit {codeSize}"
  | undefinedLabel item target => s!"{item.text}: undefined label {Text.quote target}"
  | invalid index fault => s!"instruction {index}: {fault.message}"

/-- Instructions without an effect, which resolution leaves out. -/
def redundant (i : Instruction) : Bool :=
  match i.op with
  | .pop | .push => i.d == 0
  | _ => false

/-- Whether an item takes a place in the code store. -/
def Item.emitted : Item → Bool
  | .label _ => false
  | .op ins _ => !redundant ins

/-- Gives each label the address of the next emitted instruction, on top of the labels already
`known`; also returns the address after the last instruction. -/
def place (known : List (String × Nat)) (address : Nat) :
    List Item → Except ResolveFault (List (String × Nat) × Nat)
  | [] => .ok (known, address)
  | .label name :: rest =>
    if (known.lookup name).isSome then .error (.duplicateLabel name)
    else place ((name, address) :: known) address rest
  | .op ins _ :: rest => place known (if redundant ins then address else address + 1) rest

def addresses (code : List Item) : Except ResolveFault (List (String × Nat)) :=
  match place [] 0 code with
  | .error fault => .error fault
  | .ok (labels, count) => if codeSize < count then .error (.tooLarge count) else .ok labels

/-- The machine instruction of an emitted item. -/
def substitute (labels : List (String × Nat)) (ins : Instruction) (target : Option String) :
    Except ResolveFault Instruction :=
  match target with
  | none => .ok ins
  | some name =>
    match labels.lookup name with
    | none => .error (.undefinedLabel (.op ins target) name)
    | some address => .ok { ins with r := .CB, d := address }

def emit (labels : List (String × Nat)) (index : Nat) :
    List Item → Except ResolveFault (List Instruction)
  | [] => .ok []
  | .label _ :: rest => emit labels index rest
  | .op ins target :: rest =>
    if redundant ins then emit labels index rest
    else
      match substitute labels ins target with
      | .error fault => .error fault
      | .ok resolved =>
        match resolved.validate with
        | .error fault => .error (.invalid index fault)
        | .ok () =>
          match emit labels (index + 1) rest with
          | .error fault => .error fault
          | .ok more => .ok (resolved :: more)

def resolve (code : List Item) : Except ResolveFault (List Instruction) :=
  match addresses code with
  | .error fault => .error fault
  | .ok labels => emit labels 0 code

end Triangle.Code
