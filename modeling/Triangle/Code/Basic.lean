import Triangle.Machine.Instruction

/-! Symbolic code: instructions that may address a label instead of a number, and the labels
between them. -/
namespace Triangle.Code

/-- A target is the label whose code address becomes the instruction's displacement from the
code base. -/
inductive Item where
  | label (name : String)
  | op (ins : Instruction) (target : Option String)
  deriving DecidableEq, Repr

namespace Item

def plain (op : Op) (r : Reg) (n d : Int) : Item := .op ⟨op, r, n, d⟩ none

def aimed (op : Op) (n : Int) (target : String) : Item := .op ⟨op, .CB, n, 0⟩ (some target)

def load (n : Int) (r : Reg) (d : Int) : Item := plain .load r n d
def loadA (r : Reg) (d : Int) : Item := plain .loadA r 0 d
def loadI (n : Int) : Item := plain .loadI .CB n 0
def loadL (d : Int) : Item := plain .loadL .CB 0 d
def store (n : Int) (r : Reg) (d : Int) : Item := plain .store r n d
def storeI (n : Int) : Item := plain .storeI .CB n 0
def callI : Item := plain .callI .CB 0 0
def ret (n d : Int) : Item := plain .ret .CB n d
def push (d : Int) : Item := plain .push .CB 0 d
def pop (n d : Int) : Item := plain .pop .CB n d
def jumpI : Item := plain .jumpI .CB 0 0
def halt : Item := plain .halt .CB 0 0

/-- A primitive needs no static link; the stack base stands in for one. -/
def callPrim (p : Primitive) : Item := plain .call .PB Reg.SB.index.toNat p.displacement

/-- Calls the routine at a label; `link` holds its static link. -/
def call (link : Reg) (target : String) : Item := aimed .call link.index.toNat target

def jump (target : String) : Item := aimed .jump 0 target

/-- Pops a word and jumps when it equals `n`. -/
def jumpIf (n : Int) (target : String) : Item := aimed .jumpIf n target

def loadLabel (target : String) : Item := aimed .loadA 0 target

def text : Item → String
  | .label name => name ++ ":"
  | .op ins none => ins.text
  | .op ins (some target) =>
    match ins.op with
    | .call => s!"CALL({(Reg.mk (UInt8.ofInt ins.n)).name}) {target}"
    | .jumpIf => s!"JUMPIF({ins.n}) {target}"
    | other => s!"{other.name} {target}"

/-- The item's line in a listing: labels flush left, instructions indented. -/
def line : Item → String
  | .label name => (Item.label name).text
  | item => "    " ++ item.text

end Item

def listing (code : List Item) : String := String.join (code.map fun item => item.line ++ "\n")

end Triangle.Code
