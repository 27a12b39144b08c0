import Triangle.Code.Layout
import Triangle.Text.Blank
import Triangle.Text.Numeral
import Triangle.Text.Upper

/-! Symbolic code as text, in the form of a listing. Comments run from `;` or `//` to the end of
the line; names of operations and registers may be in either case. -/
namespace Triangle.Code

inductive SyntaxCause where
  | invalidLabel (text : String)
  | unterminatedCount (mnemonic : String)
  | unknownInstruction (mnemonic : String)
  | missingCount (mnemonic : String)
  | unexpectedCount (mnemonic : String)
  | operands (mnemonic : String) (count : Nat)
  | unknownPrimitive (mnemonic name : String)
  | invalidCount (text : String)
  | invalidRegister (text : String)
  | invalidImmediate (text : String)
  | immediateOutOfRange (text : String)
  deriving DecidableEq, Repr

/-- What a line does wrong; lines count from 1. -/
structure SyntaxFault where
  line : Nat
  cause : SyntaxCause
  deriving DecidableEq, Repr

def SyntaxFault.message (f : SyntaxFault) : String :=
  match f.cause with
  | .invalidLabel text => s!"invalid label '{text}' on line {f.line}"
  | .unterminatedCount mnemonic => s!"unterminated count in '{mnemonic}' on line {f.line}"
  | .unknownInstruction mnemonic => s!"unknown instruction on line {f.line}: {mnemonic}"
  | .missingCount mnemonic => s!"{mnemonic} on line {f.line}: missing count"
  | .unexpectedCount mnemonic => s!"{mnemonic} on line {f.line}: unexpected count"
  | .operands mnemonic count => s!"{mnemonic} on line {f.line}: {count} operands"
  | .unknownPrimitive mnemonic name =>
    s!"{mnemonic} on line {f.line}: unknown primitive '{name}'"
  | .invalidCount text => s!"invalid count '{text}' on line {f.line}"
  | .invalidRegister text => s!"invalid register '{text}' on line {f.line}"
  | .invalidImmediate text => s!"invalid immediate '{text}' on line {f.line}"
  | .immediateOutOfRange text => s!"immediate out of range on line {f.line}: {text}"

/-- The parts of a line after its labels. A count of no characters is no count. -/
structure Parts where
  mnemonic : List Char
  count : List Char
  operands : List (List Char)
  deriving DecidableEq, Repr

def stripComment : List Char → List Char
  | [] => []
  | ';' :: _ => []
  | '/' :: '/' :: _ => []
  | c :: cs => c :: stripComment cs

def isIdentifier : List Char → Bool
  | [] => false
  | c :: cs =>
    (Text.isLetter c || c == '_') &&
      cs.all fun c => Text.isLetter c || Text.isDecimal c || c == '_' || c == '.' || c == '$'

def isSpaceOrTab (c : Char) : Bool := c == ' ' || c == '\t'

/-- Takes the labels off the front of a trimmed line. Each one shortens the line, so its length
is fuel enough. -/
def takeLabels : (fuel : Nat) → List Char → Except SyntaxCause (List String × List Char)
  | 0, line => .ok ([], line)
  | fuel + 1, line =>
    match line.span (· != ':') with
    | ([], _) | (_, []) => .ok ([], line)
    | (before, _ :: after) =>
      let name := Text.trim before
      if name.any isSpaceOrTab then .ok ([], line)
      else if !isIdentifier name then .error (.invalidLabel (String.ofList name))
      else
        match takeLabels fuel (Text.trim after) with
        | .error cause => .error cause
        | .ok (labels, rest) => .ok (String.ofList name :: labels, rest)

def isBracketOrComma (c : Char) : Bool := c == ',' || c == '[' || c == ']'

def readOperands (cs : List Char) : List (List Char) :=
  Text.words (cs.map fun c => if isBracketOrComma c then ' ' else c)

def readParts (line : List Char) : Except SyntaxCause Parts :=
  let (head, rest) := line.span (!isSpaceOrTab ·)
  let operands := readOperands rest
  match head.span (· != '(') with
  | (name, []) => .ok ⟨name.map Text.toUpper, [], operands⟩
  | (name, _ :: inner) =>
    if inner.getLast? = some ')' then .ok ⟨name.map Text.toUpper, inner.dropLast, operands⟩
    else .error (.unterminatedCount (String.ofList head))

/-- Refuses a count where none is wanted, a missing one, and a wrong number of operands. -/
def Parts.expect (p : Parts) (counted : Bool) (operands : List Nat) : Except SyntaxCause Unit :=
  let mnemonic := String.ofList p.mnemonic
  if counted && p.count.isEmpty then .error (.missingCount mnemonic)
  else if !counted && !p.count.isEmpty then .error (.unexpectedCount mnemonic)
  else if operands.contains p.operands.length then .ok ()
  else .error (.operands mnemonic p.operands.length)

def readCount (cs : List Char) : Except SyntaxCause Int :=
  match Text.Numeral.ofDecimal 64 cs with
  | .ok n =>
    if 0 ≤ n ∧ n ≤ Instruction.maxCount then .ok n
    else .error (.invalidCount (String.ofList cs))
  | .error _ => .error (.invalidCount (String.ofList cs))

def readImmediate (cs : List Char) : Except SyntaxCause Int :=
  match Text.Numeral.literal 32 cs with
  | .ok n =>
    if Instruction.minDisplacement ≤ n ∧ n ≤ Instruction.maxDisplacement then .ok n
    else .error (.immediateOutOfRange (String.ofList cs))
  | .error _ => .error (.invalidImmediate (String.ofList cs))

def readRegister (cs : List Char) : Except SyntaxCause Reg :=
  match Reg.ofName? (String.ofList (cs.map Text.toUpper)) with
  | some r => .ok r
  | none => .error (.invalidRegister (String.ofList cs))

/-- An address operand: a label, or a displacement and a register. -/
def readAddressed (op : Op) (n : Int) : List (List Char) → Except SyntaxCause Item
  | [name] =>
    if isIdentifier name then .ok (.aimed op n (String.ofList name))
    else .error (.invalidLabel (String.ofList name))
  | d :: r :: _ => do
    let d ← readImmediate d
    let r ← readRegister r
    return .plain op r n d
  | [] => .ok (.plain op .CB n 0)

def readFirstImmediate (operands : List (List Char)) : Except SyntaxCause Int :=
  readImmediate (operands.headD [])

/-- The instruction that a line spells: `LOAD(n) d[r]`, `LOADA d[r]` or `LOADA label`,
`LOADI(n)`, `LOADL d`, `STORE(n) d[r]`, `STOREI(n)`, `CALL(link) d[r]`, `CALL(link) label`,
`CALL primitive`, `CALLI`, `RETURN(n) d`, `PUSH d`, `POP(n) d`, `JUMP d[r]` or `JUMP label`,
`JUMPI`, `JUMPIF(n) d[r]` or `JUMPIF(n) label`, `HALT`. -/
def Parts.item (p : Parts) : Except SyntaxCause Item := do
  let mnemonic := String.ofList p.mnemonic
  match Op.ofName? mnemonic with
  | none => throw (.unknownInstruction mnemonic)
  | some op =>
    match op with
    | .callI | .jumpI | .halt =>
      p.expect false [0]
      return .plain op .CB 0 0
    | .loadI | .storeI =>
      p.expect true [0]
      return .plain op .CB (← readCount p.count) 0
    | .loadL | .push =>
      p.expect false [1]
      return .plain op .CB 0 (← readFirstImmediate p.operands)
    | .ret | .pop =>
      p.expect true [1]
      let n ← readCount p.count
      return .plain op .CB n (← readFirstImmediate p.operands)
    | .load | .store =>
      p.expect true [2]
      let n ← readCount p.count
      readAddressed op n p.operands
    | .loadA | .jump =>
      p.expect false [1, 2]
      readAddressed op 0 p.operands
    | .jumpIf =>
      p.expect true [1, 2]
      let n ← readCount p.count
      readAddressed op n p.operands
    | .call =>
      if p.count.isEmpty then
        p.expect false [1]
        let name := String.ofList (p.operands.headD [])
        match Primitive.ofName? name with
        | some primitive => return .callPrim primitive
        | none => throw (.unknownPrimitive mnemonic name)
      else
        p.expect true [1, 2]
        let link ← readRegister p.count
        readAddressed op link.index.toNat p.operands
    | .undefined _ => throw (.unknownInstruction mnemonic)

/-- The items on one line: its labels, then its instruction if it has one. -/
def readLine (raw : List Char) : Except SyntaxCause (List Item) := do
  let line := Text.trim (stripComment raw)
  let (labels, rest) ← takeLabels line.length line
  let labels := labels.map Item.label
  if rest.isEmpty then return labels
  else
    let parts ← readParts rest
    if parts.mnemonic.isEmpty then return labels
    else return labels ++ [← parts.item]

def readLines (number : Nat) : List (List Char) → Except SyntaxFault (List (Item × Nat))
  | [] => .ok []
  | raw :: rest =>
    match readLine raw with
    | .error cause => .error ⟨number, cause⟩
    | .ok items =>
      match readLines (number + 1) rest with
      | .error fault => .error fault
      | .ok more => .ok (items.map (·, number) ++ more)

/-- Reads a text into items, each with the number of its line. -/
def readNumbered (text : String) : Except SyntaxFault (List (Item × Nat)) :=
  readLines 1 (Text.lines text.toList)

def read (text : String) : Except SyntaxFault (List Item) :=
  match readNumbered text with
  | .ok items => .ok (items.map Prod.fst)
  | .error fault => .error fault

inductive AssembleFault where
  | syntactic (fault : SyntaxFault)
  | resolution (fault : ResolveFault)
  deriving DecidableEq, Repr

def AssembleFault.message : AssembleFault → String
  | syntactic fault => fault.message
  | resolution fault => fault.message

/-- The line that each code address came from, by address. -/
def sourceLines (items : List (Item × Nat)) : List Nat :=
  (items.filter (·.1.emitted)).map Prod.snd

/-- Reads and resolves a text; also returns the line of each code address. -/
def assemble (text : String) : Except AssembleFault (List Instruction × List Nat) :=
  match readNumbered text with
  | .error fault => .error (.syntactic fault)
  | .ok items =>
    match resolve (items.map Prod.fst) with
    | .error fault => .error (.resolution fault)
    | .ok code => .ok (code, sourceLines items)

end Triangle.Code
