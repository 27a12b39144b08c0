import Triangle.Tree.Basic
import Triangle.Tree.Shape

/-! Trees from JSON. A member of the wrong JSON type anywhere makes the whole text unreadable;
otherwise the first node that is wrong as a tree is reported. -/
namespace Triangle
namespace Decoding

/-- The classes of nodes that a place in a tree can ask for. -/
inductive Class where
  | expr | stmt | decl | param | arg | sig
  deriving DecidableEq, Repr

def Class.text : Class → String
  | expr => "an expression"
  | stmt => "a command"
  | decl => "a declaration"
  | param => "a parameter"
  | arg => "an argument"
  | sig => "a type signature"

inductive Cause where
  | unknownKind (want : Class)
  | missing (key : String)
  | notAProgram
  | notOneCharacter (text : String)
  deriving DecidableEq, Repr

inductive Fault where
  /-- A node that is wrong, by its kind and position. -/
  | node (kind : String) (pos : Pos) (cause : Cause)
  | nullElement
  deriving DecidableEq, Repr

def Fault.message (form : Text.Form) : Fault → String
  | nullElement => "missing member: null list element"
  | node kind pos cause =>
    let reason := match cause with
      | .unknownKind want =>
        if kind = "" then s!"unknown node kind: no kind where {want.text} expected"
        else s!"unknown node kind: not {want.text}"
      | .missing key => s!"missing member {Text.quote key}"
      | .notAProgram => "root must be a Program"
      | .notOneCharacter text => s!"char must be a single character, got {form.quote text}"
    if pos = .none then s!"{kind}: {reason}" else s!"{kind} at {pos.text}: {reason}"

/-- What an object is when it is read as a node of each class. -/
structure Reading where
  expr : Except Fault Expr
  stmt : Except Fault Stmt
  decl : Except Fault Decl
  param : Except Fault Param
  arg : Except Fault Arg
  sig : Except Fault Sig

/-- A field of a record: the value of a literal's, the type of a signature's. -/
structure Field where
  name : String := ""
  value : Option Reading := none
  type : Option Reading := none

/-- The members of an object by key, the last one read first. -/
structure Members where
  texts : List (String × String) := []
  ints : List (String × Int) := []
  bools : List (String × Bool) := []
  nodes : List (String × Reading) := []
  lists : List (String × List (Option Reading)) := []
  fields : List Field := []

namespace Members

def text (m : Members) (key : String) : String := (m.texts.lookup key).getD ""

def kind (m : Members) : String := m.text "kind"

def name (m : Members) : String := m.text "name"

def pos (m : Members) : Pos := ⟨(m.ints.lookup "line").getD 0, (m.ints.lookup "column").getD 0⟩

def info (m : Members) : Info := { pos := m.pos }

def fail {α : Type} (m : Members) (cause : Cause) : Except Fault α :=
  .error (.node m.kind m.pos cause)

def missing {α : Type} (m : Members) (key : String) : Except Fault α := m.fail (.missing key)

/-- A child that must be there. -/
def need {α : Type} (m : Members) (key : String) (child : Option Reading)
    (as : Reading → Except Fault α) : Except Fault α :=
  match child with
  | none => m.missing key
  | some r => as r

def child {α : Type} (m : Members) (key : String) (as : Reading → Except Fault α) :
    Except Fault α :=
  m.need key (m.nodes.lookup key) as

def all {α : Type} (as : Reading → Except Fault α) :
    List (Option Reading) → Except Fault (List α)
  | [] => .ok []
  | none :: _ => .error .nullElement
  | some r :: rest => do
    let a ← as r
    return a :: (← all as rest)

def list {α : Type} (m : Members) (key : String) (as : Reading → Except Fault α) :
    Except Fault (List α) :=
  all as ((m.lists.lookup key).getD [])

def allFields {α : Type} (m : Members) (key : String) (part : Field → Option Reading)
    (as : Reading → Except Fault α) : List Field → Except Fault (List (String × α))
  | [] => .ok []
  | f :: rest => do
    let a ← m.need key (part f) as
    return (f.name, a) :: (← m.allFields key part as rest)

def expr (m : Members) : Except Fault Expr :=
  match m.kind with
  | "IntLit" =>
    match m.ints.lookup "int" with
    | some n => .ok (.int m.info n)
    | none => m.missing "int"
  | "CharLit" =>
    match (m.text "char").toList with
    | [c] => .ok (.char m.info c)
    | _ => m.fail (.notOneCharacter (m.text "char"))
  | "BoolLit" =>
    match m.bools.lookup "bool" with
    | some b => .ok (.bool m.info b)
    | none => m.missing "bool"
  | "Ident" => if m.name = "" then m.missing "name" else .ok (.ident m.info none m.name)
  | "Subscript" => do
    let array ← m.child "array" Reading.expr
    let index ← m.child "index" Reading.expr
    return .subscript m.info array index
  | "FieldAccess" => do
    let record ← m.child "record" Reading.expr
    if m.name = "" then m.missing "name" else return .select m.info record m.name
  | "UnaryOp" => do
    return .unary m.info none (m.text "op") (← m.child "operand" Reading.expr)
  | "BinaryOp" => do
    let left ← m.child "left" Reading.expr
    let right ← m.child "right" Reading.expr
    return .binary m.info none (m.text "op") left right
  | "FunCall" => do return .call m.info none m.name (← m.list "args" Reading.arg)
  | "IfExpr" => do
    let test ← m.child "cond" Reading.expr
    let yes ← m.child "then" Reading.expr
    let no ← m.child "else" Reading.expr
    return .cond m.info test yes no
  | "LetExpr" => do
    let decls ← m.list "decls" Reading.decl
    let body ← m.child "body" Reading.expr
    return .letIn m.info decls body
  | "ArrayLit" => do return .array m.info (← m.list "elems" Reading.expr)
  | "RecordLit" => do
    return .record m.info (← m.allFields "value" Field.value Reading.expr m.fields)
  | _ => m.fail (.unknownKind .expr)

def stmt (m : Members) : Except Fault Stmt :=
  match m.kind with
  | "Assign" => do
    let target ← m.child "target" Reading.expr
    let value ← m.child "value" Reading.expr
    return .assign m.info target value
  | "CallStmt" => do return .call m.info none m.name (← m.list "args" Reading.arg)
  | "Seq" => do return .seq m.info (← m.list "stmts" Reading.stmt)
  | "LetStmt" => do
    let decls ← m.list "decls" Reading.decl
    let body ← m.child "body" Reading.stmt
    return .letIn m.info decls body
  | "IfStmt" => do
    let test ← m.child "cond" Reading.expr
    let yes ← m.child "then" Reading.stmt
    match m.nodes.lookup "else" with
    | none => return .ifThen m.info test yes
    | some no => return .ifElse m.info test yes (← no.stmt)
  | "WhileStmt" => do
    let test ← m.child "cond" Reading.expr
    let body ← m.child "body" Reading.stmt
    return .whileDo m.info test body
  | "RepeatUntil" => do
    let body ← m.child "body" Reading.stmt
    let test ← m.child "cond" Reading.expr
    return .repeatUntil m.info body test
  | "RepeatWhile" => do
    let body ← m.child "body" Reading.stmt
    let test ← m.child "cond" Reading.expr
    return .repeatWhile m.info body test
  | "LoopWhile" => do
    let pre ← m.child "pre" Reading.stmt
    let test ← m.child "cond" Reading.expr
    let post ← m.child "post" Reading.stmt
    return .loopWhile m.info pre test post
  | "Forever" => do return .forever m.info (← m.child "body" Reading.stmt)
  | "Skip" => .ok (.skip m.info)
  | _ => m.fail (.unknownKind .stmt)

def decl (m : Members) : Except Fault Decl :=
  match m.kind with
  | "ConstDecl" => do return .const m.info m.name (← m.child "value" Reading.expr)
  | "VarDecl" => do return .var m.info m.name (← m.child "sig" Reading.sig)
  | "TypeDecl" => do return .type m.info m.name (← m.child "sig" Reading.sig)
  | "FuncDecl" => do
    let params ← m.list "params" Reading.param
    let result ← m.child "result" Reading.sig
    let body ← m.child "body" Reading.expr
    return .func m.info m.name params result body
  | "ProcDecl" => do
    let params ← m.list "params" Reading.param
    let body ← m.child "body" Reading.stmt
    return .proc m.info m.name params body
  | _ => m.fail (.unknownKind .decl)

def param (m : Members) : Except Fault Param :=
  match m.kind with
  | "ValueParam" => do return .value m.info m.name (← m.child "sig" Reading.sig)
  | "VarParam" => do return .var m.info m.name (← m.child "sig" Reading.sig)
  | "FuncParam" => do
    let params ← m.list "params" Reading.param
    match m.nodes.lookup "result" with
    | none => return .func m.info m.name params none
    | some result => return .func m.info m.name params (some (← result.sig))
  | _ => m.fail (.unknownKind .param)

def arg (m : Members) : Except Fault Arg :=
  match m.kind with
  | "ExprArg" => do return .value m.info (← m.child "value" Reading.expr)
  | "VarArg" => do return .var m.info (← m.child "target" Reading.expr)
  | "FuncArg" => .ok (.func m.info none m.name)
  | _ => m.fail (.unknownKind .arg)

def sig (m : Members) : Except Fault Sig :=
  match m.kind with
  | "NamedSig" => .ok (.named m.info m.name)
  | "ArraySig" =>
    match m.ints.lookup "len" with
    | none => m.missing "len"
    | some n => do return .array m.info n (← m.child "elem" Reading.sig)
  | "RecordSig" => do
    return .record m.info (← m.allFields "type" Field.type Reading.sig m.fields)
  | _ => m.fail (.unknownKind .sig)

def reading (m : Members) : Reading :=
  { expr := m.expr, stmt := m.stmt, decl := m.decl, param := m.param, arg := m.arg, sig := m.sig }

def program (m : Members) : Except Fault Program :=
  if m.kind ≠ "Program" then m.fail .notAProgram
  else do return ⟨← m.child "body" Reading.stmt⟩

end Members

mutual
/-- The members of an object on top of those already read. A null is as good as absent. -/
def members (m : Members) : List (String × Json) → Members
  | [] => m
  | (_, .null) :: rest => members m rest
  | (key, .str text) :: rest => members { m with texts := (key, text) :: m.texts } rest
  | (key, .int n) :: rest => members { m with ints := (key, n) :: m.ints } rest
  | (key, .bool b) :: rest => members { m with bools := (key, b) :: m.bools } rest
  | (key, .obj ms) :: rest =>
    members { m with nodes := (key, (members {} ms).reading) :: m.nodes } rest
  | (key, .arr elems) :: rest =>
    if key = "fields" then members { m with fields := fields elems } rest
    else members { m with lists := (key, nodes elems) :: m.lists } rest

/-- The nodes of a list, none where an element is null. -/
def nodes : List Json → List (Option Reading)
  | [] => []
  | .obj ms :: rest => some (members {} ms).reading :: nodes rest
  | _ :: rest => none :: nodes rest

/-- The fields of a record, an empty one where an element is null. -/
def fields : List Json → List Field
  | [] => []
  | .obj ms :: rest =>
    let m := members {} ms
    ⟨m.name, m.nodes.lookup "value", m.nodes.lookup "type"⟩ :: fields rest
  | _ :: rest => {} :: fields rest
end

inductive TextFault where
  /-- The text is not JSON, or a member has the wrong JSON type. -/
  | unreadable
  | tree (fault : Fault)
  deriving DecidableEq, Repr

def TextFault.message (form : Text.Form) : TextFault → String
  | unreadable => "unmarshal program: not the JSON text of a tree"
  | tree fault => fault.message form

end Decoding

open Decoding

/-- The program that a value stands for, whose members have the shapes that go with their keys. -/
def Program.ofJson (j : Json) : Except Fault Program := (members {} j.members).program

/-- Reads the JSON text of a program that nests within a limit. -/
def Program.decodeWithin (limit : Json.Limit) (form : Text.Form) (text : String) :
    Except TextFault Program :=
  match Json.parseTree form limit text with
  | none => .error .unreadable
  | some j =>
    match Program.ofJson j with
    | .ok p => .ok p
    | .error fault => .error (.tree fault)

/-- Reads the JSON text of a program. -/
def Program.decode (form : Text.Form) (text : String) : Except TextFault Program :=
  Program.decodeWithin Json.maxDepth form text

/-- Reads the bytes of a program's JSON text, and gives the form in which its names, and messages
about it, are written. -/
def Program.decodeBytes (bytes : List UInt8) : Text.Form × Except TextFault Program :=
  let ps := Text.pieces bytes
  match ps.mapM Text.Piece.char? with
  | some chars => (.given, Program.decode .given (String.ofList chars))
  | none =>
    let units := Json.spelledUnits (bytes.map fun b => Char.ofNat b.toNat)
    let s := Text.StandIns.unused (ps.filterMap Text.Piece.char? ++ Json.spelledPairs units)
    (.bytewise s, Program.decode (.bytewise s) (s.ofBytes bytes))

end Triangle
