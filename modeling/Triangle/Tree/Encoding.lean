import Triangle.Json.Basic
import Triangle.Tree.Nodes

/-! Trees as JSON: an object for each node, whose `kind` names the node. Members that are empty
are left out, and so are the slots for types and declarations. -/
namespace Triangle
namespace Encoding

def textMember (key value : String) : List (String × Json) :=
  if value = "" then [] else [(key, .str value)]

def listMember (key : String) (items : List Json) : List (String × Json) :=
  if items.isEmpty then [] else [(key, .arr items)]

def coordinate (key : String) (n : Int) : List (String × Json) :=
  if n = 0 then [] else [(key, .int n)]

def node (kind : String) (pos : Pos) (members : List (String × Json)) : Json :=
  .obj (("kind", .str kind) :: coordinate "line" pos.line ++ coordinate "column" pos.column ++
    members)

end Encoding

open Encoding

mutual
def Sig.toJson : Sig → Json
  | .named i name => node "NamedSig" i.pos (textMember "name" name)
  | .array i length elem => node "ArraySig" i.pos [("len", .int length), ("elem", elem.toJson)]
  | .record i fields => node "RecordSig" i.pos (listMember "fields" (Sig.fieldsToJson fields))

def Sig.fieldsToJson : List (String × Sig) → List Json
  | [] => []
  | (name, sig) :: rest => .obj [("name", .str name), ("type", sig.toJson)] :: Sig.fieldsToJson rest
end

mutual
def Param.toJson : Param → Json
  | .value i name sig => node "ValueParam" i.pos (textMember "name" name ++ [("sig", sig.toJson)])
  | .var i name sig => node "VarParam" i.pos (textMember "name" name ++ [("sig", sig.toJson)])
  | .func i name params result =>
    let result := match result with
      | some sig => [("result", sig.toJson)]
      | none => []
    node "FuncParam" i.pos
      (textMember "name" name ++ result ++ listMember "params" (Param.listToJson params))

def Param.listToJson : List Param → List Json
  | [] => []
  | p :: ps => p.toJson :: Param.listToJson ps
end

mutual
def Expr.toJson : Expr → Json
  | .int i value => node "IntLit" i.pos [("int", .int value)]
  | .char i value => node "CharLit" i.pos [("char", .str (String.singleton value))]
  | .bool i value => node "BoolLit" i.pos [("bool", .bool value)]
  | .ident i _ name => node "Ident" i.pos (textMember "name" name)
  | .subscript i array index =>
    node "Subscript" i.pos [("array", array.toJson), ("index", index.toJson)]
  | .select i record field =>
    node "FieldAccess" i.pos (textMember "name" field ++ [("record", record.toJson)])
  | .unary i _ op operand =>
    node "UnaryOp" i.pos (textMember "op" op ++ [("operand", operand.toJson)])
  | .binary i _ op left right =>
    node "BinaryOp" i.pos (textMember "op" op ++ [("left", left.toJson), ("right", right.toJson)])
  | .call i _ name args =>
    node "FunCall" i.pos (textMember "name" name ++ listMember "args" (Arg.listToJson args))
  | .cond i test yes no =>
    node "IfExpr" i.pos [("cond", test.toJson), ("then", yes.toJson), ("else", no.toJson)]
  | .letIn i decls body =>
    node "LetExpr" i.pos (("body", body.toJson) :: listMember "decls" (Decl.listToJson decls))
  | .array i elems => node "ArrayLit" i.pos (listMember "elems" (Expr.listToJson elems))
  | .record i fields => node "RecordLit" i.pos (listMember "fields" (Expr.fieldsToJson fields))

def Expr.listToJson : List Expr → List Json
  | [] => []
  | e :: es => e.toJson :: Expr.listToJson es

def Expr.fieldsToJson : List (String × Expr) → List Json
  | [] => []
  | (name, value) :: rest =>
    .obj [("name", .str name), ("value", value.toJson)] :: Expr.fieldsToJson rest

def Stmt.toJson : Stmt → Json
  | .assign i target value =>
    node "Assign" i.pos [("target", target.toJson), ("value", value.toJson)]
  | .call i _ name args =>
    node "CallStmt" i.pos (textMember "name" name ++ listMember "args" (Arg.listToJson args))
  | .seq i stmts => node "Seq" i.pos (listMember "stmts" (Stmt.listToJson stmts))
  | .letIn i decls body =>
    node "LetStmt" i.pos (("body", body.toJson) :: listMember "decls" (Decl.listToJson decls))
  | .ifThen i test yes => node "IfStmt" i.pos [("cond", test.toJson), ("then", yes.toJson)]
  | .ifElse i test yes no =>
    node "IfStmt" i.pos [("cond", test.toJson), ("then", yes.toJson), ("else", no.toJson)]
  | .whileDo i test body => node "WhileStmt" i.pos [("cond", test.toJson), ("body", body.toJson)]
  | .repeatUntil i body test =>
    node "RepeatUntil" i.pos [("cond", test.toJson), ("body", body.toJson)]
  | .repeatWhile i body test =>
    node "RepeatWhile" i.pos [("cond", test.toJson), ("body", body.toJson)]
  | .loopWhile i pre test post =>
    node "LoopWhile" i.pos [("cond", test.toJson), ("pre", pre.toJson), ("post", post.toJson)]
  | .forever i body => node "Forever" i.pos [("body", body.toJson)]
  | .skip i => node "Skip" i.pos []

def Stmt.listToJson : List Stmt → List Json
  | [] => []
  | s :: ss => s.toJson :: Stmt.listToJson ss

def Decl.toJson : Decl → Json
  | .const i name value =>
    node "ConstDecl" i.pos (textMember "name" name ++ [("value", value.toJson)])
  | .var i name sig => node "VarDecl" i.pos (textMember "name" name ++ [("sig", sig.toJson)])
  | .func i name params result body =>
    node "FuncDecl" i.pos
      (textMember "name" name ++ [("body", body.toJson), ("result", result.toJson)] ++
        listMember "params" (Param.listToJson params))
  | .proc i name params body =>
    node "ProcDecl" i.pos (textMember "name" name ++ [("body", body.toJson)] ++
      listMember "params" (Param.listToJson params))
  | .type i name sig => node "TypeDecl" i.pos (textMember "name" name ++ [("sig", sig.toJson)])

def Decl.listToJson : List Decl → List Json
  | [] => []
  | d :: ds => d.toJson :: Decl.listToJson ds

def Arg.toJson : Arg → Json
  | .value i value => node "ExprArg" i.pos [("value", value.toJson)]
  | .var i target => node "VarArg" i.pos [("target", target.toJson)]
  | .func i _ name => node "FuncArg" i.pos (textMember "name" name)

def Arg.listToJson : List Arg → List Json
  | [] => []
  | a :: as => a.toJson :: Arg.listToJson as
end

def Program.toJson (p : Program) : Json :=
  .obj [("kind", .str "Program"), ("body", p.body.toJson)]

/-- The JSON text of a program. -/
def Program.encode (p : Program) : String := p.toJson.print

end Triangle
