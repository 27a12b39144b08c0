import Triangle.Tree.Slots

/-! The nodes of a tree, each before those below it. Fields of records are no nodes of their
own. -/
namespace Triangle

inductive Node where
  | expr (e : Expr)
  | stmt (s : Stmt)
  | decl (d : Decl)
  | param (p : Param)
  | arg (a : Arg)
  | sig (s : Sig)

mutual
def Sig.nodes : Sig → List Node
  | .named i name => [.sig (.named i name)]
  | .array i length elem => .sig (.array i length elem) :: elem.nodes
  | .record i fields => .sig (.record i fields) :: Sig.fieldNodes fields

def Sig.fieldNodes : List (String × Sig) → List Node
  | [] => []
  | (_, sig) :: rest => sig.nodes ++ Sig.fieldNodes rest
end

mutual
def Param.nodes : Param → List Node
  | .value i name sig => .param (.value i name sig) :: sig.nodes
  | .var i name sig => .param (.var i name sig) :: sig.nodes
  | .func i name params result =>
    .param (.func i name params result) :: Param.listNodes params ++
      match result with
      | some sig => sig.nodes
      | none => []

def Param.listNodes : List Param → List Node
  | [] => []
  | p :: ps => p.nodes ++ Param.listNodes ps
end

mutual
def Expr.nodes : Expr → List Node
  | .int i value => [.expr (.int i value)]
  | .char i value => [.expr (.char i value)]
  | .bool i value => [.expr (.bool i value)]
  | .ident i decl name => [.expr (.ident i decl name)]
  | .subscript i array index => .expr (.subscript i array index) :: array.nodes ++ index.nodes
  | .select i record field => .expr (.select i record field) :: record.nodes
  | .unary i decl op operand => .expr (.unary i decl op operand) :: operand.nodes
  | .binary i decl op left right =>
    .expr (.binary i decl op left right) :: left.nodes ++ right.nodes
  | .call i decl name args => .expr (.call i decl name args) :: Arg.listNodes args
  | .cond i test yes no => .expr (.cond i test yes no) :: test.nodes ++ yes.nodes ++ no.nodes
  | .letIn i decls body => .expr (.letIn i decls body) :: Decl.listNodes decls ++ body.nodes
  | .array i elems => .expr (.array i elems) :: Expr.listNodes elems
  | .record i fields => .expr (.record i fields) :: Expr.fieldNodes fields

def Expr.listNodes : List Expr → List Node
  | [] => []
  | e :: es => e.nodes ++ Expr.listNodes es

def Expr.fieldNodes : List (String × Expr) → List Node
  | [] => []
  | (_, value) :: rest => value.nodes ++ Expr.fieldNodes rest

def Stmt.nodes : Stmt → List Node
  | .assign i target value => .stmt (.assign i target value) :: target.nodes ++ value.nodes
  | .call i decl name args => .stmt (.call i decl name args) :: Arg.listNodes args
  | .seq i stmts => .stmt (.seq i stmts) :: Stmt.listNodes stmts
  | .letIn i decls body => .stmt (.letIn i decls body) :: Decl.listNodes decls ++ body.nodes
  | .ifThen i test yes => .stmt (.ifThen i test yes) :: test.nodes ++ yes.nodes
  | .ifElse i test yes no =>
    .stmt (.ifElse i test yes no) :: test.nodes ++ yes.nodes ++ no.nodes
  | .whileDo i test body => .stmt (.whileDo i test body) :: test.nodes ++ body.nodes
  | .repeatUntil i body test => .stmt (.repeatUntil i body test) :: body.nodes ++ test.nodes
  | .repeatWhile i body test => .stmt (.repeatWhile i body test) :: body.nodes ++ test.nodes
  | .loopWhile i pre test post =>
    .stmt (.loopWhile i pre test post) :: pre.nodes ++ test.nodes ++ post.nodes
  | .forever i body => .stmt (.forever i body) :: body.nodes
  | .skip i => [.stmt (.skip i)]

def Stmt.listNodes : List Stmt → List Node
  | [] => []
  | s :: ss => s.nodes ++ Stmt.listNodes ss

def Decl.nodes : Decl → List Node
  | .const i name value => .decl (.const i name value) :: value.nodes
  | .var i name sig => .decl (.var i name sig) :: sig.nodes
  | .func i name params result body =>
    .decl (.func i name params result body) :: Param.listNodes params ++ result.nodes ++ body.nodes
  | .proc i name params body =>
    .decl (.proc i name params body) :: Param.listNodes params ++ body.nodes
  | .type i name sig => .decl (.type i name sig) :: sig.nodes

def Decl.listNodes : List Decl → List Node
  | [] => []
  | d :: ds => d.nodes ++ Decl.listNodes ds

def Arg.nodes : Arg → List Node
  | .value i value => .arg (.value i value) :: value.nodes
  | .var i target => .arg (.var i target) :: target.nodes
  | .func i decl name => [.arg (.func i decl name)]

def Arg.listNodes : List Arg → List Node
  | [] => []
  | a :: as => a.nodes ++ Arg.listNodes as
end

def Program.nodes (p : Program) : List Node := p.body.nodes

def Expr.kindName : Expr → String
  | .int _ _ => "IntLit"
  | .char _ _ => "CharLit"
  | .bool _ _ => "BoolLit"
  | .ident _ _ _ => "Ident"
  | .subscript _ _ _ => "Subscript"
  | .select _ _ _ => "FieldAccess"
  | .unary _ _ _ _ => "UnaryOp"
  | .binary _ _ _ _ _ => "BinaryOp"
  | .call _ _ _ _ => "FunCall"
  | .cond _ _ _ _ => "IfExpr"
  | .letIn _ _ _ => "LetExpr"
  | .array _ _ => "ArrayLit"
  | .record _ _ => "RecordLit"

def Stmt.kindName : Stmt → String
  | .assign _ _ _ => "Assign"
  | .call _ _ _ _ => "CallStmt"
  | .seq _ _ => "Seq"
  | .letIn _ _ _ => "LetStmt"
  | .ifThen _ _ _ | .ifElse _ _ _ _ => "IfStmt"
  | .whileDo _ _ _ => "WhileStmt"
  | .repeatUntil _ _ _ => "RepeatUntil"
  | .repeatWhile _ _ _ => "RepeatWhile"
  | .loopWhile _ _ _ _ => "LoopWhile"
  | .forever _ _ => "Forever"
  | .skip _ => "Skip"

def Arg.kindName : Arg → String
  | .value _ _ => "ExprArg"
  | .var _ _ => "VarArg"
  | .func _ _ _ => "FuncArg"

def Sig.kindName : Sig → String
  | .named _ _ => "NamedSig"
  | .array _ _ _ => "ArraySig"
  | .record _ _ => "RecordSig"

namespace Node

def kindName : Node → String
  | expr e => e.kindName
  | stmt s => s.kindName
  | decl d => d.kind.text
  | param p => p.kind.text
  | arg a => a.kindName
  | sig s => s.kindName

def info : Node → Info
  | expr e => e.info
  | stmt s => s.info
  | decl d => d.info
  | param p => p.info
  | arg a => a.info
  | sig s => s.info

/-- The declaration slot of a node that has one, empty or not. -/
def slot? : Node → Option (Option Binding)
  | expr (.ident _ b _) | expr (.unary _ b _ _) | expr (.binary _ b _ _ _)
  | expr (.call _ b _ _) | stmt (.call _ b _ _) | arg (.func _ b _) => some b
  | _ => none

def slotText : Option Binding → String
  | none => " -> none"
  | some (.standard kind name) => s!" -> standard {kind.text} {name}"
  | some (.declared kind name pos) => s!" -> {kind.text} {name} {pos.text}"

def root? : Node → Option String
  | expr e => e.root?
  | _ => none

/-- One line on a node: kind, position, type, what it is bound to, and its root. -/
def line (n : Node) : String :=
  let ty := match n.info.ty with
    | some t => t.text
    | none => "-"
  let slot := match n.slot? with
    | some b => slotText b
    | none => ""
  let root := match n.root? with
    | some name => s!" root {name}"
    | none => ""
  s!"{n.kindName} {n.info.pos.text} {ty}{slot}{root}"

end Node

def Program.nodeLines (p : Program) : List String := p.nodes.map Node.line

end Triangle
