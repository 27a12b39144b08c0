import Triangle.Proofs.Text.Numeral
import Triangle.Tree.Nodes

/-! What of a tree its text tells: everything but the slots, which are empty again when it is
read. -/
namespace Triangle

/-- A node as it is read: with its position, its slots empty. -/
def Info.bare (i : Info) : Info := { pos := i.pos }

mutual
def Sig.bare : Sig → Sig
  | .named i name => .named i.bare name
  | .array i length elem => .array i.bare length elem.bare
  | .record i fields => .record i.bare (Sig.bareFields fields)

def Sig.bareFields : List (String × Sig) → List (String × Sig)
  | [] => []
  | (name, sig) :: rest => (name, sig.bare) :: Sig.bareFields rest
end

mutual
def Param.bare : Param → Param
  | .value i name sig => .value i.bare name sig.bare
  | .var i name sig => .var i.bare name sig.bare
  | .func i name params result => .func i.bare name (Param.bareList params) (result.map Sig.bare)

def Param.bareList : List Param → List Param
  | [] => []
  | p :: ps => p.bare :: Param.bareList ps
end

mutual
def Expr.bare : Expr → Expr
  | .int i value => .int i.bare value
  | .char i value => .char i.bare value
  | .bool i value => .bool i.bare value
  | .ident i _ name => .ident i.bare none name
  | .subscript i array index => .subscript i.bare array.bare index.bare
  | .select i record field => .select i.bare record.bare field
  | .unary i _ op operand => .unary i.bare none op operand.bare
  | .binary i _ op left right => .binary i.bare none op left.bare right.bare
  | .call i _ name args => .call i.bare none name (Arg.bareList args)
  | .cond i test yes no => .cond i.bare test.bare yes.bare no.bare
  | .letIn i decls body => .letIn i.bare (Decl.bareList decls) body.bare
  | .array i elems => .array i.bare (Expr.bareList elems)
  | .record i fields => .record i.bare (Expr.bareFields fields)

def Expr.bareList : List Expr → List Expr
  | [] => []
  | e :: es => e.bare :: Expr.bareList es

def Expr.bareFields : List (String × Expr) → List (String × Expr)
  | [] => []
  | (name, value) :: rest => (name, value.bare) :: Expr.bareFields rest

def Stmt.bare : Stmt → Stmt
  | .assign i target value => .assign i.bare target.bare value.bare
  | .call i _ name args => .call i.bare none name (Arg.bareList args)
  | .seq i stmts => .seq i.bare (Stmt.bareList stmts)
  | .letIn i decls body => .letIn i.bare (Decl.bareList decls) body.bare
  | .ifThen i test yes => .ifThen i.bare test.bare yes.bare
  | .ifElse i test yes no => .ifElse i.bare test.bare yes.bare no.bare
  | .whileDo i test body => .whileDo i.bare test.bare body.bare
  | .repeatUntil i body test => .repeatUntil i.bare body.bare test.bare
  | .repeatWhile i body test => .repeatWhile i.bare body.bare test.bare
  | .loopWhile i pre test post => .loopWhile i.bare pre.bare test.bare post.bare
  | .forever i body => .forever i.bare body.bare
  | .skip i => .skip i.bare

def Stmt.bareList : List Stmt → List Stmt
  | [] => []
  | s :: ss => s.bare :: Stmt.bareList ss

def Decl.bare : Decl → Decl
  | .const i name value => .const i.bare name value.bare
  | .var i name sig => .var i.bare name sig.bare
  | .func i name params result body =>
    .func i.bare name (Param.bareList params) result.bare body.bare
  | .proc i name params body => .proc i.bare name (Param.bareList params) body.bare
  | .type i name sig => .type i.bare name sig.bare

def Decl.bareList : List Decl → List Decl
  | [] => []
  | d :: ds => d.bare :: Decl.bareList ds

def Arg.bare : Arg → Arg
  | .value i value => .value i.bare value.bare
  | .var i target => .var i.bare target.bare
  | .func i _ name => .func i.bare none name

def Arg.bareList : List Arg → List Arg
  | [] => []
  | a :: as => a.bare :: Arg.bareList as
end

def Program.bare (p : Program) : Program := ⟨p.body.bare⟩

/-- What a node must be like to read back: numbers of 64 bits, and a name where one is needed. -/
def Node.Writable (n : Node) : Prop :=
  Text.Numeral.Fits 64 n.info.pos.line ∧ Text.Numeral.Fits 64 n.info.pos.column ∧
    match n with
    | .expr (.int _ value) => Text.Numeral.Fits 64 value
    | .expr (.ident _ _ name) => name ≠ ""
    | .expr (.select _ _ field) => field ≠ ""
    | .sig (.array _ length _) => Text.Numeral.Fits 64 length
    | _ => True

/-- Every node of the program can be read back. -/
def Program.Writable (p : Program) : Prop := ∀ n ∈ p.nodes, n.Writable

end Triangle
