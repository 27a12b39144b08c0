import Triangle.Optimize.Tally
import Triangle.Tree.Slots

/-! Removal of branches and loops whose test is a literal, and of commands that do nothing. -/
namespace Triangle.Optimize.Prune

/-- The outcome of a test that is a literal. -/
def decided? : Expr → Option Bool
  | .bool _ value => some value
  | _ => none

/-- One of two outcomes where the test is a literal, and otherwise what is `left`. -/
def choose {α : Type} (test : Expr) (yes no left : α) : Tally α :=
  match decided? test with
  | some true => .changed yes
  | some false => .changed no
  | none => pure left

def condExpr (i : Info) (test yes no : Expr) : Tally Expr := choose test yes no (.cond i test yes no)

def ifThen (i : Info) (test : Expr) (yes : Stmt) : Tally Stmt :=
  choose test yes (.skip i) (.ifThen i test yes)

def ifElse (i : Info) (test : Expr) (yes no : Stmt) : Tally Stmt :=
  choose test yes no (.ifElse i test yes no)

def whileDo (i : Info) (test : Expr) (body : Stmt) : Tally Stmt :=
  choose test (.forever i body) (.skip i) (.whileDo i test body)

def repeatUntil (i : Info) (body : Stmt) (test : Expr) : Tally Stmt :=
  choose test body (.forever i body) (.repeatUntil i body test)

def repeatWhile (i : Info) (body : Stmt) (test : Expr) : Tally Stmt :=
  choose test (.forever i body) body (.repeatWhile i body test)

def loopWhile (i : Info) (pre : Stmt) (test : Expr) (post : Stmt) : Tally Stmt :=
  choose test (.forever i (.seq i [pre, post])) pre (.loopWhile i pre test post)

def isSkip : Stmt → Bool
  | .skip _ => true
  | _ => false

def seq (i : Info) (ss : List Stmt) : Tally Stmt :=
  let kept := ss.filter fun s => !isSkip s
  let result := match kept with
    | [] => .skip i
    | [s] => s
    | kept => .seq i kept
  { value := result, count := ss.length - kept.length }

mutual
def expr : Expr → Tally Expr
  | .int i value => pure (.int i.alone value)
  | .char i value => pure (.char i.alone value)
  | .bool i value => pure (.bool i.alone value)
  | .ident i decl name => pure (.ident i.alone decl name)
  | .subscript i array index => return .subscript i.alone (← expr array) (← expr index)
  | .select i record field => return .select i.alone (← expr record) field
  | .unary i decl op operand => return .unary i.alone decl op (← expr operand)
  | .binary i decl op left right => return .binary i.alone decl op (← expr left) (← expr right)
  | .call i decl name as => return .call i.alone decl name (← args as)
  | .cond i test yes no => do condExpr i.alone (← expr test) (← expr yes) (← expr no)
  | .letIn i ds body => return .letIn i.alone (← decls ds) (← expr body)
  | .array i elems => return .array i.alone (← exprs elems)
  | .record i fields => return .record i.alone (← fieldExprs fields)

def exprs : List Expr → Tally (List Expr)
  | [] => pure []
  | e :: es => return (← expr e) :: (← exprs es)

def fieldExprs : List (String × Expr) → Tally (List (String × Expr))
  | [] => pure []
  | (name, e) :: rest => return (name, ← expr e) :: (← fieldExprs rest)

def args : List Arg → Tally (List Arg)
  | [] => pure []
  | a :: as => return (← arg a) :: (← args as)

def arg : Arg → Tally Arg
  | .value i value => return .value i.alone (← expr value)
  | .var i target => return .var i.alone (← expr target)
  | .func i decl name => pure (.func i.alone decl name)

def decls : List Decl → Tally (List Decl)
  | [] => pure []
  | d :: ds => return (← decl d) :: (← decls ds)

def decl : Decl → Tally Decl
  | .const i name value => return .const i.alone name (← expr value)
  | .var i name sig => pure (.var i.alone name sig)
  | .func i name params result body => return .func i.alone name params result (← expr body)
  | .proc i name params body => return .proc i.alone name params (← stmt body)
  | .type i name sig => pure (.type i.alone name sig)

def stmt : Stmt → Tally Stmt
  | .assign i target value => return .assign i.alone (← expr target) (← expr value)
  | .call i decl name as => return .call i.alone decl name (← args as)
  | .seq i ss => do seq i.alone (← stmts ss)
  | .letIn i ds body => return .letIn i.alone (← decls ds) (← stmt body)
  | .ifThen i test yes => do ifThen i.alone (← expr test) (← stmt yes)
  | .ifElse i test yes no => do ifElse i.alone (← expr test) (← stmt yes) (← stmt no)
  | .whileDo i test body => do whileDo i.alone (← expr test) (← stmt body)
  | .repeatUntil i body test => do repeatUntil i.alone (← stmt body) (← expr test)
  | .repeatWhile i body test => do repeatWhile i.alone (← stmt body) (← expr test)
  | .loopWhile i pre test post => do loopWhile i.alone (← stmt pre) (← expr test) (← stmt post)
  | .forever i body => return .forever i.alone (← stmt body)
  | .skip i => pure (.skip i.alone)

def stmts : List Stmt → Tally (List Stmt)
  | [] => pure []
  | s :: ss => return (← stmt s) :: (← stmts ss)
end

end Triangle.Optimize.Prune

namespace Triangle

/-- The program without what a decided test excludes, and the number of removals. -/
def Program.prune (p : Program) : Optimize.Tally Program :=
  return ⟨← Optimize.Prune.stmt p.body⟩

end Triangle
