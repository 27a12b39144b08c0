import Triangle.Tree.Slots

/-! What is evaluated every time a loop is entered. The part of a loop that runs on every entry is
walked in the order of evaluation, up to the first nested loop, call of a program's routine, or
branch that might not come back. -/
namespace Triangle.Optimize

/-! ## Commands that might not come back -/

namespace Hang

/-- An operator or routine that is not standard. -/
def ofSlot (decl : Option Binding) : Bool := !decl.any Binding.isStandard

mutual
def expr : Expr → Bool
  | .int _ _ | .char _ _ | .bool _ _ | .ident _ _ _ => false
  | .subscript _ array index => expr array || expr index
  | .select _ record _ => expr record
  | .unary _ decl _ operand => ofSlot decl || expr operand
  | .binary _ decl _ left right => ofSlot decl || expr left || expr right
  | .call _ decl _ as => ofSlot decl || args as
  | .cond _ test yes no => expr test || expr yes || expr no
  | .letIn _ ds body => decls ds || expr body
  | .array _ elems => exprs elems
  | .record _ fields => fieldExprs fields

def exprs : List Expr → Bool
  | [] => false
  | e :: es => expr e || exprs es

def fieldExprs : List (String × Expr) → Bool
  | [] => false
  | (_, e) :: rest => expr e || fieldExprs rest

def args : List Arg → Bool
  | [] => false
  | a :: as => arg a || args as

def arg : Arg → Bool
  | .value _ value => expr value
  | .var _ target => expr target
  | .func _ _ _ => false

def decls : List Decl → Bool
  | [] => false
  | d :: ds => decl d || decls ds

def decl : Decl → Bool
  | .const _ _ value => expr value
  | _ => false
end

mutual
def stmt : Stmt → Bool
  | .assign _ target value => expr target || expr value
  | .call _ decl _ as => ofSlot decl || args as
  | .seq _ ss => stmts ss
  | .letIn _ ds body => decls ds || stmt body
  | .ifThen _ test yes => expr test || stmt yes
  | .ifElse _ test yes no => expr test || stmt yes || stmt no
  | .whileDo _ _ _ | .repeatUntil _ _ _ | .repeatWhile _ _ _ | .loopWhile _ _ _ _ | .forever _ _ =>
    true
  | .skip _ => false

def stmts : List Stmt → Bool
  | [] => false
  | s :: ss => stmt s || stmts ss
end

end Hang

/-! ## The walk -/

/-- The place of an expression below a loop: the number of the child taken at each node, the last
first. Declaration `k` of a let is child `k + 1`, its body child 0. -/
abbrev Path := List Nat

/-- The expressions that a part of a loop surely evaluates, and whether what follows it is sure to
be reached. -/
structure Entry where
  sure : List Path := []
  goesOn : Bool := true
  deriving DecidableEq, Repr

namespace Entry

def andThen (a b : Entry) : Entry :=
  if a.goesOn then { sure := a.sure ++ b.sure, goesOn := b.goesOn } else a

def mark (path : Path) : Entry := { sure := [path] }

def stopIf (stop : Bool) : Entry := { goesOn := !stop }

mutual
def expr (path : Path) : Expr → Entry
  | .int _ _ | .char _ _ | .bool _ _ | .ident _ _ _ => mark path
  | .subscript _ array index =>
    ((expr (0 :: path) array).andThen (expr (1 :: path) index)).andThen (mark path)
  | .select _ record _ => (expr (0 :: path) record).andThen (mark path)
  | .unary _ decl _ operand =>
    ((expr (0 :: path) operand).andThen (stopIf (Hang.ofSlot decl))).andThen (mark path)
  | .binary _ decl _ left right =>
    (((expr (0 :: path) left).andThen (expr (1 :: path) right)).andThen
      (stopIf (Hang.ofSlot decl))).andThen (mark path)
  | .call _ decl _ as =>
    ((args path 0 as).andThen (stopIf (Hang.ofSlot decl))).andThen (mark path)
  | .cond _ test yes no =>
    ((expr (0 :: path) test).andThen (stopIf (Hang.expr yes || Hang.expr no))).andThen (mark path)
  | .letIn _ ds body =>
    ((decls path 1 ds).andThen (expr (0 :: path) body)).andThen (mark path)
  | .array _ elems => (exprs path 0 elems).andThen (mark path)
  | .record _ fields => (fieldExprs path 0 fields).andThen (mark path)

def exprs (path : Path) (k : Nat) : List Expr → Entry
  | [] => {}
  | e :: es => (expr (k :: path) e).andThen (exprs path (k + 1) es)

def fieldExprs (path : Path) (k : Nat) : List (String × Expr) → Entry
  | [] => {}
  | (_, e) :: rest => (expr (k :: path) e).andThen (fieldExprs path (k + 1) rest)

def args (path : Path) (k : Nat) : List Arg → Entry
  | [] => {}
  | a :: as => (arg (k :: path) a).andThen (args path (k + 1) as)

def arg (path : Path) : Arg → Entry
  | .value _ value => expr path value
  | .var _ target => expr path target
  | .func _ _ _ => {}

def decls (path : Path) (k : Nat) : List Decl → Entry
  | [] => {}
  | d :: ds => (decl (k :: path) d).andThen (decls path (k + 1) ds)

def decl (path : Path) : Decl → Entry
  | .const _ _ value => expr path value
  | _ => {}
end

mutual
/-- An assignment evaluates its value before its target. -/
def stmt (path : Path) : Stmt → Entry
  | .assign _ target value => (expr (1 :: path) value).andThen (expr (0 :: path) target)
  | .call _ decl _ as => (args path 0 as).andThen (stopIf (Hang.ofSlot decl))
  | .seq _ ss => stmts path 0 ss
  | .letIn _ ds body => (decls path 1 ds).andThen (stmt (0 :: path) body)
  | .ifThen _ test yes => (expr (0 :: path) test).andThen (stopIf (Hang.stmt yes))
  | .ifElse _ test yes no =>
    (expr (0 :: path) test).andThen (stopIf (Hang.stmt yes || Hang.stmt no))
  | .skip _ => {}
  | .whileDo _ _ _ | .repeatUntil _ _ _ | .repeatWhile _ _ _ | .loopWhile _ _ _ _ | .forever _ _ =>
    stopIf true

def stmts (path : Path) (k : Nat) : List Stmt → Entry
  | [] => {}
  | s :: ss => (stmt (k :: path) s).andThen (stmts path (k + 1) ss)
end

end Entry

/-- The expressions evaluated each time a loop is entered; a while loop is taken to be entered with
its test true. -/
def entered : Stmt → List Path
  | .whileDo _ test body => ((Entry.expr [0] test).andThen (Entry.stmt [1] body)).sure
  | .repeatUntil _ body test => ((Entry.stmt [0] body).andThen (Entry.expr [1] test)).sure
  | .repeatWhile _ body test => ((Entry.stmt [0] body).andThen (Entry.expr [1] test)).sure
  | .loopWhile _ pre test _ => ((Entry.stmt [0] pre).andThen (Entry.expr [1] test)).sure
  | .forever _ body => (Entry.stmt [0] body).sure
  | _ => []

end Triangle.Optimize
