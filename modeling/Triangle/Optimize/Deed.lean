import Triangle.Tree.Slots

/-! What a command does to names, in the order of its text: the names that it assigns, calls and
declares. Reading of names is left out, and so are the types. -/
namespace Triangle.Optimize

inductive Deed where
  | assigns (name : String)
  | calls (name : String)
  /-- Declares a constant or a variable. -/
  | declares (name : String)
  /-- Declares a routine that is known by number. -/
  | routine (name : String) (id : Nat)
  /-- Declares a routine whose node may stand in two places. -/
  | newRoutine (twin : Option Nat) (name : String) (params : List Param) (body : List Deed)
  | block (body : List Deed)

namespace Deed

/-- The root of a variable that is assigned. -/
def assignsRoot (target : Expr) : List Deed :=
  match target.root? with
  | some name => [assigns name]
  | none => []

mutual
def ofExpr : Expr → List Deed
  | .int _ _ | .char _ _ | .bool _ _ | .ident _ _ _ => []
  | .subscript _ array index => ofExpr array ++ ofExpr index
  | .select _ record _ => ofExpr record
  | .unary _ _ _ operand => ofExpr operand
  | .binary _ _ _ left right => ofExpr left ++ ofExpr right
  | .call _ _ name as => calls name :: ofArgs as
  | .cond _ test yes no => ofExpr test ++ ofExpr yes ++ ofExpr no
  | .letIn _ ds body => [block (ofDecls ds ++ ofExpr body)]
  | .array _ elems => ofExprs elems
  | .record _ fields => ofFields fields

def ofExprs : List Expr → List Deed
  | [] => []
  | e :: es => ofExpr e ++ ofExprs es

def ofFields : List (String × Expr) → List Deed
  | [] => []
  | (_, e) :: rest => ofExpr e ++ ofFields rest

def ofArgs : List Arg → List Deed
  | [] => []
  | a :: as => ofArg a ++ ofArgs as

def ofArg : Arg → List Deed
  | .value _ value => ofExpr value
  | .var _ target => assignsRoot target ++ ofExpr target
  | .func _ _ name => [calls name]

def ofDecls : List Decl → List Deed
  | [] => []
  | d :: ds => ofDecl d ++ ofDecls ds

def ofDecl : Decl → List Deed
  | .const _ name value => declares name :: ofExpr value
  | .var _ name _ => [declares name]
  | .func i name params _ body => [newRoutine i.twin name params (ofExpr body)]
  | .proc i name params body => [newRoutine i.twin name params (ofStmt body)]
  | .type _ name _ => [assigns name]

def ofStmt : Stmt → List Deed
  | .assign _ target value => assignsRoot target ++ ofExpr target ++ ofExpr value
  | .call _ _ name as => calls name :: ofArgs as
  | .seq _ ss => ofStmts ss
  | .letIn _ ds body => [block (ofDecls ds ++ ofStmt body)]
  | .ifThen _ test yes => ofExpr test ++ ofStmt yes
  | .ifElse _ test yes no => ofExpr test ++ ofStmt yes ++ ofStmt no
  | .whileDo _ test body => ofExpr test ++ ofStmt body
  | .repeatUntil _ body test => ofStmt body ++ ofExpr test
  | .repeatWhile _ body test => ofStmt body ++ ofExpr test
  | .loopWhile _ pre test post => ofStmt pre ++ ofExpr test ++ ofStmt post
  | .forever _ body => ofStmt body
  | .skip _ => []

def ofStmts : List Stmt → List Deed
  | [] => []
  | s :: ss => ofStmt s ++ ofStmts ss
end

end Deed
end Triangle.Optimize
