import Triangle.Pos
import Triangle.Ty

/-! Trees of programs: expressions, commands, declarations, parameters, arguments and type
signatures. Each node has a position and a slot for its type; a node that names something has
a slot for what the name is bound to. Slots are empty until a tree is checked. -/
namespace Triangle

/-- What every node carries. Nodes with the same twin number are one node that stands in two
places of the tree. -/
structure Info where
  pos : Pos := .none
  ty : Option Ty := none
  twin : Option Nat := none
  deriving Repr, Inhabited

inductive DeclKind where
  | const | var | func | proc | type | valueParam | varParam | funcParam
  deriving DecidableEq, Repr

def DeclKind.text : DeclKind → String
  | const => "ConstDecl"
  | var => "VarDecl"
  | func => "FuncDecl"
  | proc => "ProcDecl"
  | type => "TypeDecl"
  | valueParam => "ValueParam"
  | varParam => "VarParam"
  | funcParam => "FuncParam"

/-- The declaration that a name is bound to. -/
inductive Binding where
  | standard (kind : DeclKind) (name : String)
  | declared (kind : DeclKind) (name : String) (pos : Pos)
  deriving DecidableEq, Repr

def Binding.isStandard : Binding → Bool
  | standard _ _ => true
  | declared _ _ _ => false

inductive Sig where
  | named (info : Info) (name : String)
  | array (info : Info) (length : Int) (elem : Sig)
  | record (info : Info) (fields : List (String × Sig))
  deriving Repr, Inhabited

/-- A routine parameter without a result is a procedure. -/
inductive Param where
  | value (info : Info) (name : String) (sig : Sig)
  | var (info : Info) (name : String) (sig : Sig)
  | func (info : Info) (name : String) (params : List Param) (result : Option Sig)
  deriving Repr, Inhabited

mutual
inductive Expr where
  | int (info : Info) (value : Int)
  | char (info : Info) (value : Char)
  | bool (info : Info) (value : Bool)
  | ident (info : Info) (decl : Option Binding) (name : String)
  | subscript (info : Info) (array index : Expr)
  | select (info : Info) (record : Expr) (field : String)
  | unary (info : Info) (decl : Option Binding) (op : String) (operand : Expr)
  | binary (info : Info) (decl : Option Binding) (op : String) (left right : Expr)
  | call (info : Info) (decl : Option Binding) (name : String) (args : List Arg)
  | cond (info : Info) (test yes no : Expr)
  | letIn (info : Info) (decls : List Decl) (body : Expr)
  | array (info : Info) (elems : List Expr)
  | record (info : Info) (fields : List (String × Expr))

inductive Stmt where
  | assign (info : Info) (target value : Expr)
  | call (info : Info) (decl : Option Binding) (name : String) (args : List Arg)
  | seq (info : Info) (stmts : List Stmt)
  | letIn (info : Info) (decls : List Decl) (body : Stmt)
  | ifThen (info : Info) (test : Expr) (yes : Stmt)
  | ifElse (info : Info) (test : Expr) (yes no : Stmt)
  | whileDo (info : Info) (test : Expr) (body : Stmt)
  | repeatUntil (info : Info) (body : Stmt) (test : Expr)
  | repeatWhile (info : Info) (body : Stmt) (test : Expr)
  /-- Runs `pre`, stops if `test` fails, otherwise runs `post` and starts over. -/
  | loopWhile (info : Info) (pre : Stmt) (test : Expr) (post : Stmt)
  | forever (info : Info) (body : Stmt)
  | skip (info : Info)

inductive Decl where
  | const (info : Info) (name : String) (value : Expr)
  | var (info : Info) (name : String) (sig : Sig)
  | func (info : Info) (name : String) (params : List Param) (result : Sig) (body : Expr)
  | proc (info : Info) (name : String) (params : List Param) (body : Stmt)
  | type (info : Info) (name : String) (sig : Sig)

inductive Arg where
  | value (info : Info) (value : Expr)
  | var (info : Info) (target : Expr)
  | func (info : Info) (decl : Option Binding) (name : String)
end

/-- A program is one command. -/
structure Program where
  body : Stmt

end Triangle
