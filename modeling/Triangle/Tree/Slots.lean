import Triangle.Tree.Basic

/-! Access to what nodes carry. -/
namespace Triangle

def Info.setTy (i : Info) (t : Ty) : Info := { i with ty := some t }

/-- Fills an empty type slot. -/
def Info.fillTy (i : Info) (t : Ty) : Info := if i.ty.isSome then i else i.setTy t

/-- The same for a node made anew, which stands in one place. -/
def Info.alone (i : Info) : Info := { i with twin := none }

namespace Expr

def info : Expr → Info
  | int i _ | char i _ | bool i _ | ident i _ _ | subscript i _ _ | select i _ _ | unary i _ _ _
  | binary i _ _ _ _ | call i _ _ _ | cond i _ _ _ | letIn i _ _ | array i _ | record i _ => i

def setInfo (i : Info) : Expr → Expr
  | int _ value => int i value
  | char _ value => char i value
  | bool _ value => bool i value
  | ident _ decl name => ident i decl name
  | subscript _ base index => subscript i base index
  | select _ base field => select i base field
  | unary _ decl op operand => unary i decl op operand
  | binary _ decl op left right => binary i decl op left right
  | call _ decl name args => call i decl name args
  | cond _ test yes no => cond i test yes no
  | letIn _ decls body => letIn i decls body
  | array _ elems => array i elems
  | record _ fields => record i fields

def pos (e : Expr) : Pos := e.info.pos

def ty? (e : Expr) : Option Ty := e.info.ty

/-- Fills an empty type slot. -/
def fillTy (e : Expr) (t : Ty) : Expr := e.setInfo (e.info.fillTy t)

/-- The name at the root of a variable such as `a[i].f`. -/
def root? : Expr → Option String
  | ident _ _ name => some name
  | subscript _ base _ => base.root?
  | select _ base _ => base.root?
  | _ => none

end Expr

namespace Stmt

def info : Stmt → Info
  | assign i _ _ | call i _ _ _ | seq i _ | letIn i _ _ | ifThen i _ _ | ifElse i _ _ _
  | whileDo i _ _ | repeatUntil i _ _ | repeatWhile i _ _ | loopWhile i _ _ _ | forever i _
  | skip i => i

def pos (s : Stmt) : Pos := s.info.pos

end Stmt

namespace Decl

def info : Decl → Info
  | const i _ _ | var i _ _ | func i _ _ _ _ | proc i _ _ _ | type i _ _ => i

def setInfo (i : Info) : Decl → Decl
  | const _ n value => const i n value
  | var _ n sig => var i n sig
  | func _ n params result body => func i n params result body
  | proc _ n params body => proc i n params body
  | type _ n sig => type i n sig

def name : Decl → String
  | const _ n _ | var _ n _ | func _ n _ _ _ | proc _ n _ _ | type _ n _ => n

def kind : Decl → DeclKind
  | const _ _ _ => .const
  | var _ _ _ => .var
  | func _ _ _ _ _ => .func
  | proc _ _ _ _ => .proc
  | type _ _ _ => .type

def pos (d : Decl) : Pos := d.info.pos

def binding (d : Decl) : Binding := .declared d.kind d.name d.pos

end Decl

namespace Param

def info : Param → Info
  | value i _ _ | var i _ _ | func i _ _ _ => i

def name : Param → String
  | value _ n _ | var _ n _ | func _ n _ _ => n

def kind : Param → DeclKind
  | value _ _ _ => .valueParam
  | var _ _ _ => .varParam
  | func _ _ _ _ => .funcParam

def pos (p : Param) : Pos := p.info.pos

def binding (p : Param) : Binding := .declared p.kind p.name p.pos

end Param

def Arg.info : Arg → Info
  | .value i _ | .var i _ | .func i _ _ => i

def Arg.pos (a : Arg) : Pos := a.info.pos

def Sig.info : Sig → Info
  | .named i _ | .array i _ _ | .record i _ => i

def Sig.pos (s : Sig) : Pos := s.info.pos

end Triangle
