import Triangle.Tree.Nodes

/-! Nodes that stand in two places of a tree. Both places carry the same number, and what fills the
slots in one place fills them in the other. -/
namespace Triangle

/-- What a node carries, with what it is bound to if it names something. -/
structure Slots where
  info : Info
  decl : Option Binding := none

def Node.slots (n : Node) : Slots := { info := n.info, decl := n.slot?.join }

section
variable {m : Type → Type} [Monad m]

mutual
/-- Changes the slots of every node. -/
def Sig.mapSlots (f : Slots → m Slots) : Sig → m Sig
  | .named i name => return .named (← f { info := i }).info name
  | .array i length elem => return .array (← f { info := i }).info length (← elem.mapSlots f)
  | .record i fields => return .record (← f { info := i }).info (← Sig.mapFieldSlots f fields)

def Sig.mapFieldSlots (f : Slots → m Slots) : List (String × Sig) → m (List (String × Sig))
  | [] => pure []
  | (name, sig) :: rest => return (name, ← sig.mapSlots f) :: (← Sig.mapFieldSlots f rest)
end

mutual
def Param.mapSlots (f : Slots → m Slots) : Param → m Param
  | .value i name sig => return .value (← f { info := i }).info name (← sig.mapSlots f)
  | .var i name sig => return .var (← f { info := i }).info name (← sig.mapSlots f)
  | .func i name params result => do
    let i := (← f { info := i }).info
    let params ← Param.mapListSlots f params
    match result with
    | some sig => return .func i name params (some (← sig.mapSlots f))
    | none => return .func i name params none

def Param.mapListSlots (f : Slots → m Slots) : List Param → m (List Param)
  | [] => pure []
  | p :: ps => return (← p.mapSlots f) :: (← Param.mapListSlots f ps)
end

mutual
def Expr.mapSlots (f : Slots → m Slots) : Expr → m Expr
  | .int i value => return .int (← f { info := i }).info value
  | .char i value => return .char (← f { info := i }).info value
  | .bool i value => return .bool (← f { info := i }).info value
  | .ident i decl name => do
    let s ← f ⟨i, decl⟩
    return .ident s.info s.decl name
  | .subscript i array index =>
    return .subscript (← f { info := i }).info (← array.mapSlots f) (← index.mapSlots f)
  | .select i record field =>
    return .select (← f { info := i }).info (← record.mapSlots f) field
  | .unary i decl op operand => do
    let s ← f ⟨i, decl⟩
    return .unary s.info s.decl op (← operand.mapSlots f)
  | .binary i decl op left right => do
    let s ← f ⟨i, decl⟩
    return .binary s.info s.decl op (← left.mapSlots f) (← right.mapSlots f)
  | .call i decl name as => do
    let s ← f ⟨i, decl⟩
    return .call s.info s.decl name (← Arg.mapListSlots f as)
  | .cond i test yes no =>
    return .cond (← f { info := i }).info (← test.mapSlots f) (← yes.mapSlots f) (← no.mapSlots f)
  | .letIn i ds body =>
    return .letIn (← f { info := i }).info (← Decl.mapListSlots f ds) (← body.mapSlots f)
  | .array i elems => return .array (← f { info := i }).info (← Expr.mapListSlots f elems)
  | .record i fields => return .record (← f { info := i }).info (← Expr.mapFieldSlots f fields)

def Expr.mapListSlots (f : Slots → m Slots) : List Expr → m (List Expr)
  | [] => pure []
  | e :: es => return (← e.mapSlots f) :: (← Expr.mapListSlots f es)

def Expr.mapFieldSlots (f : Slots → m Slots) : List (String × Expr) → m (List (String × Expr))
  | [] => pure []
  | (name, e) :: rest => return (name, ← e.mapSlots f) :: (← Expr.mapFieldSlots f rest)

def Stmt.mapSlots (f : Slots → m Slots) : Stmt → m Stmt
  | .assign i target value =>
    return .assign (← f { info := i }).info (← target.mapSlots f) (← value.mapSlots f)
  | .call i decl name as => do
    let s ← f ⟨i, decl⟩
    return .call s.info s.decl name (← Arg.mapListSlots f as)
  | .seq i ss => return .seq (← f { info := i }).info (← Stmt.mapListSlots f ss)
  | .letIn i ds body =>
    return .letIn (← f { info := i }).info (← Decl.mapListSlots f ds) (← body.mapSlots f)
  | .ifThen i test yes =>
    return .ifThen (← f { info := i }).info (← test.mapSlots f) (← yes.mapSlots f)
  | .ifElse i test yes no =>
    return .ifElse (← f { info := i }).info (← test.mapSlots f) (← yes.mapSlots f)
      (← no.mapSlots f)
  | .whileDo i test body =>
    return .whileDo (← f { info := i }).info (← test.mapSlots f) (← body.mapSlots f)
  | .repeatUntil i body test =>
    return .repeatUntil (← f { info := i }).info (← body.mapSlots f) (← test.mapSlots f)
  | .repeatWhile i body test =>
    return .repeatWhile (← f { info := i }).info (← body.mapSlots f) (← test.mapSlots f)
  | .loopWhile i pre test post =>
    return .loopWhile (← f { info := i }).info (← pre.mapSlots f) (← test.mapSlots f)
      (← post.mapSlots f)
  | .forever i body => return .forever (← f { info := i }).info (← body.mapSlots f)
  | .skip i => return .skip (← f { info := i }).info

def Stmt.mapListSlots (f : Slots → m Slots) : List Stmt → m (List Stmt)
  | [] => pure []
  | s :: ss => return (← s.mapSlots f) :: (← Stmt.mapListSlots f ss)

def Decl.mapSlots (f : Slots → m Slots) : Decl → m Decl
  | .const i name value => return .const (← f { info := i }).info name (← value.mapSlots f)
  | .var i name sig => return .var (← f { info := i }).info name (← sig.mapSlots f)
  | .func i name params result body =>
    return .func (← f { info := i }).info name (← Param.mapListSlots f params)
      (← result.mapSlots f) (← body.mapSlots f)
  | .proc i name params body =>
    return .proc (← f { info := i }).info name (← Param.mapListSlots f params) (← body.mapSlots f)
  | .type i name sig => return .type (← f { info := i }).info name (← sig.mapSlots f)

def Decl.mapListSlots (f : Slots → m Slots) : List Decl → m (List Decl)
  | [] => pure []
  | d :: ds => return (← d.mapSlots f) :: (← Decl.mapListSlots f ds)

def Arg.mapSlots (f : Slots → m Slots) : Arg → m Arg
  | .value i value => return .value (← f { info := i }).info (← value.mapSlots f)
  | .var i target => return .var (← f { info := i }).info (← target.mapSlots f)
  | .func i decl name => do
    let s ← f ⟨i, decl⟩
    return .func s.info s.decl name

def Arg.mapListSlots (f : Slots → m Slots) : List Arg → m (List Arg)
  | [] => pure []
  | a :: as => return (← a.mapSlots f) :: (← Arg.mapListSlots f as)
end

end

/-- Takes the next twin number, unless the node has one. -/
def Slots.number (s : Slots) : StateM Nat Slots := do
  if s.info.twin.isSome then return s
  let k ← getModify (· + 1)
  return { s with info := { s.info with twin := some k } }

/-- Numbers the nodes of an expression that comes to stand in two places. -/
def Expr.number (e : Expr) : StateM Nat Expr := e.mapSlots Slots.number

namespace Program

/-- The slots of the nodes with a twin number, in the order of the tree. -/
def twins (p : Program) : List (Nat × Slots) :=
  p.nodes.filterMap fun n => n.info.twin.map (·, n.slots)

/-- A number above those of all twins. -/
def nextTwin (p : Program) : Nat := p.twins.foldl (fun next (k, _) => max next (k + 1)) 0

/-- Fills the slots of twins as `known` has them. -/
def fillTwins (known : List (Nat × Slots)) (p : Program) : Program :=
  ⟨Id.run <| p.body.mapSlots fun s => pure ((s.info.twin.bind (known.lookup ·)).getD s)⟩

end Program
end Triangle
