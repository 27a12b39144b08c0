import Triangle.Optimize.Effects
import Triangle.Optimize.Entry
import Triangle.Optimize.Fold
import Triangle.Text.Blank
import Triangle.Text.Numeral
import Triangle.Text.StandIn
import Triangle.Tree.Twin

/-! Loop-invariant expressions move out of loops, into constants declared just before them. An
expression is invariant if it is a standard operator over literals and over names that the loop
cannot change. One that may trap moves only if every entry into the loop evaluates it; a while loop
with such a constant becomes a repeat loop under a test, so that the constant is computed only if
the body would run. -/
namespace Triangle.Optimize.Hoist

/-! ## Invariant expressions -/

/-- Operators that do not look at the state. Division is not among them: it traps on zero. -/
def pureBinary : List String := ["+", "-", "*", "<", "<=", ">", ">=", "=", "\\=", "/\\", "\\/"]
def pureUnary : List String := ["\\", "-"]
def pureCalls : List String := ["chr", "ord"]

/-- What can be read before the loop starts: a literal, or a name that the loop does not change. A
reference cannot, since the loop may change its variable under another name. -/
def isOperand (mutated : List String) : Expr → Bool
  | .int _ _ | .char _ _ | .bool _ _ => true
  | .ident i _ name =>
    match i.ty with
    | some t => name ∉ mutated && !t.isRef && !t.isFunc
    | none => false
  | _ => false

def isInvariant (mutated : List String) : Expr → Bool
  | .binary _ decl op left right =>
    op ∈ pureBinary && decl.any Binding.isStandard && isOperand mutated left &&
      isOperand mutated right
  | .unary _ decl op operand =>
    op ∈ pureUnary && decl.any Binding.isStandard && isOperand mutated operand
  | .call _ decl name [.value _ e] =>
    name ∈ pureCalls && decl.any Binding.isStandard && isOperand mutated e
  | _ => false

/-- Integer arithmetic may trap, unless it is over literals and its result is a word. -/
def mayTrap : Expr → Bool
  | .binary _ _ op left right =>
    match Fold.arithmetic? op, left, right with
    | none, _, _ => false
    | some f, .int _ a, .int _ b => (f (.truncate a) (.truncate b)).isNone
    | _, _, _ => true
  | .unary _ _ "-" (.int _ a) => a == Word.least
  | .unary _ _ op _ => op == "-"
  | _ => false

/-! ## Extraction from one loop -/

structure Extraction where
  next : Int
  decls : List Decl := []
  guarded : Bool := false

/-- What is known of the loop. -/
structure Loop where
  mutated : List String
  sure : List Path

abbrev Extract := StateM Extraction

def constName (k : Int) : String := s!"$h{k}"

/-- Replaces an invariant expression by a new constant. -/
def extract (loop : Loop) (path : Path) (e : Expr) : Extract Expr := do
  if !isInvariant loop.mutated e then return e
  if mayTrap e && path ∉ loop.sure then return e
  let s ← get
  let d := Decl.const e.info (constName s.next) e
  set { s with
    next := wrap64 (s.next + 1), decls := s.decls ++ [d], guarded := s.guarded || mayTrap e }
  return .ident e.info (some d.binding) d.name

namespace Extract

mutual
def expr (loop : Loop) (path : Path) : Expr → Extract Expr
  | .int i value => pure (.int i.alone value)
  | .char i value => pure (.char i.alone value)
  | .bool i value => pure (.bool i.alone value)
  | .ident i decl name => pure (.ident i.alone decl name)
  | .subscript i array index =>
    return .subscript i.alone (← expr loop (0 :: path) array) (← expr loop (1 :: path) index)
  | .select i record field => return .select i.alone (← expr loop (0 :: path) record) field
  | .unary i decl op operand => do
    extract loop path (.unary i.alone decl op (← expr loop (0 :: path) operand))
  | .binary i decl op left right => do
    extract loop path
      (.binary i.alone decl op (← expr loop (0 :: path) left) (← expr loop (1 :: path) right))
  | .call i decl name as => do extract loop path (.call i.alone decl name (← args loop path 0 as))
  | .cond i test yes no =>
    return .cond i.alone (← expr loop (0 :: path) test) (← expr loop (1 :: path) yes)
      (← expr loop (2 :: path) no)
  | .letIn i ds body =>
    return .letIn i.alone (← decls loop path 1 ds) (← expr loop (0 :: path) body)
  | .array i elems => return .array i.alone (← exprs loop path 0 elems)
  | .record i fields => return .record i.alone (← fieldExprs loop path 0 fields)

def exprs (loop : Loop) (path : Path) (k : Nat) : List Expr → Extract (List Expr)
  | [] => pure []
  | e :: es => return (← expr loop (k :: path) e) :: (← exprs loop path (k + 1) es)

def fieldExprs (loop : Loop) (path : Path) (k : Nat) :
    List (String × Expr) → Extract (List (String × Expr))
  | [] => pure []
  | (name, e) :: rest =>
    return (name, ← expr loop (k :: path) e) :: (← fieldExprs loop path (k + 1) rest)

def args (loop : Loop) (path : Path) (k : Nat) : List Arg → Extract (List Arg)
  | [] => pure []
  | a :: as => return (← arg loop (k :: path) a) :: (← args loop path (k + 1) as)

def arg (loop : Loop) (path : Path) : Arg → Extract Arg
  | .value i value => return .value i.alone (← expr loop path value)
  | .var i target => return .var i.alone (← expr loop path target)
  | .func i decl name => pure (.func i.alone decl name)

def decls (loop : Loop) (path : Path) (k : Nat) : List Decl → Extract (List Decl)
  | [] => pure []
  | d :: ds => return (← decl loop (k :: path) d) :: (← decls loop path (k + 1) ds)

/-- The body of a routine does not run where it is declared, and is left alone. -/
def decl (loop : Loop) (path : Path) : Decl → Extract Decl
  | .const i name value => return .const i.alone name (← expr loop path value)
  | .var i name sig => pure (.var i.alone name sig)
  | .type i name sig => pure (.type i.alone name sig)
  | d => pure d
end

mutual
def stmt (loop : Loop) (path : Path) : Stmt → Extract Stmt
  | .assign i target value =>
    return .assign i.alone (← expr loop (0 :: path) target) (← expr loop (1 :: path) value)
  | .call i decl name as => return .call i.alone decl name (← args loop path 0 as)
  | .seq i ss => return .seq i.alone (← stmts loop path 0 ss)
  | .letIn i ds body =>
    return .letIn i.alone (← decls loop path 1 ds) (← stmt loop (0 :: path) body)
  | .ifThen i test yes =>
    return .ifThen i.alone (← expr loop (0 :: path) test) (← stmt loop (1 :: path) yes)
  | .ifElse i test yes no =>
    return .ifElse i.alone (← expr loop (0 :: path) test) (← stmt loop (1 :: path) yes)
      (← stmt loop (2 :: path) no)
  | .whileDo i test body =>
    return .whileDo i.alone (← expr loop (0 :: path) test) (← stmt loop (1 :: path) body)
  | .repeatUntil i body test =>
    return .repeatUntil i.alone (← stmt loop (0 :: path) body) (← expr loop (1 :: path) test)
  | .repeatWhile i body test =>
    return .repeatWhile i.alone (← stmt loop (0 :: path) body) (← expr loop (1 :: path) test)
  | .loopWhile i pre test post =>
    return .loopWhile i.alone (← stmt loop (0 :: path) pre) (← expr loop (1 :: path) test)
      (← stmt loop (2 :: path) post)
  | .forever i body => return .forever i.alone (← stmt loop (0 :: path) body)
  | .skip i => pure (.skip i.alone)

def stmts (loop : Loop) (path : Path) (k : Nat) : List Stmt → Extract (List Stmt)
  | [] => pure []
  | s :: ss => return (← stmt loop (k :: path) s) :: (← stmts loop path (k + 1) ss)
end

end Extract

/-- Puts the constants of a loop before it. -/
def wrap (s body : Stmt) (x : Extraction) : Stmt :=
  let i := s.info.alone
  match x.guarded, s, body with
  | true, .whileDo _ test _, .whileDo _ newTest newBody =>
    .ifThen i test (.letIn i x.decls (.repeatWhile i newBody newTest))
  | _, _, _ => .letIn i x.decls body

/-! ## The tree -/

/-- The routines that are known, the numbers of the next constant and the next twin, and how many
constants are new. -/
structure State where
  known : Effects.Known := {}
  next : Int
  twin : Nat
  hoisted : Nat := 0

abbrev Hoisting := StateM State

def summarizing {α : Type} (x : Effects.Summarize α) : Hoisting α :=
  modifyGet fun s =>
    let (a, known) := x.run s.known
    (a, { s with known })

/-- Numbers the test of a while loop, whose routines and signatures stand in two places if the loop
becomes a repeat loop under its test. -/
def numberTest : Stmt → Hoisting Stmt
  | .whileDo i test body => modifyGet fun s =>
    let (test, twin) := test.number.run s.twin
    (.whileDo i test body, { s with twin })
  | s => pure s

/-- The deeds of a loop with its constants put before it. The test of a while loop that becomes a
repeat loop also stands outside. -/
def wrapDeeds (s : Stmt) (test loop : List Deed) (x : Extraction) : List Deed :=
  let inside := Deed.block (Deed.ofDecls x.decls ++ loop)
  match x.guarded, s with
  | true, .whileDo _ _ _ => test ++ [inside]
  | _, _ => [inside]

/-- Hoists out of one loop, whose inner loops are done and whose deeds are `first`, then `rest`.
Also returns the deeds of what the loop becomes. -/
def loop (scope : Effects.Callees) (s : Stmt) (first rest : List Deed) :
    Hoisting (Stmt × List Deed) := do
  let (deeds, summary) ← summarizing (Effects.deeds scope (first ++ rest))
  match (← get).known.summaries.closure summary with
  | none => return (s, deeds)
  | some mutated =>
    let numbered ← numberTest s
    let state ← get
    let (body, x) := (Extract.stmt ⟨mutated, entered s⟩ [] numbered).run { next := state.next }
    if x.decls.isEmpty then return (s, deeds)
    set { state with next := x.next, hoisted := state.hoisted + x.decls.length }
    return (wrap numbered body x, wrapDeeds s (deeds.take first.length) deeds x)

/-- Where a command stands: the routines that its names stand for, and whether it is in the body
of a routine. -/
structure Place where
  scope : Effects.Callees
  inRoutine : Bool

namespace Place

def block (p : Place) : Place := { p with scope := p.scope.enterBlock }

def bind (p : Place) (name : String) : Place := { p with scope := p.scope.add name .none }

/-- The deeds of what holds no loop. Routines in the body of another are known with it; those
outside of all become known with the first loop around them. -/
def deeds (p : Place) (ds : List Deed) : Hoisting (List Deed) := do
  if p.inRoutine then return (← summarizing (Effects.deeds p.scope ds)).1
  return ds

/-- Makes a routine known. -/
def routine (p : Place) (d : Deed) : Hoisting (Place × Deed) := do
  let (scope, d, _) ← summarizing (Effects.deed p.scope d)
  return ({ p with scope }, d)

end Place

mutual
def stmt (p : Place) : Stmt → Hoisting (Stmt × List Deed)
  | .letIn i ds body => do
    let (inner, ds, declared) ← decls p.block ds
    let (body, done) ← stmt inner body
    return (.letIn i ds body, [.block (declared ++ done)])
  | .seq i ss => do
    let (ss, done) ← stmts p ss
    return (.seq i ss, done)
  | .ifThen i test yes => do
    let tested ← p.deeds (Deed.ofExpr test)
    let (yes, done) ← stmt p yes
    return (.ifThen i test yes, tested ++ done)
  | .ifElse i test yes no => do
    let tested ← p.deeds (Deed.ofExpr test)
    let (yes, done) ← stmt p yes
    let (no, other) ← stmt p no
    return (.ifElse i test yes no, tested ++ done ++ other)
  | .whileDo i test body => do
    let tested ← p.deeds (Deed.ofExpr test)
    let (body, done) ← stmt p body
    loop p.scope (.whileDo i test body) tested done
  | .repeatUntil i body test => do
    let (body, done) ← stmt p body
    loop p.scope (.repeatUntil i body test) done (← p.deeds (Deed.ofExpr test))
  | .repeatWhile i body test => do
    let (body, done) ← stmt p body
    loop p.scope (.repeatWhile i body test) done (← p.deeds (Deed.ofExpr test))
  | .loopWhile i pre test post => do
    let (pre, done) ← stmt p pre
    let tested ← p.deeds (Deed.ofExpr test)
    let (post, other) ← stmt p post
    loop p.scope (.loopWhile i pre test post) (done ++ tested) other
  | .forever i body => do
    let (body, done) ← stmt p body
    loop p.scope (.forever i body) done []
  | .assign i target value =>
    return (.assign i target value, ← p.deeds (Deed.ofStmt (.assign i target value)))
  | .call i decl name as =>
    return (.call i decl name as, ← p.deeds (Deed.ofStmt (.call i decl name as)))
  | .skip i => pure (.skip i, [])

def stmts (p : Place) : List Stmt → Hoisting (List Stmt × List Deed)
  | [] => pure ([], [])
  | s :: ss => do
    let (s, done) ← stmt p s
    let (ss, others) ← stmts p ss
    return (s :: ss, done ++ others)

def decls (p : Place) : List Decl → Hoisting (Place × List Decl × List Deed)
  | [] => pure (p, [], [])
  | d :: ds => do
    let (next, d, done) ← decl p d
    let (final, ds, others) ← decls next ds
    return (final, d :: ds, done ++ others)

/-- Only the body of a procedure can hold loops. It is a new routine once they are done. -/
def decl (p : Place) : Decl → Hoisting (Place × Decl × List Deed)
  | .const i name value => do
    let next := p.bind name
    return (next, .const i name value, .declares name :: (← next.deeds (Deed.ofExpr value)))
  | .var i name sig => pure (p.bind name, .var i name sig, [.declares name])
  | .func i name params result body => do
    let (next, known) ← p.routine (.newRoutine i.twin name params (Deed.ofExpr body))
    return (next, .func i name params result body, [known])
  | .proc i name params body => do
    let (next, _) ← p.routine (.newRoutine i.twin name params (Deed.ofStmt body))
    let (body, done) ← stmt ⟨next.scope.inside params, true⟩ body
    return (next, .proc i.alone name params body, [.newRoutine none name params done])
  | .type i name sig => pure (p, .type i name sig, [.assigns name])
end

/-! ## Names of new constants -/

/-- The number in the name of a constant that an earlier run introduced. Blanks, but no end of
line, may stand before it and anything after it. -/
def constNumber? (name : String) : Option Int :=
  match name.toList with
  | '$' :: 'h' :: rest =>
    let rest := rest.dropWhile fun c => Text.isBlank c && c != '\n'
    let (sign, rest) := match rest with
      | '-' :: rest => (['-'], rest)
      | '+' :: rest => (['+'], rest)
      | rest => ([], rest)
    (Text.Numeral.ofDecimal 64 (sign ++ rest.takeWhile Char.isDigit)).toOption
  | _ => none

/-- A number above all that constants of the program already use. -/
def firstNumber (form : Text.Form) (p : Program) : Int :=
  p.nodes.foldl (fun next node =>
    match node with
    | .decl (.const _ name _) =>
      match constNumber? (form.gather name) with
      | some k => if next ≤ k then wrap64 (k + 1) else next
      | none => next
    | _ => next) 0

end Triangle.Optimize.Hoist

namespace Triangle

/-- The program with invariant expressions moved out of loops, and the number of new constants. Its
names are written in `form`. -/
def Program.hoist (p : Program) (form : Text.Form) : Optimize.Tally Program :=
  let ((body, _), s) := (Optimize.Hoist.stmt ⟨.new 0, false⟩ p.body).run
    { next := Optimize.Hoist.firstNumber form p, twin := p.nextTwin }
  { value := ⟨body⟩, count := s.hoisted }

end Triangle
