import Triangle.Check.Basic

/-! Checking as a walk with one set of scopes. The walk opens scopes, changes them and closes them as it
goes through the tree, and it stops where it finds a mistake, with whatever scopes are open then. Two
things undo what it has done: closing on every way out, for a routine, and going back to the scopes there
were before, for a block inside an expression. -/
namespace Triangle.Check

/-- Closes a block. -/
def Env.exitBlock (env : Env) : Env := { terms := env.terms.exit, types := env.types.exit }

/-- Closes the scope of a routine's body. -/
def Env.exitRoutine (env : Env) : Env := { env with terms := env.terms.exit }

/-- The open scopes and the mistakes reported so far. -/
structure Analysis where
  env : Env
  reports : List Diagnostic := []

def Analysis.report (s : Analysis) (d : Diagnostic) : Analysis := { s with reports := s.reports ++ [d] }

/-- Reports the mistake that stopped a part of the walk. -/
def Analysis.note {α : Type} (s : Analysis) : Except Diagnostic α → Analysis
  | .ok _ => s
  | .error d => s.report d

/-- A part of the walk, which may stop at a mistake. -/
def Walk (α : Type) : Type := Analysis → Except Diagnostic α × Analysis

namespace Walk
variable {α : Type}

instance : Monad Walk where
  pure a s := (.ok a, s)
  bind w next s :=
    match w s with
    | (.ok a, s) => next a s
    | (.error d, s) => (.error d, s)

/-- What a rule says in the scopes that are open. -/
def ask (rule : Env → Except Diagnostic α) : Walk α := fun s => (rule s.env, s)

def lift (result : Except Diagnostic α) : Walk α := fun s => (result, s)

def stop (c : Complaint) (pos : Pos) : Walk α := lift (.error (c.located pos))

def change (f : Env → Env) : Walk Unit := fun s => (.ok (), { s with env := f s.env })

/-- Closes with `close` after `w`, also where `w` stops. -/
def closing (close : Env → Env) (w : Walk α) : Walk α := fun s =>
  ((w s).1, { (w s).2 with env := close (w s).2.env })

/-- Goes back to the scopes before `w`, also where `w` stops. -/
def restoring (w : Walk α) : Walk α := fun s => ((w s).1, { (w s).2 with env := s.env })

/-- The meaning of a name that must be in scope. -/
def meaning (pos : Pos) (name : String) : Walk Meaning :=
  ask fun env =>
    match env.terms.lookup? name with
    | none => .error ((Complaint.undeclared name).located pos)
    | some m => .ok m

/-- Refuses a name that its scope already holds. -/
def fresh (d : Decl) : Walk Unit :=
  ask fun env =>
    match twice? env d with
    | some e => .error e
    | none => .ok ()

/-- A walk over `target` that takes it as a variable. -/
def assignable (target : Expr) (w : Walk Ty) : Walk Ty :=
  match target.root? with
  | none => stop (.notAVariable target.text) target.pos
  | some root => do
    let t ← w
    ask fun env =>
      if env.terms.isConst root then .error ((Complaint.constant root).located target.pos) else .ok t

/-- A condition, whose mistake is reported. -/
def condition (test : Expr) (w : Walk Ty) : Analysis → Analysis := fun s =>
  match w s with
  | (.error d, s) => s.report d
  | (.ok t, s) =>
    if t.equal .boolean then s
    else s.report ((Complaint.conditionNotBoolean test.text t.deref).located test.pos)

mutual
def expr : Expr → Walk Ty
  | .int i value =>
    if value < minInt ∨ maxInt < value then stop (.integerLiteral value) i.pos else pure .integer
  | .char _ _ => pure .char
  | .bool _ _ => pure .boolean
  | .ident i _ name => do
    let m ← meaning i.pos name
    lift (identRule i.pos name m)
  | .subscript i array index =>
    match array.root? with
    | none => stop (.cannotIndex array.text) i.pos
    | some _ => do
      let base ← expr array
      let elem ← lift (elemRule i.pos array base)
      let t ← expr index
      if t.equal .integer then pure (propagate base elem)
      else stop (.indexNotInteger t.deref) index.pos
  | .select i record field =>
    match record.root? with
    | none => stop (.cannotSelect record.text) i.pos
    | some _ => do
      let base ← expr record
      lift (fieldRule i.pos record field base)
  | .unary i _ op operand => do
    let m ← ask fun env =>
      match env.unary? op with
      | none => .error ((Complaint.undeclared op).located i.pos)
      | some m => .ok m
    let (want, result) ← lift (unaryRule i.pos op m)
    let got ← expr operand
    lift (operandRule i.pos op want result got)
  | .binary i _ op left right => do
    let m ← meaning i.pos op
    let t ← expr left
    let u ← expr right
    lift (binaryRule i.pos op m t u)
  | .call i _ name as => do
    let m ← meaning i.pos name
    let (wants, result) ← lift (functionRule i.pos name m)
    if as.length ≠ wants.length then stop (.arity name wants.length as.length) i.pos
    else do
      args name 1 wants as
      pure result
  | .cond i test yes no => do
    let t ← expr test
    if !t.equal .boolean then stop (.conditionNotBoolean test.text t.deref) test.pos
    else do
      let u ← expr yes
      let v ← expr no
      if u.equal v then pure u.deref else stop (.branchesDiffer u.deref v.deref) i.pos
  | .letIn _ ds body => restoring do
    change Env.enterBlock
    decls ds
    let t ← expr body
    pure t.deref
  | .array i elems =>
    match elems with
    | [] => stop .emptyArrayLiteral i.pos
    | e :: es => do
      let t ← expr e
      elements t.deref 1 es
      pure (.array (es.length + 1 : Nat) t.deref)
  | .record i fields => do
    let ts ← recordFields i.pos [] fields
    pure (.ofFields ts)

def elements (want : Ty) (index : Nat) : List Expr → Walk Unit
  | [] => pure ()
  | e :: es => do
    let t ← expr e
    if !t.deref.equal want then stop (.elementMismatch index t.deref want) e.pos
    else elements want (index + 1) es

def recordFields (pos : Pos) (seen : List String) : List (String × Expr) → Walk (List (String × Ty))
  | [] => pure []
  | (name, e) :: rest =>
    if name ∈ seen then stop (.duplicateField name) pos
    else do
      let t ← expr e
      let ts ← recordFields pos (name :: seen) rest
      pure ((name, t.deref) :: ts)

def args (callee : String) (index : Nat) (wants : List Ty) : List Arg → Walk Unit
  | [] => pure ()
  | a :: as =>
    match wants with
    | [] => pure ()
    | want :: wants => do
      arg callee index want a
      args callee (index + 1) wants as

def arg (callee : String) (index : Nat) (want : Ty) : Arg → Walk Unit
  | .value i value =>
    match want with
    | .ref _ => stop (.notAVarArgument index callee) i.pos
    | .func _ _ => stop (.notARoutineArgument index callee) i.pos
    | want => do
      let got ← expr value
      if got.equal want then pure () else stop (.argumentMismatch index callee want got.deref) i.pos
  | .var i target =>
    match want with
    | .ref inner => do
      let t ← assignable target (expr target)
      if t.deref.equal inner then pure ()
      else stop (.varArgumentMismatch index callee inner t.deref) i.pos
    | .func _ _ => stop (.notARoutineArgument index callee) i.pos
    | _ => stop (.notAValueArgument index callee) i.pos
  | .func i decl name =>
    match want with
    | .ref _ => stop (.notAVarArgument index callee) i.pos
    | .func ps r => ask fun env => (routineArgument env callee index (.func ps r) i decl name).result
    | _ => stop (.notAValueArgument index callee) i.pos

/-- Declarations of an expression: the first mistake stops the walk. -/
def decls : List Decl → Walk Unit
  | [] => pure ()
  | d :: ds => do
    decl d
    decls ds

/-- Declarations of a command: a mistake is reported, and the name bound all the same. -/
def declsOfStmt : List Decl → Analysis → Analysis
  | [] => id
  | d :: ds => fun s =>
    match decl d s with
    | (.ok (), s) => declsOfStmt ds s
    | (.error e, s) => declsOfStmt ds { s.report e with env := (fallback s.env d).2 }

def decl : Decl → Walk Unit
  | .const i name value => do
    fresh (.const i name value)
    let t ← expr value
    change (·.addConst name (.typed t.deref (.declared .const name i.pos)))
  | .var i name s => do
    fresh (.var i name s)
    let t ← ask fun env => (sig env s).result
    change (·.addVar name (.typed t (.declared .var name i.pos)))
  | .type i name s => do
    fresh (.type i name s)
    let t ← ask fun env => (sig env s).result
    change (·.addType name t)
  | .func i name ps result body => do
    fresh (.func i name ps result body)
    let ts ← ask fun env => (params env [] ps).result
    let r ← ask fun env => (sig env result).result
    change (·.addConst name (.typed (.func ts r) (.declared .func name i.pos)))
    change Env.enterRoutine
    closing Env.exitRoutine do
      change (·.bindParams ps ts)
      let t ← expr body
      if t.equal r then pure () else stop (.bodyMismatch name r t.deref) body.pos
  | .proc i name ps body => do
    fresh (.proc i name ps body)
    let ts ← ask fun env => (params env [] ps).result
    change (·.addConst name (.typed (.func ts .void) (.declared .proc name i.pos)))
    change Env.enterRoutine
    closing Env.exitRoutine do
      change (·.bindParams ps ts)
      fun s => (.ok (), stmt body s)

def stmt : Stmt → Analysis → Analysis
  | .assign i target value => fun s =>
    let (left, s) := assignable target (expr target) s
    let (right, s) := expr value s
    let s := (s.note left).note right
    match left, right with
    | .ok t, .ok v =>
      if t.equal v then s
      else s.report ((Complaint.assignMismatch v.deref target.text t.deref).located i.pos)
    | _, _ => s
  | .call i _ name as => fun s =>
    let call : Walk Unit := do
      let m ← meaning i.pos name
      let wants ← lift (procedureRule i.pos name m)
      if as.length ≠ wants.length then stop (.arity name wants.length as.length) i.pos
      else args name 1 wants as
    let (result, s) := call s
    s.note result
  | .seq _ ss => stmts ss
  | .letIn _ ds body => fun s =>
    let s := declsOfStmt ds { s with env := s.env.enterBlock }
    let s := stmt body s
    { s with env := s.env.exitBlock }
  | .ifThen _ test yes => fun s => stmt yes (condition test (expr test) s)
  | .ifElse _ test yes no => fun s => stmt no (stmt yes (condition test (expr test) s))
  | .whileDo _ test body => fun s => stmt body (condition test (expr test) s)
  | .repeatUntil _ body test => fun s => condition test (expr test) (stmt body s)
  | .repeatWhile _ body test => fun s => condition test (expr test) (stmt body s)
  | .loopWhile _ pre test post => fun s => stmt post (condition test (expr test) (stmt pre s))
  | .forever _ body => stmt body
  | .skip _ => id

def stmts : List Stmt → Analysis → Analysis
  | [] => id
  | s :: ss => fun a => stmts ss (stmt s a)
end

end Walk
end Triangle.Check
