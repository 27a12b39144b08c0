import Triangle.Check.Signature
import Triangle.Tree.Printer

/-! Checking: every name is bound to its declaration and every node gets its type. Checking of
an expression or declaration stops at its first error, which goes to the command around it. A
command never fails: it reports the error and goes on, so that one run finds every independent
mistake. -/
namespace Triangle.Check
open Checked

/-! ## Rules for types -/

/-- The type of a component of a variable of type `base`. -/
def propagate (base elem : Ty) : Ty := if base.isRef then elem.refOf else elem

def identRule (pos : Pos) (name : String) : Meaning → Except Diagnostic Ty
  | .equality _ => .error ((Complaint.functionAsValue name).located pos)
  | .typed t _ =>
    if t.isFunc then .error ((Complaint.functionAsValue name).located pos) else .ok t

/-- The element type of an array. -/
def elemRule (pos : Pos) (array : Expr) (t : Ty) : Except Diagnostic Ty :=
  match t.deref with
  | .array _ elem => .ok elem
  | _ => .error ((Complaint.notAnArray array.text).located pos)

def fieldRule (pos : Pos) (record : Expr) (field : String) (t : Ty) : Except Diagnostic Ty :=
  match t.deref with
  | .record fields =>
    match Ty.field? field 0 fields with
    | some (f, _) => .ok (propagate t f)
    | none => .error ((Complaint.noField (.record fields) field).located pos)
  | _ => .error ((Complaint.notARecord record.text).located pos)

/-- The parameter and the result of an operator in front of an operand. -/
def unaryRule (pos : Pos) (op : String) (m : Meaning) : Except Diagnostic (Ty × Ty) :=
  match m.signature? with
  | some ([p], result) => .ok (p, result)
  | _ => .error ((Complaint.notUnary op).located pos)

def operandRule (pos : Pos) (op : String) (want result got : Ty) : Except Diagnostic Ty :=
  if got.equal want then .ok result
  else .error ((Complaint.operandMismatch op want got.deref).located pos)

def binaryRule (pos : Pos) (op : String) (m : Meaning) (left right : Ty) : Except Diagnostic Ty :=
  match m with
  | .equality _ =>
    if left.equal right then .ok .boolean
    else .error ((Complaint.operandsDiffer op left.deref right.deref).located pos)
  | m =>
    match m.signature? with
    | some ([p, q], result) =>
      if left.equal p && right.equal q then .ok result
      else .error ((Complaint.operandsMismatch op p q left.deref right.deref).located pos)
    | _ => .error ((Complaint.notBinary op).located pos)

/-- The parameters and the result of a function that is called. -/
def functionRule (pos : Pos) (name : String) (m : Meaning) : Except Diagnostic (List Ty × Ty) :=
  match m.signature? with
  | none => .error ((Complaint.notAFunction name).located pos)
  | some (_, .void) => .error ((Complaint.procedureNotFunction name).located pos)
  | some (params, result) => .ok (params, result)

/-- The parameters of a procedure that is called. -/
def procedureRule (pos : Pos) (name : String) (m : Meaning) : Except Diagnostic (List Ty) :=
  match m.signature? with
  | none => .error ((Complaint.notAProcedure name).located pos)
  | some (params, .void) => .ok params
  | some _ => .error ((Complaint.functionNotProcedure name).located pos)

/-- A routine that is passed as an argument. -/
def routineArgument (env : Env) (callee : String) (index : Nat) (want : Ty) (i : Info)
    (decl : Option Binding) (name : String) : Checked Arg Unit :=
  match env.terms.lookup? name with
  | none => fail (.func i decl name) ((Complaint.undeclared name).located i.pos)
  | some (.typed (.func ps r) d) =>
    if (Ty.func ps r).identical want then pass (.func (i.setTy (.func ps r)) (some d) name) ()
    else
      fail (.func i decl name)
        ((Complaint.argumentMismatch index callee want (.func ps r)).located i.pos)
  | some _ => fail (.func i decl name) ((Complaint.notARoutine name).located i.pos)

/-- A checked expression taken as a variable: its root must be a name that can be assigned to. -/
def asVariable (env : Env) (target : Expr) (checked : Checked Expr Ty) : Checked Expr Ty :=
  match target.root? with
  | none => fail target ((Complaint.notAVariable target.text).located target.pos)
  | some root =>
    checked.andThen id fun e t =>
      if env.terms.isConst root then fail e ((Complaint.constant root).located target.pos)
      else pass e t

/-! ## Commands around a failure -/

/-- Reports the error of a checked expression; an expression without a type gets `void`. -/
def settled (checked : Checked Expr Ty) : Expr × List Diagnostic :=
  match checked.result with
  | .ok _ => (checked.node, [])
  | .error d => (checked.node.fillTy .void, [d])

def conditionReports (test : Expr) (checked : Checked Expr Ty) : Expr × List Diagnostic :=
  match checked.result with
  | .ok t =>
    if t.equal .boolean then (checked.node, checked.reports)
    else
      (checked.node,
        checked.reports ++ [(Complaint.conditionNotBoolean test.text t.deref).located test.pos])
  | .error d => (checked.node.fillTy .void, checked.reports ++ [d])

def assignReports (pos : Pos) (target : Expr) (left right : Checked Expr Ty) : List Diagnostic :=
  match left.result, right.result with
  | .ok t, .ok v =>
    if t.equal v then [] else [(Complaint.assignMismatch v.deref target.text t.deref).located pos]
  | _, _ => []

/-- The environment and the node after a declaration, and whether it failed. -/
structure Declared where
  node : Decl
  env : Env
  result : Except Diagnostic Unit
  reports : List Diagnostic := []

/-- Binds the name of a failed declaration, so that its uses are not undeclared. -/
def fallback (env : Env) (d : Decl) : Decl × Env :=
  let d := d.setInfo (d.info.fillTy .void)
  let m := Meaning.typed .void d.binding
  match d with
  | .type _ name _ => (d, if env.types.declaredHere name then env else env.addType name .void)
  | .var _ name _ => (d, if env.terms.declaredHere name then env else env.addVar name m)
  | d => (d, if env.terms.declaredHere d.name then env else env.addConst d.name m)

/-- Refuses a name that its scope already holds. -/
def twice? (env : Env) (d : Decl) : Option Diagnostic :=
  match d with
  | .type i name _ =>
    if env.types.declaredHere name then some ((Complaint.typeDeclaredTwice name).located i.pos)
    else none
  | d =>
    if env.terms.declaredHere d.name then some ((Complaint.declaredTwice d.name).located d.pos)
    else none

/-! ## The tree -/

mutual
def expr (env : Env) : Expr → Checked Expr Ty
  | .int i value =>
    settle (.int · value) i <|
      if value < minInt ∨ maxInt < value then
        .error ((Complaint.integerLiteral value).located i.pos)
      else .ok .integer
  | .char i value => settle (.char · value) i (.ok .char)
  | .bool i value => settle (.bool · value) i (.ok .boolean)
  | .ident i decl name =>
    match env.terms.lookup? name with
    | none => fail (.ident i decl name) ((Complaint.undeclared name).located i.pos)
    | some m =>
      match identRule i.pos name m with
      | .error d => fail (.ident i decl name) d
      | .ok t => settle (.ident · (some m.decl) name) i (.ok t)
  | .subscript i array index =>
    match array.root? with
    | none => fail (.subscript i array index) ((Complaint.cannotIndex array.text).located i.pos)
    | some _ =>
      (expr env array).andThen (.subscript i · index) fun array' base =>
        match elemRule i.pos array base with
        | .error d => fail (.subscript i array' index) d
        | .ok elem =>
          (expr env index).andThen (.subscript i array' ·) fun index' t =>
            settle (.subscript · array' index') i <|
              if t.equal .integer then .ok (propagate base elem)
              else .error ((Complaint.indexNotInteger t.deref).located index.pos)
  | .select i record field =>
    match record.root? with
    | none => fail (.select i record field) ((Complaint.cannotSelect record.text).located i.pos)
    | some _ =>
      (expr env record).andThen (.select i · field) fun record' base =>
        settle (.select · record' field) i (fieldRule i.pos record field base)
  | .unary i decl op operand =>
    match env.unary? op with
    | none => fail (.unary i decl op operand) ((Complaint.undeclared op).located i.pos)
    | some m =>
      match unaryRule i.pos op m with
      | .error d => fail (.unary i decl op operand) d
      | .ok (want, result) =>
        (expr env operand).andThen (.unary i decl op ·) fun operand' got =>
          match operandRule i.pos op want result got with
          | .error d => fail (.unary i decl op operand') d
          | .ok t => settle (.unary · (some m.decl) op operand') i (.ok t)
  | .binary i decl op left right =>
    match env.terms.lookup? op with
    | none => fail (.binary i decl op left right) ((Complaint.undeclared op).located i.pos)
    | some m =>
      (expr env left).andThen (.binary i decl op · right) fun left' t =>
        (expr env right).andThen (.binary i decl op left' ·) fun right' u =>
          settle (.binary · (some m.decl) op left' right') i (binaryRule i.pos op m t u)
  | .call i decl name as =>
    match env.terms.lookup? name with
    | none => fail (.call i decl name as) ((Complaint.undeclared name).located i.pos)
    | some m =>
      match functionRule i.pos name m with
      | .error d => fail (.call i decl name as) d
      | .ok (wants, result) =>
        if as.length ≠ wants.length then
          fail (.call i (some m.decl) name as)
            ((Complaint.arity name wants.length as.length).located i.pos)
        else
          (args env name 1 wants as).andThen (.call i (some m.decl) name ·) fun as' _ =>
            settle (.call · (some m.decl) name as') i (.ok result)
  | .cond i test yes no =>
    (expr env test).andThen (.cond i · yes no) fun test' t =>
      if !t.equal .boolean then
        fail (.cond i test' yes no)
          ((Complaint.conditionNotBoolean test.text t.deref).located test.pos)
      else
        (expr env yes).andThen (.cond i test' · no) fun yes' u =>
          (expr env no).andThen (.cond i test' yes' ·) fun no' v =>
            settle (.cond · test' yes' no') i <|
              if u.equal v then .ok u.deref
              else .error ((Complaint.branchesDiffer u.deref v.deref).located i.pos)
  | .letIn i ds body =>
    (decls env.enterBlock ds).andThen (.letIn i · body) fun ds' inner =>
      (expr inner body).andThen (.letIn i ds' ·) fun body' t =>
        settle (.letIn · ds' body') i (.ok t.deref)
  | .array i elems =>
    match elems with
    | [] => fail (.array i []) (Complaint.emptyArrayLiteral.located i.pos)
    | e :: es =>
      (expr env e).andThen (fun e => .array i (e :: es)) fun e' t =>
        (elements env t.deref 1 es).andThen (fun es => .array i (e' :: es)) fun es' _ =>
          settle (fun i => .array i (e' :: es')) i (.ok (.array (es.length + 1 : Nat) t.deref))
  | .record i fields =>
    (recordFields env i.pos [] fields).andThen (.record i ·) fun fields' ts =>
      settle (.record · fields') i (.ok (.ofFields ts))

/-- The elements of an array literal from number `index` on, all of type `want`. -/
def elements (env : Env) (want : Ty) (index : Nat) : List Expr → Checked (List Expr) Unit
  | [] => pass [] ()
  | e :: es =>
    (expr env e).andThen (· :: es) fun e' t =>
      if !t.deref.equal want then
        fail (e' :: es) ((Complaint.elementMismatch index t.deref want).located e.pos)
      else (elements env want (index + 1) es).andThen (e' :: ·) fun es' _ => pass (e' :: es') ()

/-- The fields of a record literal at `pos`, after those called `seen`. -/
def recordFields (env : Env) (pos : Pos) (seen : List String) :
    List (String × Expr) → Checked (List (String × Expr)) (List (String × Ty))
  | [] => pass [] []
  | (name, e) :: rest =>
    if name ∈ seen then fail ((name, e) :: rest) ((Complaint.duplicateField name).located pos)
    else
      (expr env e).andThen (fun e => (name, e) :: rest) fun e' t =>
        (recordFields env pos (name :: seen) rest).andThen (fun rest => (name, e') :: rest)
          fun rest' ts => pass ((name, e') :: rest') ((name, t.deref) :: ts)

/-- The arguments of `callee` from number `index` on. -/
def args (env : Env) (callee : String) (index : Nat) (wants : List Ty) :
    List Arg → Checked (List Arg) Unit
  | [] => pass [] ()
  | a :: as =>
    match wants with
    | [] => pass (a :: as) ()
    | want :: wants =>
      (arg env callee index want a).andThen (· :: as) fun a' _ =>
        (args env callee (index + 1) wants as).andThen (a' :: ·) fun as' _ => pass (a' :: as') ()

def arg (env : Env) (callee : String) (index : Nat) (want : Ty) : Arg → Checked Arg Unit
  | .value i value =>
    match want with
    | .ref _ => fail (.value i value) ((Complaint.notAVarArgument index callee).located i.pos)
    | .func _ _ =>
      fail (.value i value) ((Complaint.notARoutineArgument index callee).located i.pos)
    | want =>
      (expr env value).andThen (.value i ·) fun value' got =>
        if got.equal want then pass (.value (i.setTy got.deref) value') ()
        else
          fail (.value i value')
            ((Complaint.argumentMismatch index callee want got.deref).located i.pos)
  | .var i target =>
    match want with
    | .ref inner =>
      (asVariable env target (expr env target)).andThen (.var i ·) fun target' t =>
        if t.deref.equal inner then pass (.var (i.setTy t.deref.refOf) target') ()
        else
          fail (.var i target')
            ((Complaint.varArgumentMismatch index callee inner t.deref).located i.pos)
    | .func _ _ => fail (.var i target) ((Complaint.notARoutineArgument index callee).located i.pos)
    | _ => fail (.var i target) ((Complaint.notAValueArgument index callee).located i.pos)
  | .func i decl name =>
    match want with
    | .ref _ => fail (.func i decl name) ((Complaint.notAVarArgument index callee).located i.pos)
    | .func ps r => routineArgument env callee index (.func ps r) i decl name
    | _ => fail (.func i decl name) ((Complaint.notAValueArgument index callee).located i.pos)

/-- Declarations of an expression: the first that fails fails the expression. -/
def decls (env : Env) : List Decl → Checked (List Decl) Env
  | [] => pass [] env
  | d :: ds =>
    let declared := decl env d
    match declared.result with
    | .error e => ⟨declared.node :: ds, .error e, declared.reports⟩
    | .ok () =>
      let rest := decls declared.env ds
      ⟨declared.node :: rest.node, rest.result, declared.reports ++ rest.reports⟩

/-- Declarations of a command: one that fails is reported, and its name bound all the same. -/
def declsOfStmt (env : Env) : List Decl → List Decl × Env × List Diagnostic
  | [] => ([], env, [])
  | d :: ds =>
    let declared := decl env d
    let (node, next, failures) :=
      match declared.result with
      | .ok () => (declared.node, declared.env, [])
      | .error e =>
        let (node, next) := fallback declared.env declared.node
        (node, next, [e])
    let (nodes, final, more) := declsOfStmt next ds
    (node :: nodes, final, declared.reports ++ failures ++ more)

/-- A routine is bound before its body, so that it can call itself. -/
def decl (env : Env) : Decl → Declared
  | .const i name value =>
    match twice? env (.const i name value) with
    | some d => ⟨.const i name value, env, .error d, []⟩
    | none =>
      let checked := expr env value
      match checked.result with
      | .error d => ⟨.const i name checked.node, env, .error d, checked.reports⟩
      | .ok t =>
        let node := Decl.const (i.setTy t.deref) name checked.node
        ⟨node, env.addConst name (.typed t.deref node.binding), .ok (), checked.reports⟩
  | .var i name s =>
    match twice? env (.var i name s) with
    | some d => ⟨.var i name s, env, .error d, []⟩
    | none =>
      let checked := sig env s
      match checked.result with
      | .error d => ⟨.var i name checked.node, env, .error d, []⟩
      | .ok t =>
        let node := Decl.var (i.setTy t) name checked.node
        ⟨node, env.addVar name (.typed t node.binding), .ok (), []⟩
  | .type i name s =>
    match twice? env (.type i name s) with
    | some d => ⟨.type i name s, env, .error d, []⟩
    | none =>
      let checked := sig env s
      match checked.result with
      | .error d => ⟨.type i name checked.node, env, .error d, []⟩
      | .ok t => ⟨.type (i.setTy t) name checked.node, env.addType name t, .ok (), []⟩
  | .func i name ps result body =>
    match twice? env (.func i name ps result body) with
    | some d => ⟨.func i name ps result body, env, .error d, []⟩
    | none =>
      let formals := params env [] ps
      match formals.result with
      | .error d => ⟨.func i name formals.node result body, env, .error d, []⟩
      | .ok ts =>
        let returned := sig env result
        match returned.result with
        | .error d => ⟨.func i name formals.node returned.node body, env, .error d, []⟩
        | .ok r =>
          let i := i.setTy (.func ts r)
          let bound := env.addConst name (.typed (.func ts r) (.declared .func name i.pos))
          let checked := expr (bound.enterRoutine.bindParams formals.node ts) body
          let node := Decl.func i name formals.node returned.node checked.node
          match checked.result with
          | .error d => ⟨node, bound, .error d, checked.reports⟩
          | .ok t =>
            if t.equal r then ⟨node, bound, .ok (), checked.reports⟩
            else
              ⟨node, bound, .error ((Complaint.bodyMismatch name r t.deref).located body.pos),
                checked.reports⟩
  | .proc i name ps body =>
    match twice? env (.proc i name ps body) with
    | some d => ⟨.proc i name ps body, env, .error d, []⟩
    | none =>
      let formals := params env [] ps
      match formals.result with
      | .error d => ⟨.proc i name formals.node body, env, .error d, []⟩
      | .ok ts =>
        let i := i.setTy (.func ts .void)
        let bound := env.addConst name (.typed (.func ts .void) (.declared .proc name i.pos))
        let (body', reports) := stmt (bound.enterRoutine.bindParams formals.node ts) body
        ⟨.proc i name formals.node body', bound, .ok (), reports⟩

def stmt (env : Env) : Stmt → Stmt × List Diagnostic
  | .assign i target value =>
    let left := asVariable env target (expr env target)
    let right := expr env value
    let (target', leftErrors) := settled left
    let (value', rightErrors) := settled right
    (.assign i target' value',
      left.reports ++ right.reports ++ leftErrors ++ rightErrors ++
        assignReports i.pos target left right)
  | .call i decl name as =>
    match env.terms.lookup? name with
    | none => (.call i decl name as, [(Complaint.undeclared name).located i.pos])
    | some m =>
      match procedureRule i.pos name m with
      | .error d => (.call i decl name as, [d])
      | .ok wants =>
        if as.length ≠ wants.length then
          (.call i (some m.decl) name as,
            [(Complaint.arity name wants.length as.length).located i.pos])
        else
          let checked := args env name 1 wants as
          match checked.result with
          | .ok () => (.call i (some m.decl) name checked.node, checked.reports)
          | .error d => (.call i (some m.decl) name checked.node, checked.reports ++ [d])
  | .seq i ss =>
    let (ss', reports) := stmts env ss
    (.seq i ss', reports)
  | .letIn i ds body =>
    let (ds', inner, reports) := declsOfStmt env.enterBlock ds
    let (body', more) := stmt inner body
    (.letIn i ds' body', reports ++ more)
  | .ifThen i test yes =>
    let (test', first) := conditionReports test (expr env test)
    let (yes', second) := stmt env yes
    (.ifThen i test' yes', first ++ second)
  | .ifElse i test yes no =>
    let (test', first) := conditionReports test (expr env test)
    let (yes', second) := stmt env yes
    let (no', third) := stmt env no
    (.ifElse i test' yes' no', first ++ second ++ third)
  | .whileDo i test body =>
    let (test', first) := conditionReports test (expr env test)
    let (body', second) := stmt env body
    (.whileDo i test' body', first ++ second)
  | .repeatUntil i body test =>
    let (body', first) := stmt env body
    let (test', second) := conditionReports test (expr env test)
    (.repeatUntil i body' test', first ++ second)
  | .repeatWhile i body test =>
    let (body', first) := stmt env body
    let (test', second) := conditionReports test (expr env test)
    (.repeatWhile i body' test', first ++ second)
  | .loopWhile i pre test post =>
    let (pre', first) := stmt env pre
    let (test', second) := conditionReports test (expr env test)
    let (post', third) := stmt env post
    (.loopWhile i pre' test' post', first ++ second ++ third)
  | .forever i body =>
    let (body', reports) := stmt env body
    (.forever i body', reports)
  | .skip i => (.skip i, [])

def stmts (env : Env) : List Stmt → List Stmt × List Diagnostic
  | [] => ([], [])
  | s :: ss =>
    let (s', first) := stmt env s
    let (ss', rest) := stmts env ss
    (s' :: ss', first ++ rest)
end

end Triangle.Check

namespace Triangle

/-- The program with its slots filled, and the mistakes found, in order. A program without
mistakes is accepted. -/
def Program.check (p : Program) : Program × List Diagnostic :=
  let (body, reports) := Check.stmt .standard p.body
  (⟨body⟩, reports)

end Triangle
