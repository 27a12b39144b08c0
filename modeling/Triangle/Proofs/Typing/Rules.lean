import Mathlib
import Triangle.Proofs.Typing.Judgements
import Triangle.Proofs.Typing.Slotless

/-! What checking accepts, form by form. Each rule says when a node is accepted, with which type, and
what its slots hold then. -/
namespace Triangle.Check
open Checked List

variable {env final : Env} {i : Info} {decl : Option Binding} {pos : Pos} {index : Nat}
  {t r want got left right base elem : Ty} {ps wants : List Ty} {m : Meaning}
  {name op field callee : String} {e e' : Expr}

theorem settle_pass {α : Type} {make : Info → α} {node : α} :
    settle make i (.ok r) = ⟨node, .ok t, []⟩ ↔ t = r ∧ node = make (i.setTy t) := by
  rw [settle_ok, Except.ok.injEq, eq_comm]

section
variable {α β : Type} {a node node' : α} {b b' : β} {c : Prop} [Decidable c] {d : Diagnostic}

theorem unless_ok {rest : Checked α β} :
    (if c then fail node d else rest) = ⟨node', .ok b, []⟩ ↔ ¬c ∧ rest = ⟨node', .ok b, []⟩ := by
  split <;> simp [*]

theorem when_ok : (if c then pass node b else fail node' d) = ⟨a, .ok b', []⟩ ↔
    c ∧ a = node ∧ b' = b := by
  split <;> simp [*]

theorem require_ok : (if c then .ok b else .error d : Except Diagnostic β) = .ok b' ↔ c ∧ b' = b := by
  split <;> simp [*, eq_comm]

theorem refuse_ok : (if c then .error d else .ok b : Except Diagnostic β) = .ok b' ↔ ¬c ∧ b' = b := by
  split <;> simp [*, eq_comm]

end

/-! ## Signatures and parameters -/

theorem sig_named {s' : Sig} : sig env (.named i name) = ⟨s', .ok t, []⟩ ↔
    env.types.lookup? name = some t ∧ s' = .named (i.setTy t) name := by
  simp only [sig, settle_ok, namedType]
  cases env.types.lookup? name with
  | some u => simp
  | none => cases env.terms.lookup? name <;> simp

theorem sig_array {length : Int} {elem s' : Sig} :
    sig env (.array i length elem) = ⟨s', .ok t, []⟩ ↔ 0 < length ∧ length ≤ maxInt ∧
      ∃ elem' u, sig env elem = ⟨elem', .ok u, []⟩ ∧ t = .array length u ∧
        s' = .array (i.setTy t) length elem' := by
  simp only [sig, unless_ok, not_le, not_lt, andThen_ok, settle_pass]

theorem sig_record {fields : List (String × Sig)} {s' : Sig} :
    sig env (.record i fields) = ⟨s', .ok t, []⟩ ↔
      ∃ fields' ts, sigFields env i.pos [] fields = ⟨fields', .ok ts, []⟩ ∧ t = .ofFields ts ∧
        s' = .record (i.setTy t) fields' := by
  simp only [sig, andThen_ok, settle_pass]

theorem sigFields_cons {seen : List String} {s : Sig} {fields fields' : List (String × Sig)}
    {ts : List (String × Ty)} :
    sigFields env pos seen ((name, s) :: fields) = ⟨fields', .ok ts, []⟩ ↔
      name ∉ seen ∧ ∃ first t rest us, sig env s = ⟨first, .ok t, []⟩ ∧
        sigFields env pos (name :: seen) fields = ⟨rest, .ok us, []⟩ ∧
        fields' = (name, first) :: rest ∧ ts = (name, t) :: us := by
  simp only [sigFields, unless_ok, andThen_ok, pass_ok, exists_and_left]

theorem resultSig_some {s : Sig} {s' : Option Sig} :
    resultSig env (some s) = ⟨s', .ok t, []⟩ ↔
      ∃ first, sig env s = ⟨first, .ok t, []⟩ ∧ s' = some first := by
  simp only [resultSig, andThen_ok, pass_ok, exists_eq_right_right']

variable {p : Param}

theorem param_value {s : Sig} : param env (.value i name s) = ⟨p, .ok t, []⟩ ↔
    ∃ s', sig env s = ⟨s', .ok t, []⟩ ∧ p = .value (i.setTy t) name s' := by
  simp only [param, andThen_ok, settle_ok, Except.ok.injEq]
  constructor
  · rintro ⟨s', _, inner, rfl, rfl⟩
    exact ⟨s', inner, rfl⟩
  · rintro ⟨s', inner, rfl⟩
    exact ⟨s', t, inner, rfl, rfl⟩

theorem param_var {s : Sig} : param env (.var i name s) = ⟨p, .ok t, []⟩ ↔
    ∃ s' u, sig env s = ⟨s', .ok u, []⟩ ∧ t = u.refOf ∧ p = .var (i.setTy t) name s' := by
  simp only [param, andThen_ok, settle_pass]

theorem param_func {params : List Param} {result : Option Sig} :
    param env (.func i name params result) = ⟨p, .ok t, []⟩ ↔
      ∃ params' ts result' u, Check.params env [] params = ⟨params', .ok ts, []⟩ ∧
        resultSig env result = ⟨result', .ok u, []⟩ ∧ t = .func ts u ∧
        p = .func (i.setTy t) name params' result' := by
  simp only [param, andThen_ok, settle_pass, exists_and_left]

theorem params_cons {seen : List String} {rest rest' : List Param} {ts : List Ty} :
    Check.params env seen (p :: rest) = ⟨rest', .ok ts, []⟩ ↔
      p.name ∉ seen ∧ ∃ first t others us, param env p = ⟨first, .ok t, []⟩ ∧
        Check.params env (first.name :: seen) rest = ⟨others, .ok us, []⟩ ∧
        rest' = first :: others ∧ ts = t :: us := by
  simp only [params, unless_ok, andThen_ok, pass_ok, exists_and_left]

/-! ## Expressions -/

theorem expr_int {value : Int} : expr env (.int i value) = ⟨e', .ok t, []⟩ ↔
    minInt ≤ value ∧ value ≤ maxInt ∧ t = .integer ∧ e' = .int (i.setTy t) value := by
  simp only [expr, settle_ok, refuse_ok, not_or, not_lt, and_assoc]

theorem expr_char {value : Char} : expr env (.char i value) = ⟨e', .ok t, []⟩ ↔
    t = .char ∧ e' = .char (i.setTy t) value := by
  simp only [expr, settle_ok, Except.ok.injEq, @eq_comm _ Ty.char]

theorem expr_bool {value : Bool} : expr env (.bool i value) = ⟨e', .ok t, []⟩ ↔
    t = .boolean ∧ e' = .bool (i.setTy t) value := by
  simp only [expr, settle_ok, Except.ok.injEq, @eq_comm _ Ty.boolean]

theorem expr_ident : expr env (.ident i decl name) = ⟨e', .ok t, []⟩ ↔
    t.isFunc = false ∧ ∃ b, env.terms.lookup? name = some (.typed t b) ∧
      e' = .ident (i.setTy t) (some b) name := by
  simp only [expr]
  split
  · rename_i missing
    simp [missing]
  · rename_i m found
    cases rule : identRule i.pos name m with
    | error d =>
      have refused : ¬ ∃ t, identRule i.pos name m = .ok t := by simp [rule]
      simp only [fail_ok, false_iff]
      rintro ⟨plain, b, again, _⟩
      exact refused ⟨t, identRule_ok.mpr ⟨plain, b, Option.some.inj (found.symm.trans again)⟩⟩
    | ok u =>
      obtain ⟨plain, b, rfl⟩ := identRule_ok.mp rule
      simp only [settle_ok, Except.ok.injEq, found, Option.some.injEq, Meaning.typed.injEq]
      constructor
      · rintro ⟨rfl, rfl⟩
        exact ⟨plain, b, ⟨rfl, rfl⟩, rfl⟩
      · rintro ⟨_, _, ⟨rfl, rfl⟩, rfl⟩
        exact ⟨rfl, rfl⟩

theorem expr_subscript {array at' : Expr} : expr env (.subscript i array at') = ⟨e', .ok t, []⟩ ↔
    array.root?.isSome ∧ ∃ array' base length elem at'' k,
      expr env array = ⟨array', .ok base, []⟩ ∧ base.deref = .array length elem ∧
      expr env at' = ⟨at'', .ok k, []⟩ ∧ k.deref = .integer ∧ t = propagate base elem ∧
      e' = .subscript (i.setTy t) array' at'' := by
  simp only [expr]
  split
  · rename_i none
    simp [none]
  · rename_i root found
    simp only [found, Option.isSome_some, true_and, andThen_ok]
    constructor
    · rintro ⟨array', base, first, rest⟩
      cases rule : elemRule i.pos array base with
      | error d => simp [rule] at rest
      | ok elem =>
        simp only [rule, andThen_ok, settle_ok] at rest
        obtain ⟨at'', k, second, ok, rfl⟩ := rest
        obtain ⟨length, isArray⟩ := elemRule_ok.mp rule
        obtain ⟨integer, rfl⟩ := require_ok.mp ok
        exact ⟨array', base, length, elem, at'', k, first, isArray, second, Ty.equal_iff.mp integer, rfl,
          rfl⟩
    · rintro ⟨array', base, length, elem, at'', k, first, isArray, second, integer, rfl, rfl⟩
      refine ⟨array', base, first, ?_⟩
      rw [elemRule_ok.mpr ⟨length, isArray⟩]
      simp only [andThen_ok, settle_ok]
      exact ⟨at'', k, second, by rw [if_pos (Ty.equal_iff.mpr integer)], rfl⟩

theorem expr_select {record : Expr} : expr env (.select i record field) = ⟨e', .ok t, []⟩ ↔
    record.root?.isSome ∧ ∃ record' base fields inner k,
      expr env record = ⟨record', .ok base, []⟩ ∧ base.deref = .record fields ∧
      Ty.field? field 0 fields = some (inner, k) ∧ t = propagate base inner ∧
      e' = .select (i.setTy t) record' field := by
  simp only [expr]
  split
  · rename_i none
    simp [none]
  · rename_i root found
    simp only [found, Option.isSome_some, true_and, andThen_ok, settle_ok, fieldRule_ok]
    constructor
    · rintro ⟨record', base, first, ⟨fields, inner, k, isRecord, entry, rfl⟩, rfl⟩
      exact ⟨record', base, fields, inner, k, first, isRecord, entry, rfl, rfl⟩
    · rintro ⟨record', base, fields, inner, k, first, isRecord, entry, rfl, rfl⟩
      exact ⟨record', base, first, ⟨fields, inner, k, isRecord, entry, rfl⟩, rfl⟩

theorem expr_unary {operand : Expr} : expr env (.unary i decl op operand) = ⟨e', .ok t, []⟩ ↔
    ∃ m want operand' got, env.unary? op = some m ∧ m.signature? = some ([want], t) ∧
      expr env operand = ⟨operand', .ok got, []⟩ ∧ got.deref = want.deref ∧
      e' = .unary (i.setTy t) (some m.decl) op operand' := by
  simp only [expr]
  split
  · rename_i missing
    simp [missing]
  · rename_i m found
    constructor
    · intro accepted
      cases rule : unaryRule i.pos op m with
      | error d => simp [rule] at accepted
      | ok signature =>
        obtain ⟨want, result⟩ := signature
        simp only [rule, andThen_ok] at accepted
        obtain ⟨operand', got, first, accepted⟩ := accepted
        cases fits : operandRule i.pos op want result got with
        | error d => simp [fits] at accepted
        | ok u =>
          simp only [fits, settle_ok, Except.ok.injEq] at accepted
          obtain ⟨rfl, rfl⟩ := accepted
          obtain ⟨same, rfl⟩ := operandRule_ok.mp fits
          exact ⟨m, want, operand', got, found, unaryRule_ok.mp rule, first, same, rfl⟩
    · rintro ⟨_, want, operand', got, again, signature, first, same, rfl⟩
      cases found.symm.trans again
      rw [unaryRule_ok.mpr signature]
      simp only [andThen_ok]
      refine ⟨operand', got, first, ?_⟩
      rw [operandRule_ok.mpr ⟨same, rfl⟩]
      simp

theorem expr_binary {left right : Expr} :
    expr env (.binary i decl op left right) = ⟨e', .ok t, []⟩ ↔
      ∃ m left' u right' v, env.terms.lookup? op = some m ∧ expr env left = ⟨left', .ok u, []⟩ ∧
        expr env right = ⟨right', .ok v, []⟩ ∧ m.Joins u v t ∧
        e' = .binary (i.setTy t) (some m.decl) op left' right' := by
  simp only [expr]
  split
  · rename_i missing
    simp [missing]
  · rename_i m found
    simp only [found, Option.some.injEq, andThen_ok, settle_ok, binaryRule_ok, exists_and_left,
      exists_eq_left']

theorem expr_call {as : List Arg} : expr env (.call i decl name as) = ⟨e', .ok t, []⟩ ↔
    t ≠ .void ∧ ∃ wants b as', env.terms.lookup? name = some (.typed (.func wants t) b) ∧
      as.length = wants.length ∧ args env name 1 wants as = ⟨as', .ok (), []⟩ ∧
      e' = .call (i.setTy t) (some b) name as' := by
  simp only [expr]
  split
  · rename_i missing
    simp [missing]
  · rename_i m found
    constructor
    · intro accepted
      cases rule : functionRule i.pos name m with
      | error d => simp [rule] at accepted
      | ok signature =>
        obtain ⟨wants, result⟩ := signature
        obtain ⟨valued, b, rfl⟩ := functionRule_ok.mp rule
        simp only [rule, unless_ok, not_not, andThen_ok, settle_ok, Except.ok.injEq] at accepted
        obtain ⟨count, as', _, inner, rfl, rfl⟩ := accepted
        exact ⟨valued, wants, b, as', found, count, inner, rfl⟩
    · rintro ⟨valued, wants, b, as', again, count, inner, rfl⟩
      cases found.symm.trans again
      rw [functionRule_ok.mpr ⟨valued, b, rfl⟩]
      simp only [count, ne_eq, not_true_eq_false, if_false, andThen_ok, settle_ok]
      exact ⟨as', (), inner, trivial, rfl⟩

variable {test : Expr}

theorem expr_cond {yes no : Expr} : expr env (.cond i test yes no) = ⟨e', .ok t, []⟩ ↔
    ∃ test' u yes' v no' w, expr env test = ⟨test', .ok u, []⟩ ∧ u.deref = .boolean ∧
      expr env yes = ⟨yes', .ok v, []⟩ ∧ expr env no = ⟨no', .ok w, []⟩ ∧ v.deref = w.deref ∧
      t = v.deref ∧ e' = .cond (i.setTy t) test' yes' no' := by
  simp only [expr, andThen_ok, unless_ok, Bool.not_eq_true', Bool.not_eq_false, Ty.equal_iff, settle_ok,
    require_ok, and_assoc, exists_and_left, show Ty.boolean.deref = .boolean from rfl]

variable {ds : List Decl}

theorem expr_letIn {body : Expr} : expr env (.letIn i ds body) = ⟨e', .ok t, []⟩ ↔
      ∃ ds' inner body' u, decls env.enterBlock ds = ⟨ds', .ok inner, []⟩ ∧
        expr inner body = ⟨body', .ok u, []⟩ ∧ t = u.deref ∧ e' = .letIn (i.setTy t) ds' body' := by
  simp only [expr, andThen_ok, settle_pass, exists_and_left]

theorem expr_array {es : List Expr} : expr env (.array i (e :: es)) = ⟨e', .ok t, []⟩ ↔
    ∃ first u rest, expr env e = ⟨first, .ok u, []⟩ ∧
      elements env u.deref 1 es = ⟨rest, .ok (), []⟩ ∧
      t = .array (es.length + 1 : Nat) u.deref ∧ e' = .array (i.setTy t) (first :: rest) := by
  simp only [expr, andThen_ok, settle_pass, exists_and_left, Unique.exists_iff]

theorem expr_record {fields : List (String × Expr)} :
    expr env (.record i fields) = ⟨e', .ok t, []⟩ ↔
      ∃ fields' ts, recordFields env i.pos [] fields = ⟨fields', .ok ts, []⟩ ∧ t = .ofFields ts ∧
        e' = .record (i.setTy t) fields' := by
  simp only [expr, andThen_ok, settle_pass]

theorem elements_cons {es es' : List Expr} :
    elements env want index (e :: es) = ⟨es', .ok (), []⟩ ↔
      ∃ first t rest, expr env e = ⟨first, .ok t, []⟩ ∧ t.deref.deref = want.deref ∧
        elements env want (index + 1) es = ⟨rest, .ok (), []⟩ ∧ es' = first :: rest := by
  simp only [elements, andThen_ok, unless_ok, Bool.not_eq_true', Bool.not_eq_false, Ty.equal_iff, pass_ok,
    and_true, exists_and_left, Unique.exists_iff]

theorem recordFields_cons {seen : List String} {fields fields' : List (String × Expr)}
    {ts : List (String × Ty)} :
    recordFields env pos seen ((name, e) :: fields) = ⟨fields', .ok ts, []⟩ ↔
      name ∉ seen ∧ ∃ first t rest us, expr env e = ⟨first, .ok t, []⟩ ∧
        recordFields env pos (name :: seen) fields = ⟨rest, .ok us, []⟩ ∧
        fields' = (name, first) :: rest ∧ ts = (name, t.deref) :: us := by
  simp only [recordFields, unless_ok, andThen_ok, pass_ok, exists_and_left]

/-! ## Arguments -/

variable {a : Arg}

theorem args_cons {as as' : List Arg} :
    args env callee index (want :: wants) (a :: as) = ⟨as', .ok (), []⟩ ↔
      ∃ first rest, arg env callee index want a = ⟨first, .ok (), []⟩ ∧
        args env callee (index + 1) wants as = ⟨rest, .ok (), []⟩ ∧ as' = first :: rest := by
  simp only [args, andThen_ok, pass_ok, and_true, exists_and_left, Unique.exists_iff]

/-- A value is passed where neither a variable nor a routine is wanted. -/
theorem arg_value {value : Expr} : arg env callee index want (.value i value) = ⟨a, .ok (), []⟩ ↔
      want.isRef = false ∧ want.isFunc = false ∧ ∃ value' got,
        expr env value = ⟨value', .ok got, []⟩ ∧ got.deref = want.deref ∧
          a = .value (i.setTy got.deref) value' := by
  by_cases plain : want.isRef = false ∧ want.isFunc = false
  · have checked : arg env callee index want (.value i value) =
        (expr env value).andThen (.value i ·) fun value' got =>
          if got.equal want then pass (.value (i.setTy got.deref) value') ()
          else fail (.value i value')
            ((Complaint.argumentMismatch index callee want got.deref).located i.pos) := by
      cases want with
      | ref | func => simp [Ty.isRef, Ty.isFunc, Ty.deref] at plain
      | _ => simp only [arg]
    simp only [checked, andThen_ok, plain, true_and, when_ok, Ty.equal_iff, and_true]
  · constructor
    · intro accepted
      cases want with
      | ref | func => simp [arg] at accepted
      | _ => exact absurd ⟨rfl, rfl⟩ plain
    · rintro ⟨noRef, noFunc, _⟩
      exact absurd ⟨noRef, noFunc⟩ plain

theorem arg_var {target : Expr} : arg env callee index want (.var i target) = ⟨a, .ok (), []⟩ ↔
      ∃ inner target' got root, want = .ref inner ∧ expr env target = ⟨target', .ok got, []⟩ ∧
        got.deref.deref = inner.deref ∧ target.root? = some root ∧
        env.terms.isConst root = false ∧ a = .var (i.setTy got.deref.refOf) target' := by
  cases want with
  | ref inner =>
    simp only [arg, andThen_ok, asVariable_ok, Ty.ref.injEq, when_ok, Ty.equal_iff, and_true]
    constructor
    · rintro ⟨target', got, ⟨checked, root, found, assignable⟩, same, rfl⟩
      exact ⟨inner, target', got, root, rfl, checked, same, found, assignable, rfl⟩
    · rintro ⟨_, target', got, root, rfl, checked, same, found, assignable, rfl⟩
      exact ⟨target', got, ⟨checked, root, found, assignable⟩, same, rfl⟩
  | _ => simp [arg]

theorem arg_func : arg env callee index want (.func i decl name) = ⟨a, .ok (), []⟩ ↔
      ∃ ps r b, want = .func ps r ∧ env.terms.lookup? name = some (.typed want b) ∧
        a = .func (i.setTy want) (some b) name := by
  cases want with
  | func ps r =>
    simp only [arg, routineArgument_ok]
    constructor
    · rintro ⟨b, found, rfl⟩
      exact ⟨ps, r, b, rfl, found, rfl⟩
    · rintro ⟨_, _, b, _, found, rfl⟩
      exact ⟨b, found, rfl⟩
  | _ => simp [arg]

/-! ## Declarations -/

/-- The environment after a declaration whose slot is filled. -/
def Env.declare (env : Env) (d : Decl) : Env :=
  let t := d.info.ty.getD .void
  match d with
  | .type _ name _ => env.addType name t
  | .var _ name _ => env.addVar name (.typed t d.binding)
  | d => env.addConst d.name (.typed t d.binding)

variable {d : Decl}

theorem decl_const {value : Expr} : Check.decl env (.const i name value) = ⟨d, final, .ok (), []⟩ ↔
      env.terms.declaredHere name = false ∧ ∃ value' t, expr env value = ⟨value', .ok t, []⟩ ∧
        d = .const (i.setTy t.deref) name value' ∧ final = env.declare d := by
  by_cases here : env.terms.declaredHere name = true
  · simp [Check.decl, twice?, Decl.name, here]
  · simp only [Check.decl, twice?, Decl.name, here, Bool.false_eq_true, if_false, true_and]
    constructor
    · intro accepted
      split at accepted
      · simp at accepted
      · rename_i t ok
        simp only [Declared.mk.injEq, true_and] at accepted
        obtain ⟨rfl, rfl, clean⟩ := accepted
        exact ⟨(expr env value).node, t, accepted_of ok clean, rfl, rfl⟩
    · rintro ⟨value', t, checked, rfl, rfl⟩
      simp only [checked]
      rfl

theorem decl_var {s : Sig} : Check.decl env (.var i name s) = ⟨d, final, .ok (), []⟩ ↔
      env.terms.declaredHere name = false ∧ ∃ s' t, sig env s = ⟨s', .ok t, []⟩ ∧
        d = .var (i.setTy t) name s' ∧ final = env.declare d := by
  by_cases here : env.terms.declaredHere name = true
  · simp [Check.decl, twice?, Decl.name, here]
  · simp only [Check.decl, twice?, Decl.name, here, Bool.false_eq_true, if_false, true_and]
    constructor
    · intro accepted
      split at accepted
      · simp at accepted
      · rename_i t ok
        obtain ⟨rfl, rfl⟩ := accepted
        exact ⟨(sig env s).node, t, sig_accepted ok, rfl, rfl⟩
    · rintro ⟨s', t, checked, rfl, rfl⟩
      simp only [checked]
      rfl

theorem decl_type {s : Sig} : Check.decl env (.type i name s) = ⟨d, final, .ok (), []⟩ ↔
      env.types.declaredHere name = false ∧ ∃ s' t, sig env s = ⟨s', .ok t, []⟩ ∧
        d = .type (i.setTy t) name s' ∧ final = env.declare d := by
  by_cases here : env.types.declaredHere name = true
  · simp [Check.decl, twice?, here]
  · simp only [Check.decl, twice?, here, Bool.false_eq_true, if_false, true_and]
    constructor
    · intro accepted
      split at accepted
      · simp at accepted
      · rename_i t ok
        obtain ⟨rfl, rfl⟩ := accepted
        exact ⟨(sig env s).node, t, sig_accepted ok, rfl, rfl⟩
    · rintro ⟨s', t, checked, rfl, rfl⟩
      simp only [checked]
      rfl

theorem decl_func {params : List Param} {result : Sig} {body : Expr} :
    Check.decl env (.func i name params result body) = ⟨d, final, .ok (), []⟩ ↔
      env.terms.declaredHere name = false ∧ ∃ params' ts result' r body' t,
        Check.params env [] params = ⟨params', .ok ts, []⟩ ∧ sig env result = ⟨result', .ok r, []⟩ ∧
        d = .func (i.setTy (.func ts r)) name params' result' body' ∧ final = env.declare d ∧
        expr (final.enterRoutine.bindParams params' ts) body = ⟨body', .ok t, []⟩ ∧
        t.deref = r.deref := by
  by_cases here : env.terms.declaredHere name = true
  · simp [Check.decl, twice?, Decl.name, here]
  · simp only [Check.decl, twice?, Decl.name, here, Bool.false_eq_true, if_false, true_and]
    constructor
    · intro accepted
      split at accepted
      · simp at accepted
      · rename_i ts formals
        split at accepted
        · simp at accepted
        · rename_i r returned
          split at accepted
          · simp at accepted
          · rename_i t ok
            split at accepted
            · rename_i same
              simp only [Declared.mk.injEq, true_and] at accepted
              obtain ⟨rfl, rfl, clean⟩ := accepted
              exact ⟨_, ts, _, r, _, t, params_accepted formals, sig_accepted returned, rfl, rfl,
                accepted_of ok clean, Ty.equal_iff.mp same⟩
            · simp at accepted
    · rintro ⟨params', ts, result', r, body', t, formals, returned, rfl, rfl, checked, same⟩
      have inner : expr (((env.addConst name
          (.typed (.func ts r) (.declared .func name (i.setTy (.func ts r)).pos))).enterRoutine).bindParams
            params' ts) body = ⟨body', .ok t, []⟩ := checked
      simp only [formals, returned, inner, Ty.equal_iff.mpr same, if_true]
      rfl

variable {body : Stmt}

theorem decl_proc {params : List Param} :
    Check.decl env (.proc i name params body) = ⟨d, final, .ok (), []⟩ ↔
      env.terms.declaredHere name = false ∧ ∃ params' ts body',
        Check.params env [] params = ⟨params', .ok ts, []⟩ ∧
        d = .proc (i.setTy (.func ts .void)) name params' body' ∧ final = env.declare d ∧
        stmt (final.enterRoutine.bindParams params' ts) body = (body', []) := by
  by_cases here : env.terms.declaredHere name = true
  · simp [Check.decl, twice?, Decl.name, here]
  · simp only [Check.decl, twice?, Decl.name, here, Bool.false_eq_true, if_false, true_and]
    constructor
    · intro accepted
      split at accepted
      · simp at accepted
      · rename_i ts formals
        simp only [Declared.mk.injEq, true_and] at accepted
        obtain ⟨rfl, rfl, clean⟩ := accepted
        exact ⟨_, ts, _, params_accepted formals, rfl, rfl, Prod.ext rfl clean⟩
    · rintro ⟨params', ts, body', formals, rfl, rfl, checked⟩
      have inner : stmt (((env.addConst name
          (.typed (.func ts .void)
            (.declared .proc name (i.setTy (.func ts .void)).pos))).enterRoutine).bindParams
            params' ts) body = (body', []) := checked
      simp only [formals, inner]
      rfl

theorem decls_cons {ds' : List Decl} : decls env (d :: ds) = ⟨ds', .ok final, []⟩ ↔
      ∃ first next rest, Check.decl env d = ⟨first, next, .ok (), []⟩ ∧
        decls next ds = ⟨rest, .ok final, []⟩ ∧ ds' = first :: rest := by
  simp only [decls]
  rcases Check.decl env d with ⟨first, next, result, reports⟩
  cases result with
  | error e => simp
  | ok _ =>
    simp only [Checked.mk.injEq, append_eq_nil_iff, Declared.mk.injEq, true_and]
    constructor
    · rintro ⟨rfl, done, rfl, clean⟩
      exact ⟨first, next, _, ⟨rfl, rfl, rfl⟩, accepted_of done clean, rfl⟩
    · rintro ⟨_, _, rest, ⟨rfl, rfl, rfl⟩, tail, rfl⟩
      simp [tail]

/-- Without a mistake, declarations are checked alike in a command and in an expression. -/
theorem declsOfStmt_ok {ds' : List Decl} :
    declsOfStmt env ds = (ds', final, []) ↔ decls env ds = ⟨ds', .ok final, []⟩ := by
  induction ds generalizing env ds' with
  | nil =>
    simp only [declsOfStmt, decls, pass_ok, Prod.mk.injEq, and_true]
    constructor
    · rintro ⟨rfl, rfl⟩
      exact ⟨rfl, rfl⟩
    · rintro ⟨rfl, rfl⟩
      exact ⟨rfl, rfl⟩
  | cons d ds ih =>
    rw [decls_cons]
    simp only [declsOfStmt]
    rcases Check.decl env d with ⟨first, next, result, reports⟩
    cases result with
    | error e => simp
    | ok _ =>
      simp only [append_nil, Prod.mk.injEq, append_eq_nil_iff, Declared.mk.injEq, true_and]
      constructor
      · rintro ⟨rfl, rfl, rfl, clean⟩
        exact ⟨first, next, _, ⟨rfl, rfl, rfl⟩, ih.mp (Prod.ext rfl (Prod.ext rfl clean)), rfl⟩
      · rintro ⟨_, _, rest, ⟨rfl, rfl, rfl⟩, tail, rfl⟩
        simp [ih.mpr tail]

/-! ## Commands -/

/-- A part without a mistake is its checked form. -/
theorem clean_iff {α : Type} {c : α × List Diagnostic} {P : α → Prop} :
    (∃ a, c = (a, []) ∧ P a) ↔ c.2 = [] ∧ P c.1 := by
  constructor
  · rintro ⟨a, rfl, holds⟩
    exact ⟨rfl, holds⟩
  · rintro ⟨clean, holds⟩
    exact ⟨c.1, Prod.ext rfl clean, holds⟩

/-- A condition without a mistake is boolean. -/
theorem condition_iff {P : Expr → Prop} :
    (∃ test' t, expr env test = ⟨test', .ok t, []⟩ ∧ t.deref = .boolean ∧ P test') ↔
      (conditionReports test (expr env test)).2 = [] ∧ P (conditionReports test (expr env test)).1 := by
  constructor
  · rintro ⟨test', t, checked, boolean, holds⟩
    rw [conditionReports_ok.mpr ⟨t, checked, boolean⟩]
    exact ⟨rfl, holds⟩
  · rintro ⟨clean, holds⟩
    obtain ⟨t, checked, boolean⟩ := conditionReports_ok.mp (Prod.ext rfl clean)
    exact ⟨_, t, checked, boolean, holds⟩

variable {s : Stmt}

theorem stmt_assign {target value : Expr} : stmt env (.assign i target value) = (s, []) ↔
      ∃ target' t value' u root, expr env target = ⟨target', .ok t, []⟩ ∧
        expr env value = ⟨value', .ok u, []⟩ ∧ t.deref = u.deref ∧ target.root? = some root ∧
        env.terms.isConst root = false ∧ s = .assign i target' value' := by
  simp only [stmt]
  constructor
  · generalize left : asVariable env target (expr env target) = c
    generalize right : expr env value = d
    simp only [Prod.mk.injEq, append_eq_nil_iff]
    rintro ⟨rfl, ⟨⟨⟨leftClean, rightClean⟩, leftOk⟩, rightOk⟩, agree⟩
    obtain ⟨t, leftDone⟩ := settled_ok leftOk leftClean
    obtain ⟨u, rightDone⟩ := settled_ok rightOk rightClean
    obtain ⟨checked, root, found, assignable⟩ := asVariable_ok.mp (left.trans leftDone)
    rw [leftDone, rightDone] at agree ⊢
    simp only [assignReports] at agree
    split at agree
    · rename_i same
      exact ⟨_, t, _, u, root, checked, rfl, Ty.equal_iff.mp same, found, assignable, rfl⟩
    · simp at agree
  · rintro ⟨target', t, value', u, root, first, second, same, found, assignable, rfl⟩
    rw [asVariable_ok.mpr ⟨first, root, found, assignable⟩, second]
    simp [settled, assignReports, Ty.equal_iff.mpr same]

theorem stmt_call {as : List Arg} : stmt env (.call i decl name as) = (s, []) ↔
    ∃ wants b as', env.terms.lookup? name = some (.typed (.func wants .void) b) ∧
      as.length = wants.length ∧ args env name 1 wants as = ⟨as', .ok (), []⟩ ∧
      s = .call i (some b) name as' := by
  simp only [stmt]
  split
  · rename_i missing
    simp [missing]
  · rename_i m found
    constructor
    · intro accepted
      cases rule : procedureRule i.pos name m with
      | error d => simp [rule] at accepted
      | ok wants =>
        obtain ⟨b, rfl⟩ := procedureRule_ok.mp rule
        simp only [rule] at accepted
        split at accepted
        · simp at accepted
        · rename_i count
          split at accepted
          · rename_i done
            simp only [Prod.mk.injEq] at accepted
            obtain ⟨rfl, clean⟩ := accepted
            exact ⟨wants, b, _, found, by simpa using count, accepted_of done clean, rfl⟩
          · simp at accepted
    · rintro ⟨wants, b, as', again, count, inner, rfl⟩
      cases found.symm.trans again
      rw [procedureRule_ok.mpr ⟨b, rfl⟩]
      simp only [count, ne_eq, not_true_eq_false, if_false, inner]
      rfl

theorem stmt_seq {ss : List Stmt} : stmt env (.seq i ss) = (s, []) ↔
    ∃ ss', stmts env ss = (ss', []) ∧ s = .seq i ss' := by
  simp only [stmt, Prod.mk.injEq, clean_iff, @eq_comm _ s, and_comm]

theorem stmt_letIn : stmt env (.letIn i ds body) = (s, []) ↔
    ∃ ds' inner body', decls env.enterBlock ds = ⟨ds', .ok inner, []⟩ ∧
      stmt inner body = (body', []) ∧ s = .letIn i ds' body' := by
  simp only [stmt, Prod.mk.injEq, append_eq_nil_iff]
  constructor
  · rintro ⟨rfl, first, second⟩
    exact ⟨_, _, _, declsOfStmt_ok.mp (Prod.ext rfl (Prod.ext rfl first)), Prod.ext rfl second, rfl⟩
  · rintro ⟨ds', inner, body', first, second, rfl⟩
    simp [declsOfStmt_ok.mpr first, second]

theorem stmt_ifThen {yes : Stmt} : stmt env (.ifThen i test yes) = (s, []) ↔
    ∃ test' t yes', expr env test = ⟨test', .ok t, []⟩ ∧ t.deref = .boolean ∧
      stmt env yes = (yes', []) ∧ s = .ifThen i test' yes' := by
  simp only [stmt, Prod.mk.injEq, append_eq_nil_iff, exists_and_left, condition_iff, clean_iff,
    @eq_comm _ s]
  tauto

theorem stmt_ifElse {yes no : Stmt} : stmt env (.ifElse i test yes no) = (s, []) ↔
    ∃ test' t yes' no', expr env test = ⟨test', .ok t, []⟩ ∧ t.deref = .boolean ∧
      stmt env yes = (yes', []) ∧ stmt env no = (no', []) ∧ s = .ifElse i test' yes' no' := by
  simp only [stmt, Prod.mk.injEq, append_eq_nil_iff, exists_and_left, condition_iff, clean_iff,
    @eq_comm _ s]
  tauto

theorem stmt_whileDo : stmt env (.whileDo i test body) = (s, []) ↔
    ∃ test' t body', expr env test = ⟨test', .ok t, []⟩ ∧ t.deref = .boolean ∧
      stmt env body = (body', []) ∧ s = .whileDo i test' body' := by
  simp only [stmt, Prod.mk.injEq, append_eq_nil_iff, exists_and_left, condition_iff, clean_iff,
    @eq_comm _ s]
  tauto

theorem stmt_repeatUntil : stmt env (.repeatUntil i body test) = (s, []) ↔
      ∃ body' test' t, stmt env body = (body', []) ∧ expr env test = ⟨test', .ok t, []⟩ ∧
        t.deref = .boolean ∧ s = .repeatUntil i body' test' := by
  simp only [stmt, Prod.mk.injEq, append_eq_nil_iff, exists_and_left, condition_iff, clean_iff,
    @eq_comm _ s]
  tauto

theorem stmt_repeatWhile : stmt env (.repeatWhile i body test) = (s, []) ↔
      ∃ body' test' t, stmt env body = (body', []) ∧ expr env test = ⟨test', .ok t, []⟩ ∧
        t.deref = .boolean ∧ s = .repeatWhile i body' test' := by
  simp only [stmt, Prod.mk.injEq, append_eq_nil_iff, exists_and_left, condition_iff, clean_iff,
    @eq_comm _ s]
  tauto

theorem stmt_loopWhile {pre post : Stmt} : stmt env (.loopWhile i pre test post) = (s, []) ↔
      ∃ pre' test' t post', stmt env pre = (pre', []) ∧ expr env test = ⟨test', .ok t, []⟩ ∧
        t.deref = .boolean ∧ stmt env post = (post', []) ∧ s = .loopWhile i pre' test' post' := by
  simp only [stmt, Prod.mk.injEq, append_eq_nil_iff, exists_and_left, condition_iff, clean_iff,
    @eq_comm _ s]
  tauto

theorem stmt_forever : stmt env (.forever i body) = (s, []) ↔
    ∃ body', stmt env body = (body', []) ∧ s = .forever i body' := by
  simp only [stmt, Prod.mk.injEq, clean_iff, @eq_comm _ s, and_comm]

theorem stmts_cons {c : Stmt} {ss ss' : List Stmt} : stmts env (c :: ss) = (ss', []) ↔
    ∃ first rest, stmt env c = (first, []) ∧ stmts env ss = (rest, []) ∧ ss' = first :: rest := by
  simp only [stmts, Prod.mk.injEq, append_eq_nil_iff, exists_and_left, clean_iff, @eq_comm _ ss']
  tauto

end Triangle.Check
