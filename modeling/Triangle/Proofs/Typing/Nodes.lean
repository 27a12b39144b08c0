import Mathlib
import Triangle.Proofs.Tree.Children
import Triangle.Proofs.Typing.Scopes

/-! Every node of a stable tree is stable itself, in the scope where it stands. So what holds of a
stable node by the rule for its form holds of all nodes of an accepted program. -/
namespace Triangle
open Check List

/-- Checking accepts the node in `env` and leaves it as it is. -/
def Node.Stable (env : Check.Env) : Node → Prop
  | .expr e => ∃ t, ExprStable env e t
  | .stmt s => StmtStable env s
  | .decl d => DeclStable env d
  | .param p => ∃ t, Check.param env p = ⟨p, .ok t, []⟩
  | .arg a => ∃ callee index want, Check.arg env callee index want a = ⟨a, .ok (), []⟩
  | .sig s => ∃ t, Check.sig env s = ⟨s, .ok t, []⟩

namespace Check
open Checked

attribute [local simp] Node.parts

/-- The types of a routine's parameters, as its slot has them. -/
def formals (d : Node) : List Ty :=
  match d.info.ty with
  | some (.func ts _) => ts
  | _ => []

/-- A node right below another, and its scope. Declarations of a let are in scope after them; in the
body of a routine the routine itself and its parameters are. -/
inductive Opens (env : Env) (n : Node) : Env → Node → Prop where
  | part {m : Node} (member : m ∈ n.parts) : Opens env n env m
  | declared {before after : List Decl} {d : Decl} {body : Node}
      (block : n.block? = some (before ++ d :: after, body)) :
      Opens env n (env.enterBlock.declareAll before) (.decl d)
  | body {ds : List Decl} {body : Node} (block : n.block? = some (ds, body)) :
      Opens env n (env.enterBlock.declareAll ds) body
  | routine {d : Decl} {params : List Param} {body : Node} (same : n = .decl d)
      (routine : n.routine? = some (params, body)) :
      Opens env n ((env.declare d).enterRoutine.bindParams params (formals n)) body

/-- A node below another, and its scope. -/
inductive Within (env : Env) (n : Node) : Env → Node → Prop where
  | here : Within env n env n
  | step {env' env'' : Env} {m k : Node} (first : Within env n env' m) (opens : Opens env' m env'' k) :
      Within env n env'' k

variable {env env' : Env} {n m : Node}

theorem Within.trans {env'' : Env} {k : Node} (first : Within env n env' m)
    (second : Within env' m env'' k) : Within env n env'' k := by
  induction second with
  | here => exact first
  | step _ opens ih => exact .step ih opens

theorem Opens.of_child (env : Env) (child : n.Child m) : ∃ env', Opens env n env' m := by
  cases child with
  | part member => exact ⟨env, .part member⟩
  | declared block member =>
    obtain ⟨before, after, rfl⟩ := append_of_mem member
    exact ⟨_, .declared block⟩
  | body block => exact ⟨_, .body block⟩
  | routine routine =>
    obtain ⟨_, _, _, _, rfl, -⟩ | ⟨_, _, _, rfl, -⟩ := Node.routine?_eq_some routine
    · exact ⟨_, .routine rfl routine⟩
    · exact ⟨_, .routine rfl routine⟩

theorem Opens.child (opens : Opens env n env' m) : n.Child m := by
  cases opens with
  | part member => exact .part member
  | declared block => exact .declared block (by simp)
  | body block => exact .body block
  | routine _ routine => exact .routine routine

/-- Every node below has a scope. -/
theorem Within.of_mem (n : Node) : ∀ (env : Env) (m : Node), m ∈ n.all → ∃ env', Within env n env' m := by
  induction n using Node.induction with
  | step n ih =>
    intro env m member
    rcases Node.mem_all member with rfl | ⟨c, child, below⟩
    · exact ⟨env, .here⟩
    · obtain ⟨env', opens⟩ := Opens.of_child env child
      obtain ⟨env'', within⟩ := ih c child env' m below
      exact ⟨env'', .trans (.step .here opens) within⟩

/-! ## Stable nodes -/

theorem sigFields_stable {pos : Pos} {fields : List (String × Sig)} {ts : List (String × Ty)}
    {seen : List String} (stable : sigFields env pos seen fields = ⟨fields, .ok ts, []⟩) :
    ∀ f ∈ fields, Node.Stable env (.sig f.2) := by
  induction fields generalizing ts seen with
  | nil => simp
  | cons f fields ih =>
    obtain ⟨name, s⟩ := f
    obtain ⟨_, _, t, _, _, head, tail, whole, _⟩ := sigFields_cons.mp stable
    cases whole
    exact forall_mem_cons.mpr ⟨⟨t, head⟩, ih tail⟩

theorem params_stable {ps : List Param} {ts : List Ty} {seen : List String}
    (stable : Check.params env seen ps = ⟨ps, .ok ts, []⟩) :
    ∀ p ∈ ps, Node.Stable env (.param p) := by
  induction ps generalizing ts seen with
  | nil => simp
  | cons p ps ih =>
    obtain ⟨_, _, t, _, _, head, tail, whole, _⟩ := params_cons.mp stable
    cases whole
    exact forall_mem_cons.mpr ⟨⟨t, head⟩, ih tail⟩

theorem elements_stable {es : List Expr} {want : Ty} {index : Nat}
    (stable : elements env want index es = ⟨es, .ok (), []⟩) :
    ∀ e ∈ es, Node.Stable env (.expr e) := by
  induction es generalizing index with
  | nil => simp
  | cons e es ih =>
    obtain ⟨_, t, _, head, _, tail, whole⟩ := elements_cons.mp stable
    cases whole
    exact forall_mem_cons.mpr ⟨⟨t, head⟩, ih tail⟩

theorem recordFields_stable {pos : Pos} {fields : List (String × Expr)} {ts : List (String × Ty)}
    {seen : List String} (stable : recordFields env pos seen fields = ⟨fields, .ok ts, []⟩) :
    ∀ f ∈ fields, Node.Stable env (.expr f.2) := by
  induction fields generalizing ts seen with
  | nil => simp
  | cons f fields ih =>
    obtain ⟨name, e⟩ := f
    obtain ⟨_, _, t, _, _, head, tail, whole, _⟩ := recordFields_cons.mp stable
    cases whole
    exact forall_mem_cons.mpr ⟨⟨t, head⟩, ih tail⟩

theorem args_stable {as : List Arg} {callee : String} {index : Nat} {wants : List Ty}
    (count : as.length = wants.length) (stable : args env callee index wants as = ⟨as, .ok (), []⟩) :
    ∀ a ∈ as, Node.Stable env (.arg a) := by
  induction as generalizing index wants with
  | nil => simp
  | cons a as ih =>
    cases wants with
    | nil => simp at count
    | cons want wants =>
      obtain ⟨_, _, head, tail, whole⟩ := args_cons.mp stable
      cases whole
      exact forall_mem_cons.mpr ⟨⟨_, _, _, head⟩, ih (by simpa using count) tail⟩

theorem stmts_stable {ss : List Stmt} (stable : stmts env ss = (ss, [])) :
    ∀ s ∈ ss, Node.Stable env (.stmt s) := by
  induction ss with
  | nil => simp
  | cons s ss ih =>
    obtain ⟨_, _, head, tail, whole⟩ := stmts_cons.mp stable
    cases whole
    exact forall_mem_cons.mpr ⟨head, ih tail⟩

/-- Declarations that are accepted as they are leave in scope what their slots say. -/
theorem decls_stable {ds : List Decl} {final : Env} (stable : decls env ds = ⟨ds, .ok final, []⟩) :
    final = env.declareAll ds ∧ ∀ before d after, ds = before ++ d :: after →
      DeclStable (env.declareAll before) d := by
  induction ds generalizing env with
  | nil =>
    simp only [decls, pass_ok] at stable
    exact ⟨stable.2, fun before d after same => by simp at same⟩
  | cons d ds ih =>
    obtain ⟨_, next, _, head, tail, whole⟩ := decls_cons.mp stable
    cases whole
    cases decl_declares head
    obtain ⟨same, each⟩ := ih tail
    refine ⟨same, fun before d' after split => ?_⟩
    cases before with
    | nil =>
      cases split
      exact head
    | cons first before =>
      cases split
      exact each before d' after rfl

theorem expr_parts {e : Expr} {t : Ty} (stable : ExprStable env e t) :
    ∀ m ∈ Node.parts (.expr e), m.Stable env := by
  cases e with
  | int | char | bool | ident | letIn => simp
  | subscript i array index =>
    obtain ⟨_, _, base, _, _, _, k, first, _, second, _, _, whole⟩ := expr_subscript.mp stable
    obtain ⟨-, rfl, rfl⟩ := Expr.subscript.inj whole
    simpa using ⟨⟨base, first⟩, k, second⟩
  | select i record field =>
    obtain ⟨_, _, base, _, _, _, first, _, _, _, whole⟩ := expr_select.mp stable
    obtain ⟨-, rfl, -⟩ := Expr.select.inj whole
    simpa using ⟨base, first⟩
  | unary i decl op operand =>
    obtain ⟨_, _, _, got, _, _, first, _, whole⟩ := expr_unary.mp stable
    obtain ⟨-, -, -, rfl⟩ := Expr.unary.inj whole
    simpa using ⟨got, first⟩
  | binary i decl op left right =>
    obtain ⟨_, _, u, _, v, _, first, second, _, whole⟩ := expr_binary.mp stable
    obtain ⟨-, -, -, rfl, rfl⟩ := Expr.binary.inj whole
    simpa using ⟨⟨u, first⟩, v, second⟩
  | call i decl name as =>
    obtain ⟨_, _, _, _, _, count, inner, whole⟩ := expr_call.mp stable
    obtain ⟨-, -, -, rfl⟩ := Expr.call.inj whole
    simpa using args_stable count inner
  | cond i test yes no =>
    obtain ⟨_, u, _, v, _, w, first, _, second, third, _, _, whole⟩ := expr_cond.mp stable
    obtain ⟨-, rfl, rfl, rfl⟩ := Expr.cond.inj whole
    simpa using ⟨⟨u, first⟩, ⟨v, second⟩, w, third⟩
  | array i elems =>
    cases elems with
    | nil => simp
    | cons e es =>
      obtain ⟨_, u, _, head, tail, _, whole⟩ := expr_array.mp stable
      obtain ⟨-, same⟩ := Expr.array.inj whole
      cases same
      simpa using ⟨⟨u, head⟩, elements_stable tail⟩
  | record i fields =>
    obtain ⟨_, _, inner, _, whole⟩ := expr_record.mp stable
    obtain ⟨-, rfl⟩ := Expr.record.inj whole
    simp only [Node.parts, mem_map, forall_exists_index, and_imp]
    rintro _ f member rfl
    exact recordFields_stable inner f member

theorem stmt_parts {s : Stmt} (stable : StmtStable env s) :
    ∀ m ∈ Node.parts (.stmt s), m.Stable env := by
  cases s with
  | letIn | skip => simp
  | assign i target value =>
    obtain ⟨_, t, _, u, _, first, second, _, _, _, whole⟩ := stmt_assign.mp stable
    obtain ⟨-, rfl, rfl⟩ := Stmt.assign.inj whole
    simpa using ⟨⟨t, first⟩, u, second⟩
  | call i decl name as =>
    obtain ⟨_, _, _, _, count, inner, whole⟩ := stmt_call.mp stable
    obtain ⟨-, -, -, rfl⟩ := Stmt.call.inj whole
    simpa using args_stable count inner
  | seq i ss =>
    obtain ⟨_, inner, whole⟩ := stmt_seq.mp stable
    obtain ⟨-, rfl⟩ := Stmt.seq.inj whole
    simpa using stmts_stable inner
  | ifThen i test yes =>
    obtain ⟨_, t, _, first, _, second, whole⟩ := stmt_ifThen.mp stable
    obtain ⟨-, rfl, rfl⟩ := Stmt.ifThen.inj whole
    simpa using ⟨⟨t, first⟩, second⟩
  | ifElse i test yes no =>
    obtain ⟨_, t, _, _, first, _, second, third, whole⟩ := stmt_ifElse.mp stable
    obtain ⟨-, rfl, rfl, rfl⟩ := Stmt.ifElse.inj whole
    simpa using ⟨⟨t, first⟩, second, third⟩
  | whileDo i test body =>
    obtain ⟨_, t, _, first, _, second, whole⟩ := stmt_whileDo.mp stable
    obtain ⟨-, rfl, rfl⟩ := Stmt.whileDo.inj whole
    simpa using ⟨⟨t, first⟩, second⟩
  | repeatUntil i body test =>
    obtain ⟨_, _, t, first, second, _, whole⟩ := stmt_repeatUntil.mp stable
    obtain ⟨-, rfl, rfl⟩ := Stmt.repeatUntil.inj whole
    simpa using ⟨first, t, second⟩
  | repeatWhile i body test =>
    obtain ⟨_, _, t, first, second, _, whole⟩ := stmt_repeatWhile.mp stable
    obtain ⟨-, rfl, rfl⟩ := Stmt.repeatWhile.inj whole
    simpa using ⟨first, t, second⟩
  | loopWhile i pre test post =>
    obtain ⟨_, _, t, _, first, second, _, third, whole⟩ := stmt_loopWhile.mp stable
    obtain ⟨-, rfl, rfl, rfl⟩ := Stmt.loopWhile.inj whole
    simpa using ⟨first, ⟨t, second⟩, third⟩
  | forever i body =>
    obtain ⟨_, inner, whole⟩ := stmt_forever.mp stable
    obtain ⟨-, rfl⟩ := Stmt.forever.inj whole
    simpa [Node.Stable] using inner

theorem decl_parts {d : Decl} (stable : DeclStable env d) :
    ∀ m ∈ Node.parts (.decl d), m.Stable env := by
  cases d with
  | const i name value =>
    obtain ⟨_, _, t, inner, whole, _⟩ := decl_const.mp stable
    obtain ⟨-, -, rfl⟩ := Decl.const.inj whole
    simpa using ⟨t, inner⟩
  | var i name s =>
    obtain ⟨_, _, t, inner, whole, _⟩ := decl_var.mp stable
    obtain ⟨-, -, rfl⟩ := Decl.var.inj whole
    simpa using ⟨t, inner⟩
  | type i name s =>
    obtain ⟨_, _, t, inner, whole, _⟩ := decl_type.mp stable
    obtain ⟨-, -, rfl⟩ := Decl.type.inj whole
    simpa using ⟨t, inner⟩
  | func i name ps result body =>
    obtain ⟨_, _, _, _, r, _, _, formals, returned, whole, _⟩ := decl_func.mp stable
    obtain ⟨-, -, rfl, rfl, -⟩ := Decl.func.inj whole
    intro m member
    simp only [Node.parts, mem_append, mem_map, mem_singleton] at member
    rcases member with ⟨p, member, rfl⟩ | rfl
    · exact params_stable formals p member
    · exact ⟨r, returned⟩
  | proc i name ps body =>
    obtain ⟨_, _, _, _, formals, whole, _⟩ := decl_proc.mp stable
    obtain ⟨-, -, rfl, -⟩ := Decl.proc.inj whole
    simpa using params_stable formals

theorem param_parts {p : Param} {t : Ty} (stable : Check.param env p = ⟨p, .ok t, []⟩) :
    ∀ m ∈ Node.parts (.param p), m.Stable env := by
  cases p with
  | value i name s =>
    obtain ⟨_, inner, whole⟩ := param_value.mp stable
    obtain ⟨-, -, rfl⟩ := Param.value.inj whole
    simpa using ⟨t, inner⟩
  | var i name s =>
    obtain ⟨_, u, inner, _, whole⟩ := param_var.mp stable
    obtain ⟨-, -, rfl⟩ := Param.var.inj whole
    simpa using ⟨u, inner⟩
  | func i name ps result =>
    obtain ⟨_, _, _, u, formals, returned, _, whole⟩ := param_func.mp stable
    obtain ⟨-, -, rfl, rfl⟩ := Param.func.inj whole
    intro m member
    simp only [Node.parts, mem_append, mem_map, Option.mem_toList] at member
    rcases member with ⟨p, member, rfl⟩ | ⟨s, same, rfl⟩
    · exact params_stable formals p member
    · cases same
      obtain ⟨_, inner, whole⟩ := resultSig_some.mp returned
      cases whole
      exact ⟨u, inner⟩

theorem arg_parts {a : Arg} {callee : String} {index : Nat} {want : Ty}
    (stable : Check.arg env callee index want a = ⟨a, .ok (), []⟩) :
    ∀ m ∈ Node.parts (.arg a), m.Stable env := by
  cases a with
  | value i value =>
    obtain ⟨_, _, _, got, inner, _, whole⟩ := arg_value.mp stable
    obtain ⟨-, rfl⟩ := Arg.value.inj whole
    simpa using ⟨got, inner⟩
  | var i target =>
    obtain ⟨_, _, got, _, _, inner, _, _, _, whole⟩ := arg_var.mp stable
    obtain ⟨-, rfl⟩ := Arg.var.inj whole
    simpa using ⟨got, inner⟩
  | func => simp

theorem sig_parts {s : Sig} {t : Ty} (stable : Check.sig env s = ⟨s, .ok t, []⟩) :
    ∀ m ∈ Node.parts (.sig s), m.Stable env := by
  cases s with
  | named => simp
  | array i length elem =>
    obtain ⟨_, _, _, u, inner, _, whole⟩ := sig_array.mp stable
    obtain ⟨-, -, rfl⟩ := Sig.array.inj whole
    simpa using ⟨u, inner⟩
  | record i fields =>
    obtain ⟨_, _, inner, _, whole⟩ := sig_record.mp stable
    obtain ⟨-, rfl⟩ := Sig.record.inj whole
    simp only [Node.parts, mem_map, forall_exists_index, and_imp]
    rintro _ f member rfl
    exact sigFields_stable inner f member

theorem Opens.stable (opens : Opens env n env' m) (stable : n.Stable env) : m.Stable env' := by
  cases opens with
  | part member =>
    cases n with
    | expr e => exact expr_parts stable.choose_spec m member
    | stmt s => exact stmt_parts stable m member
    | decl d => exact decl_parts stable m member
    | param p => exact param_parts stable.choose_spec m member
    | arg a =>
      obtain ⟨callee, index, want, accepted⟩ := stable
      exact arg_parts accepted m member
    | sig s => exact sig_parts stable.choose_spec m member
  | declared block =>
    rcases Node.block?_eq_some block with ⟨i, e, rfl, rfl⟩ | ⟨i, s, rfl, rfl⟩
    · obtain ⟨t, stable⟩ := stable
      obtain ⟨_, _, _, _, first, _, _, whole⟩ := expr_letIn.mp stable
      obtain ⟨-, rfl, -⟩ := Expr.letIn.inj whole
      exact (decls_stable first).2 _ _ _ rfl
    · obtain ⟨_, _, _, first, _, whole⟩ := stmt_letIn.mp stable
      obtain ⟨-, rfl, -⟩ := Stmt.letIn.inj whole
      exact (decls_stable first).2 _ _ _ rfl
  | body block =>
    rcases Node.block?_eq_some block with ⟨i, e, rfl, rfl⟩ | ⟨i, s, rfl, rfl⟩
    · obtain ⟨t, stable⟩ := stable
      obtain ⟨_, _, _, u, first, second, _, whole⟩ := expr_letIn.mp stable
      obtain ⟨-, rfl, rfl⟩ := Expr.letIn.inj whole
      cases (decls_stable first).1
      exact ⟨u, second⟩
    · obtain ⟨_, _, _, first, second, whole⟩ := stmt_letIn.mp stable
      obtain ⟨-, rfl, rfl⟩ := Stmt.letIn.inj whole
      cases (decls_stable first).1
      exact second
  | routine same routine =>
    rcases Node.routine?_eq_some routine with
      ⟨i, name, result, e, rfl, rfl⟩ | ⟨i, name, s, rfl, rfl⟩
    · cases same
      obtain ⟨_, _, ts, _, r, _, t, _, _, whole, _, inner, _⟩ := decl_func.mp stable
      obtain ⟨info, -, rfl, rfl, rfl⟩ := Decl.func.inj whole
      refine ⟨t, ?_⟩
      simpa [formals, Node.info, Decl.info, Info.ty_of_eq_setTy info] using inner
    · cases same
      obtain ⟨_, _, ts, _, _, whole, _, inner⟩ := decl_proc.mp stable
      obtain ⟨info, -, rfl, rfl⟩ := Decl.proc.inj whole
      simpa [Node.Stable, formals, Node.info, Decl.info, Info.ty_of_eq_setTy info] using inner

/-- Every node below a stable one is stable in its scope. -/
theorem Within.stable (within : Within env n env' m) (stable : n.Stable env) : m.Stable env' := by
  induction within with
  | here => exact stable
  | step _ opens ih => exact opens.stable ih

/-! ## What is in scope at a node -/

/-- The node brings the name into scope, as the entry: a variable can be assigned to and all else is
constant. -/
def Enters (v : Node) (x : String) (e : Scope.Entry Meaning) : Prop :=
  match v with
  | .decl d => d.kind ≠ .type ∧ x = d.name ∧
      ∃ t, e = ⟨.typed t d.binding, decide (d.kind ≠ .var)⟩
  | .param p => x = p.name ∧ ∃ t, e = ⟨.typed t p.binding, decide (p.kind ≠ .varParam)⟩
  | _ => False

theorem bound?_declareAll {ds : List Decl} {x : String} {e : Scope.Entry Meaning}
    (found : (env.declareAll ds).terms.bound? x = some e) :
    env.terms.bound? x = some e ∨ ∃ d ∈ ds, Enters (.decl d) x e := by
  induction ds generalizing env with
  | nil => exact .inl found
  | cons d ds ih =>
    rcases ih found with before | ⟨d', member, enters⟩
    · rw [bound?_declare] at before
      split at before
      · rename_i here
        cases before
        exact .inr ⟨d, mem_cons_self, here.1, here.2, _, rfl⟩
      · exact .inl before
    · exact .inr ⟨d', mem_cons_of_mem _ member, enters⟩

/-- What is in scope right below a node is in scope at the node or declared there. -/
theorem Opens.entry (opens : Opens env n env' m) {x : String} {e : Scope.Entry Meaning}
    (found : env'.terms.bound? x = some e) :
    env.terms.bound? x = some e ∨ ∃ v ∈ n.all, Enters v x e := by
  cases opens with
  | part => exact .inl found
  | declared block =>
    rcases bound?_declareAll found with before | ⟨d, member, enters⟩
    · exact .inl (by simpa [Env.enterBlock] using before)
    · have child : n.Child (.decl d) := .declared block (by simp [member])
      exact .inr ⟨_, child.all_subset (Node.self_mem_all _), enters⟩
  | body block =>
    rcases bound?_declareAll found with before | ⟨d, member, enters⟩
    · exact .inl (by simpa [Env.enterBlock] using before)
    · have child : n.Child (.decl d) := .declared block member
      exact .inr ⟨_, child.all_subset (Node.self_mem_all _), enters⟩
  | @routine d params body same routine =>
    subst same
    rcases bound?_bindParams _ params (formals (.decl d)) x with before | ⟨p, member, named, t, bound⟩
    · rw [found, Env.enterRoutine, Scope.Table.bound?_enterScope, bound?_declare] at before
      split at before
      · rename_i here
        cases before
        exact .inr ⟨_, Node.self_mem_all _, here.1, here.2, _, rfl⟩
      · exact .inl before.symm
    · cases found.symm.trans bound
      exact .inr ⟨_, (Node.Child.formal routine member).all_subset (Node.self_mem_all _), named, t, rfl⟩

theorem Within.all_subset (within : Within env n env' m) : m.all ⊆ n.all := by
  induction within with
  | here => exact fun _ => id
  | step _ opens ih => exact fun _ member => ih (opens.child.all_subset member)

/-- What is in scope at a node below is in scope at the node or declared between the two. -/
theorem Within.entry (within : Within env n env' m) {x : String} {e : Scope.Entry Meaning}
    (found : env'.terms.bound? x = some e) :
    env.terms.bound? x = some e ∨ ∃ v ∈ n.all, Enters v x e := by
  induction within with
  | here => exact .inl found
  | step first opens ih =>
    rcases opens.entry found with before | ⟨v, member, enters⟩
    · exact ih before
    · exact .inr ⟨v, first.all_subset member, enters⟩

end Check

theorem Node.Stable.part {env : Check.Env} {n m : Node} (stable : n.Stable env)
    (member : m ∈ n.parts := by simp [Node.parts]) : m.Stable env :=
  (Check.Opens.part member).stable stable

theorem Node.Stable.block {env : Check.Env} {n body : Node} {ds : List Decl} (stable : n.Stable env)
    (block : n.block? = some (ds, body)) :
    Check.DeclsStable env.enterBlock ds ∧ body.Stable (env.enterBlock.declareAll ds) := by
  refine ⟨?_, (Check.Opens.body block).stable stable⟩
  rcases Node.block?_eq_some block with ⟨i, e, rfl, rfl⟩ | ⟨i, s, rfl, rfl⟩
  · obtain ⟨_, _, _, _, first, _, _, whole⟩ := Check.expr_letIn.mp stable.choose_spec
    obtain ⟨-, rfl, -⟩ := Expr.letIn.inj whole
    obtain rfl := (Check.decls_stable first).1
    exact first
  · obtain ⟨_, _, _, first, _, whole⟩ := Check.stmt_letIn.mp stable
    obtain ⟨-, rfl, -⟩ := Stmt.letIn.inj whole
    obtain rfl := (Check.decls_stable first).1
    exact first

/-- Every node of what checking makes of an accepted program is stable in its scope. -/
theorem Program.within_stable {p q : Program} (accepted : p.check = (q, [])) {n : Node}
    (member : n ∈ q.nodes) : ∃ env, Check.Within .standard (.stmt q.body) env n ∧ n.Stable env := by
  obtain ⟨env, within⟩ := Check.Within.of_mem (.stmt q.body) .standard n member
  exact ⟨env, within, within.stable (Program.check_stable accepted)⟩

end Triangle
