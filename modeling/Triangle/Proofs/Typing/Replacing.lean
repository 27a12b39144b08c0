import Mathlib
import Triangle.Proofs.Tree.Induction
import Triangle.Proofs.Typing.Nodes
import Triangle.Proofs.Typing.Widening
import Triangle.Tree.Literal

/-! One tree in the place of another. A tree stays stable where its parts are replaced by parts that
are stable and of the same type up to references, in an environment that may be wider. There is one
rule for each form of a tree; a pass over trees follows them, and adds what it does itself. -/
namespace Triangle

/-- The second says the same of a node as the first. Only the number of a twin may differ. -/
def Info.Alike (i i' : Info) : Prop := i'.pos = i.pos ∧ i'.ty = i.ty

@[simp] theorem Info.Alike.refl (i : Info) : i.Alike i := ⟨rfl, rfl⟩

@[simp] theorem Info.Alike.alone (i : Info) : i.Alike i.alone := ⟨rfl, rfl⟩

theorem Info.Alike.filled {i i' : Info} {t : Ty} (alike : i.Alike i') (same : i = i.setTy t) :
    i' = i'.setTy t :=
  Info.eq_setTy (alike.2.trans (Info.ty_of_eq_setTy same))

def Literal.ty : Literal → Ty
  | .int _ => .integer
  | .char _ => .char
  | .bool _ => .boolean

@[simp] theorem Literal.deref_ty (l : Literal) : l.ty.deref = l.ty := by
  cases l <;> rfl

attribute [local simp] Decl.binding Decl.kind Decl.name Decl.pos Decl.info

namespace Check

variable {env env' : Env} {t : Ty} {i i' : Info}

theorem ty_of_literal {e : Expr} {l : Literal} (stable : ExprStable env e t)
    (same : e.literal? = some l) : t = l.ty := by
  cases e with
  | int i n =>
    cases same
    exact (expr_int.mp stable).2.2.1
  | char i c =>
    cases same
    exact (expr_char.mp stable).1
  | bool i b =>
    cases same
    exact (expr_bool.mp stable).1
  | _ => cases same

/-! ## Expressions -/

theorem Meaning.Joins.of_deref {m : Meaning} {u v u' v' : Ty}
    (joins : m.Joins u v t) (left : u'.deref = u.deref) (right : v'.deref = v.deref) :
    m.Joins u' v' t := by
  cases m with
  | equality => exact ⟨left.trans (joins.1.trans right.symm), joins.2⟩
  | typed =>
    obtain ⟨p, q, same, first, second⟩ := joins
    exact ⟨p, q, same, left.trans first, right.trans second⟩

/-- The second expression can stand for the first, which is accepted in `env`, in `env'`. A variable
stays the variable that it is, unless it is a constant that a literal stands for. -/
def Becomes (env env' : Env) (e e' : Expr) : Prop :=
  ∀ t, ExprStable env e t → ∃ t', ExprStable env' e' t' ∧ t'.deref = t.deref ∧
    ∀ root, e.root? = some root → e'.root? = some root ∧ t' = t ∨
      env.terms.isConst root = true ∧ ∃ l, e'.literal? = some l

namespace Becomes

variable {e e' : Expr}

theorem refl (env : Env) (e : Expr) : Becomes env env e e :=
  fun t stable => ⟨t, stable, rfl, fun _ same => .inl ⟨same, rfl⟩⟩

/-- An expression of the same type. -/
theorem of_same (rootless : e.root? = none)
    (keeps : ∀ t, ExprStable env e t → ExprStable env' e' t) : Becomes env env' e e' := by
  intro t stable
  refine ⟨t, keeps t stable, rfl, fun root same => ?_⟩
  cases rootless.symm.trans same

/-- An expression that a part of it can stand for. -/
theorem branch {whole : Expr} (becomes : Becomes env env' e e') (rootless : whole.root? = none)
    (part : ∀ t, ExprStable env whole t → ∃ u, ExprStable env e u ∧ u.deref = t.deref) :
    Becomes env env' whole e' := by
  intro t stable
  obtain ⟨u, stable, same⟩ := part t stable
  obtain ⟨u', stable', deref, -⟩ := becomes u stable
  refine ⟨u', stable', deref.trans same, fun root found => ?_⟩
  cases rootless.symm.trans found

/-- What is not a scalar is not replaced by a literal. -/
theorem component (becomes : Becomes env env' e e') (stable : ExprStable env e t)
    (rooted : e.root?.isSome) (compound : ∀ l : Literal, t.deref ≠ l.ty) :
    ExprStable env' e' t ∧ e'.root? = e.root? := by
  obtain ⟨root, same⟩ := Option.isSome_iff_exists.mp rooted
  obtain ⟨t', stable', deref, stays⟩ := becomes t stable
  rcases stays root same with ⟨same', rfl⟩ | ⟨-, l, literal⟩
  · exact ⟨stable', same'.trans same.symm⟩
  · have scalar := ty_of_literal stable' literal
    subst scalar
    exact absurd (deref.symm.trans l.deref_ty) (compound l)

/-- What is assigned to is not replaced by a literal. -/
theorem target {root : String} (becomes : Becomes env env' e e') (stable : ExprStable env e t)
    (same : e.root? = some root) (assignable : env.terms.isConst root = false) :
    ExprStable env' e' t ∧ e'.root? = some root := by
  obtain ⟨t', stable', -, stays⟩ := becomes t stable
  rcases stays root same with ⟨same', rfl⟩ | ⟨constant, -⟩
  · exact ⟨stable', same'⟩
  · cases constant.symm.trans assignable

@[simp] theorem int (alike : i.Alike i') (value : Int) : Becomes env env' (.int i value) (.int i' value) :=
  of_same rfl fun t stable => by
    obtain ⟨low, high, rfl, whole⟩ := expr_int.mp stable
    exact expr_int.mpr ⟨low, high, rfl, congrArg (Expr.int · value) (alike.filled (Expr.int.inj whole).1)⟩

@[simp] theorem char (alike : i.Alike i') (value : Char) :
    Becomes env env' (.char i value) (.char i' value) :=
  of_same rfl fun t stable => by
    obtain ⟨rfl, whole⟩ := expr_char.mp stable
    exact expr_char.mpr ⟨rfl, congrArg (Expr.char · value) (alike.filled (Expr.char.inj whole).1)⟩

@[simp] theorem bool (alike : i.Alike i') (value : Bool) :
    Becomes env env' (.bool i value) (.bool i' value) :=
  of_same rfl fun t stable => by
    obtain ⟨rfl, whole⟩ := expr_bool.mp stable
    exact expr_bool.mpr ⟨rfl, congrArg (Expr.bool · value) (alike.filled (Expr.bool.inj whole).1)⟩

@[simp] theorem ident (wide : env.Widens env') (alike : i.Alike i') (decl : Option Binding) (name : String) :
    Becomes env env' (.ident i decl name) (.ident i' decl name) := by
  intro t stable
  obtain ⟨plain, b, found, whole⟩ := expr_ident.mp stable
  obtain ⟨info, rfl, -⟩ := Expr.ident.inj whole
  refine ⟨t, expr_ident.mpr ⟨plain, b, wide.lookup found, ?_⟩, rfl, fun _ same => .inl ⟨same, rfl⟩⟩
  rw [← alike.filled info]

@[simp] theorem subscript {index index' : Expr} (alike : i.Alike i') (array : Becomes env env' e e')
    (counts : Becomes env env' index index') :
    Becomes env env' (.subscript i e index) (.subscript i' e' index') := by
  intro t stable
  obtain ⟨rooted, _, base, length, elem, _, k, first, isArray, second, integer, rfl, whole⟩ :=
    expr_subscript.mp stable
  obtain ⟨info, rfl, rfl⟩ := Expr.subscript.inj whole
  have compound : ∀ l : Literal, base.deref ≠ l.ty := fun l => by rw [isArray]; cases l <;> simp [Literal.ty]
  obtain ⟨first', root⟩ := array.component first rooted compound
  obtain ⟨k', second', deref, -⟩ := counts k second
  refine ⟨_, expr_subscript.mpr ⟨root ▸ rooted, e', base, length, elem, index', k', first', isArray,
    second', deref.trans integer, rfl, ?_⟩, rfl, fun _ same => .inl ⟨root.trans same, rfl⟩⟩
  rw [← alike.filled info]

@[simp] theorem select (alike : i.Alike i') (record : Becomes env env' e e') (field : String) :
    Becomes env env' (.select i e field) (.select i' e' field) := by
  intro t stable
  obtain ⟨rooted, _, base, fields, inner, k, first, isRecord, found, rfl, whole⟩ :=
    expr_select.mp stable
  obtain ⟨info, rfl, -⟩ := Expr.select.inj whole
  have compound : ∀ l : Literal, base.deref ≠ l.ty := fun l => by rw [isRecord]; cases l <;> simp [Literal.ty]
  obtain ⟨first', root⟩ := record.component first rooted compound
  refine ⟨_, expr_select.mpr ⟨root ▸ rooted, e', base, fields, inner, k, first', isRecord, found, rfl,
    ?_⟩, rfl, fun _ same => .inl ⟨root.trans same, rfl⟩⟩
  rw [← alike.filled info]

@[simp] theorem unary (wide : env.Widens env') (alike : i.Alike i') (decl : Option Binding) (op : String)
    (operand : Becomes env env' e e') : Becomes env env' (.unary i decl op e) (.unary i' decl op e') :=
  of_same rfl fun t stable => by
    obtain ⟨m, want, _, got, found, signature, first, same, whole⟩ := expr_unary.mp stable
    obtain ⟨info, rfl, -, rfl⟩ := Expr.unary.inj whole
    obtain ⟨got', first', deref, -⟩ := operand got first
    refine expr_unary.mpr ⟨m, want, e', got', wide.unary found, signature, first', deref.trans same, ?_⟩
    rw [← alike.filled info]

@[simp] theorem binary {left left' right right' : Expr} (wide : env.Widens env') (alike : i.Alike i')
    (decl : Option Binding) (op : String) (first : Becomes env env' left left')
    (second : Becomes env env' right right') :
    Becomes env env' (.binary i decl op left right) (.binary i' decl op left' right') :=
  of_same rfl fun t stable => by
    obtain ⟨m, _, u, _, v, found, one, two, joins, whole⟩ := expr_binary.mp stable
    obtain ⟨info, rfl, -, rfl, rfl⟩ := Expr.binary.inj whole
    obtain ⟨u', one', left, -⟩ := first u one
    obtain ⟨v', two', right, -⟩ := second v two
    refine expr_binary.mpr ⟨m, left', u', right', v', wide.lookup found, one', two',
      joins.of_deref left right, ?_⟩
    rw [← alike.filled info]

@[simp] theorem cond {test test' yes yes' no no' : Expr} (alike : i.Alike i')
    (first : Becomes env env' test test') (second : Becomes env env' yes yes')
    (third : Becomes env env' no no') :
    Becomes env env' (.cond i test yes no) (.cond i' test' yes' no') :=
  of_same rfl fun t stable => by
    obtain ⟨_, u, _, v, _, w, one, boolean, two, three, same, rfl, whole⟩ := expr_cond.mp stable
    obtain ⟨info, rfl, rfl, rfl⟩ := Expr.cond.inj whole
    obtain ⟨u', one', tested, -⟩ := first u one
    obtain ⟨v', two', left, -⟩ := second v two
    obtain ⟨w', three', right, -⟩ := third w three
    refine expr_cond.mpr ⟨test', u', yes', v', no', w', one', tested.trans boolean, two', three',
      left.trans (same.trans right.symm), left.symm, ?_⟩
    rw [← alike.filled info]

/-! ### Lists of expressions -/

theorem elements {es es' : List Expr} {want : Ty} {index : Nat}
    (each : List.Forall₂ (Becomes env env') es es')
    (stable : Check.elements env want index es = ⟨es, .ok (), []⟩) :
    Check.elements env' want index es' = ⟨es', .ok (), []⟩ := by
  induction each generalizing index with
  | nil => exact stable
  | @cons e e' es es' first _ ih =>
    obtain ⟨_, t, _, head, same, tail, whole⟩ := elements_cons.mp stable
    cases whole
    obtain ⟨t', head', deref, -⟩ := first t head
    exact elements_cons.mpr ⟨e', t', es', head', by rw [deref, same], ih tail, rfl⟩

@[simp] theorem array {es es' : List Expr} (alike : i.Alike i')
    (each : List.Forall₂ (Becomes env env') es es') :
    Becomes env env' (.array i es) (.array i' es') :=
  of_same rfl fun t stable => by
    cases each with
    | nil => simp [ExprStable, expr] at stable
    | @cons e e' es es' first rest =>
      obtain ⟨_, u, _, head, tail, rfl, whole⟩ := expr_array.mp stable
      obtain ⟨info, same⟩ := Expr.array.inj whole
      cases same
      obtain ⟨u', head', deref, -⟩ := first u head
      refine expr_array.mpr ⟨e', u', es', head', deref ▸ elements rest tail, ?_, ?_⟩
      · rw [deref, rest.length_eq]
      · rw [← alike.filled info]

theorem recordFields {fields fields' : List (String × Expr)} {ts : List (String × Ty)} {pos : Pos}
    {seen : List String}
    (each : List.Forall₂ (fun f f' => f'.1 = f.1 ∧ Becomes env env' f.2 f'.2) fields fields')
    (stable : Check.recordFields env pos seen fields = ⟨fields, .ok ts, []⟩) :
    Check.recordFields env' pos seen fields' = ⟨fields', .ok ts, []⟩ := by
  induction each generalizing ts seen with
  | nil => exact stable
  | @cons f f' fields fields' first _ ih =>
    obtain ⟨name, e⟩ := f
    obtain ⟨name', e'⟩ := f'
    obtain ⟨rfl, first⟩ := first
    obtain ⟨fresh, _, t, _, us, head, tail, whole, rfl⟩ := recordFields_cons.mp stable
    cases whole
    obtain ⟨t', head', deref, -⟩ := first t head
    exact recordFields_cons.mpr ⟨fresh, e', t', fields', us, head', ih tail, rfl, by rw [deref]⟩

@[simp] theorem record {fields fields' : List (String × Expr)} (alike : i.Alike i')
    (each : List.Forall₂ (fun f f' => f'.1 = f.1 ∧ Becomes env env' f.2 f'.2) fields fields') :
    Becomes env env' (.record i fields) (.record i' fields') :=
  of_same rfl fun t stable => by
    obtain ⟨_, ts, inner, rfl, whole⟩ := expr_record.mp stable
    obtain ⟨info, rfl⟩ := Expr.record.inj whole
    refine expr_record.mpr ⟨fields', ts, alike.1 ▸ recordFields each inner, rfl, ?_⟩
    rw [← alike.filled info]

end Becomes

/-! ## Arguments -/

def ArgBecomes (env env' : Env) (a a' : Arg) : Prop :=
  ∀ callee index want, Check.arg env callee index want a = ⟨a, .ok (), []⟩ →
    Check.arg env' callee index want a' = ⟨a', .ok (), []⟩

@[simp] theorem ArgBecomes.value {e e' : Expr} (alike : i.Alike i') (becomes : Becomes env env' e e') :
    ArgBecomes env env' (.value i e) (.value i' e') := by
  intro callee index want stable
  obtain ⟨noRef, noFunc, _, got, inner, same, whole⟩ := arg_value.mp stable
  obtain ⟨info, rfl⟩ := Arg.value.inj whole
  obtain ⟨got', inner', deref, -⟩ := becomes got inner
  refine arg_value.mpr ⟨noRef, noFunc, e', got', inner', deref.trans same, ?_⟩
  rw [deref, ← alike.filled info]

@[simp] theorem ArgBecomes.var {e e' : Expr} (wide : env.Widens env') (alike : i.Alike i')
    (becomes : Becomes env env' e e') : ArgBecomes env env' (.var i e) (.var i' e') := by
  intro callee index want stable
  obtain ⟨inner, _, got, root, isRef, checked, same, found, assignable, whole⟩ := arg_var.mp stable
  obtain ⟨info, rfl⟩ := Arg.var.inj whole
  obtain ⟨checked', found'⟩ := becomes.target checked found assignable
  obtain ⟨m, bound⟩ := root_bound checked found
  refine arg_var.mpr ⟨inner, e', got, root, isRef, checked', same, found',
    (wide.isConst bound).trans assignable, ?_⟩
  rw [← alike.filled info]

@[simp] theorem ArgBecomes.func (wide : env.Widens env') (alike : i.Alike i') (decl : Option Binding)
    (name : String) : ArgBecomes env env' (.func i decl name) (.func i' decl name) := by
  intro callee index want stable
  obtain ⟨ps, r, b, rfl, found, whole⟩ := arg_func.mp stable
  obtain ⟨info, rfl, -⟩ := Arg.func.inj whole
  refine arg_func.mpr ⟨ps, r, b, rfl, wide.lookup found, ?_⟩
  rw [← alike.filled info]

theorem args_become {as as' : List Arg} {callee : String} {index : Nat} {wants : List Ty}
    (count : as.length = wants.length) (each : List.Forall₂ (ArgBecomes env env') as as')
    (stable : Check.args env callee index wants as = ⟨as, .ok (), []⟩) :
    Check.args env' callee index wants as' = ⟨as', .ok (), []⟩ := by
  induction each generalizing index wants with
  | nil => exact stable
  | @cons a a' as as' first _ ih =>
    cases wants with
    | nil => simp at count
    | cons want wants =>
      obtain ⟨_, _, head, tail, whole⟩ := args_cons.mp stable
      cases whole
      exact args_cons.mpr ⟨a', as', first _ _ _ head, ih (by simpa using count) tail, rfl⟩

@[simp] theorem Becomes.call {as as' : List Arg} (wide : env.Widens env') (alike : i.Alike i')
    (decl : Option Binding) (name : String) (each : List.Forall₂ (ArgBecomes env env') as as') :
    Becomes env env' (.call i decl name as) (.call i' decl name as') :=
  of_same rfl fun t stable => by
    obtain ⟨valued, wants, b, _, found, count, inner, whole⟩ := expr_call.mp stable
    obtain ⟨info, rfl, -, rfl⟩ := Expr.call.inj whole
    refine expr_call.mpr ⟨valued, wants, b, as', wide.lookup found, each.length_eq.symm.trans count,
      args_become count each inner, ?_⟩
    rw [← alike.filled info]

/-! ## Declarations -/

def SigBecomes (env env' : Env) (s s' : Sig) : Prop :=
  ∀ t, sig env s = ⟨s, .ok t, []⟩ → sig env' s' = ⟨s', .ok t, []⟩

@[simp] theorem SigBecomes.same (wide : env.Widens env') (s : Sig) : SigBecomes env env' s s :=
  fun _ => sig_widens wide.types

structure ParamsBecome (env env' : Env) (ps ps' : List Param) : Prop where
  stable : ∀ ts seen, Check.params env seen ps = ⟨ps, .ok ts, []⟩ →
    Check.params env' seen ps' = ⟨ps', .ok ts, []⟩
  binds : ∀ (outer : Env) ts, outer.bindParams ps' ts = outer.bindParams ps ts

@[simp] theorem ParamsBecome.same (wide : env.Widens env') (ps : List Param) :
    ParamsBecome env env' ps ps :=
  ⟨fun _ _ => params_widens wide.types, fun _ _ => rfl⟩

def StmtBecomes (env env' : Env) (s s' : Stmt) : Prop := StmtStable env s → StmtStable env' s'

/-- The second declaration stands for the first, and brings the same into scope. -/
structure DeclBecomes (env env' : Env) (d d' : Decl) : Prop where
  stable : env.SameTop env' → DeclStable env d → DeclStable env' d'
  declares : ∀ outer : Env, outer.declare d' = outer.declare d

namespace DeclBecomes

variable {name : String}

@[simp] theorem const {value value' : Expr} (alike : i.Alike i') (becomes : Becomes env env' value value') :
    DeclBecomes env env' (.const i name value) (.const i' name value') where
  stable top stable := by
    obtain ⟨fresh, _, t, inner, whole, -⟩ := decl_const.mp stable
    obtain ⟨info, -, rfl⟩ := Decl.const.inj whole
    obtain ⟨t', inner', deref, -⟩ := becomes t inner
    refine decl_const.mpr ⟨(top.terms name).trans fresh, value', t', inner', ?_, rfl⟩
    rw [deref, ← alike.filled info]
  declares := declare_congr (by simp [alike.1])
    alike.2

@[simp] theorem var {s s' : Sig} (alike : i.Alike i') (becomes : SigBecomes env env' s s') :
    DeclBecomes env env' (.var i name s) (.var i' name s') where
  stable top stable := by
    obtain ⟨fresh, _, t, inner, whole, -⟩ := decl_var.mp stable
    obtain ⟨info, -, rfl⟩ := Decl.var.inj whole
    refine decl_var.mpr ⟨(top.terms name).trans fresh, s', t, becomes t inner, ?_, rfl⟩
    rw [← alike.filled info]
  declares := declare_congr (by simp [alike.1])
    alike.2

@[simp] theorem type {s s' : Sig} (alike : i.Alike i') (becomes : SigBecomes env env' s s') :
    DeclBecomes env env' (.type i name s) (.type i' name s') where
  stable top stable := by
    obtain ⟨fresh, _, t, inner, whole, -⟩ := decl_type.mp stable
    obtain ⟨info, -, rfl⟩ := Decl.type.inj whole
    refine decl_type.mpr ⟨(top.types name).trans fresh, s', t, becomes t inner, ?_, rfl⟩
    rw [← alike.filled info]
  declares := declare_congr (by simp [alike.1])
    alike.2

/-- The body is looked at where the function itself is declared. -/
theorem func {ps ps' : List Param} {result result' : Sig} {body body' : Expr} (alike : i.Alike i')
    (formals : ParamsBecome env env' ps ps') (returned : SigBecomes env env' result result')
    (becomes : ∀ ts, DeclStable env (.func i name ps result body) →
      Check.params env [] ps = ⟨ps, .ok ts, []⟩ → Becomes
      ((env.declare (.func i name ps result body)).enterRoutine.bindParams ps ts)
      ((env'.declare (.func i name ps result body)).enterRoutine.bindParams ps ts) body body') :
    DeclBecomes env env' (.func i name ps result body) (.func i' name ps' result' body') := by
  have declares : ∀ outer : Env, outer.declare (.func i' name ps' result' body') =
      outer.declare (.func i name ps result body) := declare_congr
    (by simp [alike.1]) alike.2
  refine ⟨fun top stable => ?_, declares⟩
  obtain ⟨fresh, _, ts, _, r, _, t, params, sig, whole, -, inner, same⟩ := decl_func.mp stable
  obtain ⟨info, -, rfl, rfl, rfl⟩ := Decl.func.inj whole
  obtain ⟨t', inner', deref, -⟩ := becomes ts stable params t inner
  refine decl_func.mpr ⟨(top.terms name).trans fresh, ps', ts, result', r, body', t',
    formals.stable ts [] params, returned r sig, ?_, rfl, ?_, deref.trans same⟩
  · rw [← alike.filled info]
  · rwa [formals.binds, declares]

theorem proc {ps ps' : List Param} {body body' : Stmt} (alike : i.Alike i')
    (formals : ParamsBecome env env' ps ps')
    (becomes : ∀ ts, DeclStable env (.proc i name ps body) →
      Check.params env [] ps = ⟨ps, .ok ts, []⟩ → StmtBecomes
      ((env.declare (.proc i name ps body)).enterRoutine.bindParams ps ts)
      ((env'.declare (.proc i name ps body)).enterRoutine.bindParams ps ts) body body') :
    DeclBecomes env env' (.proc i name ps body) (.proc i' name ps' body') := by
  have declares : ∀ outer : Env, outer.declare (.proc i' name ps' body') =
      outer.declare (.proc i name ps body) := declare_congr
    (by simp [alike.1]) alike.2
  refine ⟨fun top stable => ?_, declares⟩
  obtain ⟨fresh, _, ts, _, params, whole, -, inner⟩ := decl_proc.mp stable
  obtain ⟨info, -, rfl, rfl⟩ := Decl.proc.inj whole
  refine decl_proc.mpr ⟨(top.terms name).trans fresh, ps', ts, body', formals.stable ts [] params,
    ?_, rfl, ?_⟩
  · rw [← alike.filled info]
  · rw [formals.binds, declares]
    exact becomes ts stable params inner

end DeclBecomes

/-- The scope of the body of a routine. -/
theorem Env.IsSound.inside {d : Decl} {ps : List Param} {ts : List Ty} (sound : env.IsSound)
    (stable : DeclStable env d) (formals : Check.params env [] ps = ⟨ps, .ok ts, []⟩) :
    ((env.declare d).enterRoutine.bindParams ps ts).IsSound :=
  (decl_typed sound stable).2.enterRoutine.bindParams (params_typed sound formals)

structure DeclsBecome (env env' : Env) (ds ds' : List Decl) : Prop where
  stable : env.SameTop env' → DeclsStable env ds → DeclsStable env' ds'
  declares : ∀ outer : Env, outer.declareAll ds' = outer.declareAll ds

@[simp] theorem DeclsBecome.nil (env env' : Env) : DeclsBecome env env' [] [] :=
  ⟨fun _ _ => rfl, fun _ => rfl⟩

theorem DeclsBecome.cons {d d' : Decl} {ds ds' : List Decl} (first : DeclBecomes env env' d d')
    (rest : DeclStable env d → DeclsBecome (env.declare d) (env'.declare d) ds ds') :
    DeclStable env d → DeclsBecome env env' (d :: ds) (d' :: ds') := by
  intro head
  refine ⟨fun top stable => ?_, fun outer => ?_⟩
  · refine declsStable_cons.mpr ⟨first.stable top head, ?_⟩
    rw [first.declares]
    exact (rest head).stable (top.declare d) (declsStable_cons.mp stable).2
  · show (outer.declare d').declareAll ds' = (outer.declare d).declareAll ds
    rw [first.declares, (rest head).declares]

theorem Becomes.letIn {ds ds' : List Decl} {body body' : Expr} (alike : i.Alike i')
    (declared : DeclsStable env.enterBlock ds → DeclsBecome env.enterBlock env'.enterBlock ds ds')
    (inside : DeclsStable env.enterBlock ds →
      Becomes (env.enterBlock.declareAll ds) (env'.enterBlock.declareAll ds) body body') :
    Becomes env env' (.letIn i ds body) (.letIn i' ds' body') :=
  of_same rfl fun t stable => by
    obtain ⟨_, inner, _, u, first, second, rfl, whole⟩ := expr_letIn.mp stable
    obtain ⟨info, rfl, rfl⟩ := Expr.letIn.inj whole
    obtain rfl := (decls_stable first).1
    obtain ⟨u', second', deref, -⟩ := inside first u second
    refine expr_letIn.mpr ⟨ds', _, body', u', (declared first).stable (.enterBlock _ _) first, ?_,
      deref.symm, ?_⟩
    · rwa [(declared first).declares]
    · rw [← alike.filled info]

/-! ## Commands -/

namespace StmtBecomes

variable {test test' : Expr} {body body' yes yes' no no' : Stmt}

@[simp] theorem assign {target target' value value' : Expr} (wide : env.Widens env')
    (left : Becomes env env' target target') (right : Becomes env env' value value') :
    StmtBecomes env env' (.assign i target value) (.assign i' target' value') := by
  intro stable
  obtain ⟨_, t, _, u, root, first, second, same, found, assignable, whole⟩ := stmt_assign.mp stable
  obtain ⟨-, rfl, rfl⟩ := Stmt.assign.inj whole
  obtain ⟨first', found'⟩ := left.target first found assignable
  obtain ⟨u', second', deref, -⟩ := right u second
  obtain ⟨m, bound⟩ := root_bound first found
  exact stmt_assign.mpr ⟨target', t, value', u', root, first', second', same.trans deref.symm,
    found', (wide.isConst bound).trans assignable, rfl⟩

@[simp] theorem call {as as' : List Arg} (wide : env.Widens env') (decl : Option Binding) (name : String)
    (each : List.Forall₂ (ArgBecomes env env') as as') :
    StmtBecomes env env' (.call i decl name as) (.call i' decl name as') := by
  intro stable
  obtain ⟨wants, b, _, found, count, inner, whole⟩ := stmt_call.mp stable
  obtain ⟨-, rfl, -, rfl⟩ := Stmt.call.inj whole
  exact stmt_call.mpr ⟨wants, b, as', wide.lookup found, each.length_eq.symm.trans count,
    args_become count each inner, rfl⟩

theorem stmts {ss ss' : List Stmt} (each : List.Forall₂ (StmtBecomes env env') ss ss')
    (stable : Check.stmts env ss = (ss, [])) : Check.stmts env' ss' = (ss', []) := by
  induction each with
  | nil => simp only [Check.stmts]
  | @cons s s' ss ss' first _ ih =>
    obtain ⟨_, _, head, tail, whole⟩ := stmts_cons.mp stable
    cases whole
    exact stmts_cons.mpr ⟨s', ss', first head, ih tail, rfl⟩

@[simp] theorem seq {ss ss' : List Stmt} (each : List.Forall₂ (StmtBecomes env env') ss ss') :
    StmtBecomes env env' (.seq i ss) (.seq i' ss') := by
  intro stable
  obtain ⟨_, inner, whole⟩ := stmt_seq.mp stable
  cases whole
  exact stmt_seq.mpr ⟨ss', stmts each inner, rfl⟩

theorem letIn {ds ds' : List Decl}
    (declared : DeclsStable env.enterBlock ds → DeclsBecome env.enterBlock env'.enterBlock ds ds')
    (inside : DeclsStable env.enterBlock ds → StmtBecomes (env.enterBlock.declareAll ds)
      (env'.enterBlock.declareAll ds) body body') :
    StmtBecomes env env' (.letIn i ds body) (.letIn i' ds' body') := by
  intro stable
  obtain ⟨_, inner, _, first, second, whole⟩ := stmt_letIn.mp stable
  obtain ⟨-, rfl, rfl⟩ := Stmt.letIn.inj whole
  obtain rfl := (decls_stable first).1
  refine stmt_letIn.mpr ⟨ds', _, body', (declared first).stable (.enterBlock _ _) first, ?_, rfl⟩
  rw [(declared first).declares]
  exact inside first second

/-- A test stays a test. -/
theorem tested {t : Ty} (becomes : Becomes env env' test test') (stable : ExprStable env test t)
    (boolean : t.deref = .boolean) : ∃ t', ExprStable env' test' t' ∧ t'.deref = .boolean := by
  obtain ⟨t', stable', deref, -⟩ := becomes t stable
  exact ⟨t', stable', deref.trans boolean⟩

@[simp] theorem ifThen (first : Becomes env env' test test') (second : StmtBecomes env env' yes yes') :
    StmtBecomes env env' (.ifThen i test yes) (.ifThen i' test' yes') := by
  intro stable
  obtain ⟨_, t, _, one, boolean, two, whole⟩ := stmt_ifThen.mp stable
  cases whole
  obtain ⟨t', one', boolean'⟩ := tested first one boolean
  exact stmt_ifThen.mpr ⟨test', t', yes', one', boolean', second two, rfl⟩

@[simp] theorem ifElse (first : Becomes env env' test test') (second : StmtBecomes env env' yes yes')
    (third : StmtBecomes env env' no no') :
    StmtBecomes env env' (.ifElse i test yes no) (.ifElse i' test' yes' no') := by
  intro stable
  obtain ⟨_, t, _, _, one, boolean, two, three, whole⟩ := stmt_ifElse.mp stable
  cases whole
  obtain ⟨t', one', boolean'⟩ := tested first one boolean
  exact stmt_ifElse.mpr ⟨test', t', yes', no', one', boolean', second two, third three, rfl⟩

@[simp] theorem whileDo (first : Becomes env env' test test') (second : StmtBecomes env env' body body') :
    StmtBecomes env env' (.whileDo i test body) (.whileDo i' test' body') := by
  intro stable
  obtain ⟨_, t, _, one, boolean, two, whole⟩ := stmt_whileDo.mp stable
  cases whole
  obtain ⟨t', one', boolean'⟩ := tested first one boolean
  exact stmt_whileDo.mpr ⟨test', t', body', one', boolean', second two, rfl⟩

@[simp] theorem repeatUntil (first : StmtBecomes env env' body body')
    (second : Becomes env env' test test') :
    StmtBecomes env env' (.repeatUntil i body test) (.repeatUntil i' body' test') := by
  intro stable
  obtain ⟨_, _, t, one, two, boolean, whole⟩ := stmt_repeatUntil.mp stable
  cases whole
  obtain ⟨t', two', boolean'⟩ := tested second two boolean
  exact stmt_repeatUntil.mpr ⟨body', test', t', first one, two', boolean', rfl⟩

@[simp] theorem repeatWhile (first : StmtBecomes env env' body body')
    (second : Becomes env env' test test') :
    StmtBecomes env env' (.repeatWhile i body test) (.repeatWhile i' body' test') := by
  intro stable
  obtain ⟨_, _, t, one, two, boolean, whole⟩ := stmt_repeatWhile.mp stable
  cases whole
  obtain ⟨t', two', boolean'⟩ := tested second two boolean
  exact stmt_repeatWhile.mpr ⟨body', test', t', first one, two', boolean', rfl⟩

@[simp] theorem loopWhile {pre pre' post post' : Stmt} (first : StmtBecomes env env' pre pre')
    (second : Becomes env env' test test') (third : StmtBecomes env env' post post') :
    StmtBecomes env env' (.loopWhile i pre test post) (.loopWhile i' pre' test' post') := by
  intro stable
  obtain ⟨_, _, t, _, one, two, boolean, three, whole⟩ := stmt_loopWhile.mp stable
  cases whole
  obtain ⟨t', two', boolean'⟩ := tested second two boolean
  exact stmt_loopWhile.mpr ⟨pre', test', t', post', first one, two', boolean', third three, rfl⟩

@[simp] theorem forever (inside : StmtBecomes env env' body body') :
    StmtBecomes env env' (.forever i body) (.forever i' body') := by
  intro stable
  obtain ⟨_, inner, whole⟩ := stmt_forever.mp stable
  cases whole
  exact stmt_forever.mpr ⟨body', inside inner, rfl⟩

@[simp] theorem skip : StmtBecomes env env' (.skip i) (.skip i') := by
  intro _
  simp only [StmtStable, stmt]

end StmtBecomes

/-! ## Trees that stay as they are -/

/-- A tree that stays as it is can stand for itself where the scope is wider. -/
theorem tree_same : Everywhere (fun e => ∀ env env', env.Widens env' → Becomes env env' e e)
    (fun fields => ∀ env env', env.Widens env' →
      List.Forall₂ (fun f f' => f'.1 = f.1 ∧ Becomes env env' f.2 f'.2) fields fields)
    (fun es => ∀ env env', env.Widens env' → List.Forall₂ (Becomes env env') es es)
    (fun ds => ∀ env env', env.Widens env' → DeclsStable env ds → DeclsBecome env env' ds ds)
    (fun d => ∀ env env', env.Widens env' → DeclBecomes env env' d d)
    (fun s => ∀ env env', env.Widens env' → StmtBecomes env env' s s)
    (fun ss => ∀ env env', env.Widens env' → List.Forall₂ (StmtBecomes env env') ss ss)
    (fun as => ∀ env env', env.Widens env' → List.Forall₂ (ArgBecomes env env') as as)
    fun a => ∀ env env', env.Widens env' → ArgBecomes env env' a a := by
  apply tree_induction
  case letIn => -- the blocks
    intro i ds body first second env env' wide
    exact .letIn (.refl i) (first _ _ wide.enterBlock) fun _ =>
      second _ _ (wide.enterBlock.declareAll ds)
  case letStmt =>
    intro i ds body first second env env' wide
    exact .letIn (first _ _ wide.enterBlock) fun _ => second _ _ (wide.enterBlock.declareAll ds)
  case func => -- the routines
    intro i name params result body inner env env' wide
    exact .func (.refl i) (.same wide params) (.same wide result) fun ts _ _ =>
      inner _ _ ((wide.declare _).enterRoutine.bindParams params ts)
  case proc =>
    intro i name params body inner env env' wide
    exact .proc (.refl i) (.same wide params) fun ts _ _ =>
      inner _ _ ((wide.declare _).enterRoutine.bindParams params ts)
  case decls =>
    intro d ds first later env env' wide stable
    obtain ⟨head, tail⟩ := declsStable_cons.mp stable
    exact .cons (first _ _ wide) (fun _ => later _ _ (wide.declare d) tail) head
  all_goals
    intros
    simp [-List.forall₂_same, *]

theorem decl_same (wide : env.Widens env') (d : Decl) : DeclBecomes env env' d d :=
  tree_same.decl d env env' wide

theorem stmt_same (wide : env.Widens env') (s : Stmt) : StmtBecomes env env' s s :=
  tree_same.stmt s env env' wide

end Check
end Triangle
