import Mathlib
import Triangle.Proofs.Optimize.Operators
import Triangle.Proofs.Optimize.Rounds
import Triangle.Proofs.Semantics.Purity
import Triangle.Proofs.Typing.Accepted

/-! Constant folding keeps what programs do. What folding knows of names is true of them where it is
used, so a literal stands where an expression has that value; and since expressions have no effects
nothing is lost with the expressions that are gone. -/
namespace Triangle
open List

open Result (of_pure of_bind bind_ok)

namespace Optimize.Fold

/-! ## Names -/

/-- What is known of names is true of them. -/
def Consts.Describes (consts : Consts) (env : Semantics.Env) : Prop :=
  ∀ x l, consts.literal? x = some l → l.Fits ∧ env.lookup x = some (.value l.value)

theorem Consts.Describes.fit {consts : Consts} {env : Semantics.Env} (known : consts.Describes env) :
    consts.Fit :=
  fun x l found => (known x l found).1

end Optimize.Fold

namespace Semantics
open Optimize
open Fold (Consts value_replace valueIf_literal fits_expr)

/-- The body of a routine, before and after folding. -/
inductive Body.Folds (consts : Consts) : Body → Body → Prop where
  | value {e : Expr} (fits : e.Fits) :
    Body.Folds consts (.value e) (.value (Fold.expr consts e).value)
  | command {c : Stmt} (fits : c.Fits) :
    Body.Folds consts (.command c) (.command (Fold.stmt consts c).value)

mutual
/-- What a name means before and after folding. Only bodies of routines differ. -/
inductive Meaning.Folds : Meaning → Meaning → Prop where
  | value (v : Value) : Meaning.Folds (.value v) (.value v)
  | place (p : Place) : Meaning.Folds (.place p) (.place p)
  | standard (s : Standard) : Meaning.Folds (.standard s) (.standard s)
  | routine {name : String} {params : List Param} {body body' : Body} {env env' : Env}
      {consts : Consts} (names : Env.Folds env env') (known : consts.Describes env)
      (inner : Body.Folds ((consts.hide name).inside params) body body') :
    Meaning.Folds (.routine name params body env) (.routine name params body' env')

inductive Env.Folds : Env → Env → Prop where
  | nil : Env.Folds [] []
  | cons {name : String} {m m' : Meaning} {env env' : Env} (first : Meaning.Folds m m')
      (rest : Env.Folds env env') : Env.Folds ((name, m) :: env) ((name, m') :: env')
end

theorem Env.Folds.lookup {env env' : Env} (names : Env.Folds env env') {x : String} {m : Meaning}
    (found : env.lookup x = some m) : ∃ m', env'.lookup x = some m' ∧ Meaning.Folds m m' := by
  induction env generalizing env' with
  | nil => cases found
  | cons entry env ih =>
    cases names with
    | @cons name first m' _ rest' folds rest =>
      rw [lookup_cons] at found ⊢
      split at found
      · cases found
        exact ⟨m', rfl, folds⟩
      · exact ih rest found

/-! ## Runs -/

section
variable {α β γ δ : Type}

/-- Where `x` succeeds so does `y`, in the same state and with a related result. -/
def Keeps (R : α → β → Prop) (x : Run α) (y : Run β) : Prop :=
  ∀ s a s', x s = .ok a s' → ∃ b, y s = .ok b s' ∧ R a b

namespace Keeps

variable {R : α → β → Prop} {Q : γ → δ → Prop} {x : Run α} {y : Run β}

theorem pure {a : α} {b : β} (rel : R a b) : Keeps R (Pure.pure a) (Pure.pure b) := by
  intro s c s' done
  obtain ⟨rfl, rfl⟩ := of_pure done
  exact ⟨b, rfl, rel⟩

theorem throw {stop : Stop} : Keeps R (throw stop) y := by
  intro s a s' done
  cases done

theorem refl (x : Run α) : Keeps Eq x x := fun _ a _ done => ⟨a, done, rfl⟩

theorem bind {f : α → Run γ} {g : β → Run δ} (first : Keeps R x y)
    (second : ∀ a b, R a b → Keeps Q (f a) (g b)) : Keeps Q (x >>= f) (y >>= g) := by
  intro s c s' done
  obtain ⟨a, middle, one, two⟩ := of_bind done
  obtain ⟨b, other, rel⟩ := first _ _ _ one
  obtain ⟨d, last, final⟩ := second a b rel _ _ _ two
  exact ⟨d, (bind_ok other).trans last, final⟩

/-- The same, where the results are the same. -/
theorem andThen {z : Run α} {f : α → Run γ} {g : α → Run δ} (first : Keeps Eq x z)
    (second : ∀ a, Keeps Q (f a) (g a)) : Keeps Q (x >>= f) (z >>= g) :=
  first.bind fun a _ same => same ▸ second a

theorem inScope {z : Run α} (inner : Keeps Eq x z) : Keeps Eq (inScope x) (inScope z) :=
  .andThen (.refl _) fun _ => .andThen inner fun _ => .andThen (.refl _) fun _ => .refl _

theorem rounds {round again : Run Bool} (once : Keeps Eq round again) (bound : Nat) :
    Keeps Eq (rounds round bound) (rounds again bound) := by
  induction bound with
  | zero => exact .throw
  | succ bound ih =>
    refine .andThen once fun more => ?_
    cases more
    · exact .refl _
    · exact ih

end Keeps
end

namespace Meaning.Folds

variable {m m' : Meaning}

theorem contents (folds : Folds m m') : Keeps Eq m.contents m'.contents := by
  cases folds with
  | value | place | standard => exact .refl _
  | routine => exact .throw

theorem component (folds : Folds m m') (s : Selector) :
    Keeps Folds (m.component s) (m'.component s) := by
  cases folds with
  | value v =>
    simp only [Meaning.component]
    split
    · exact .pure (.value _)
    · exact .throw
  | place p => exact .pure (.place _)
  | standard | routine => exact .throw

theorem element (folds : Folds m m') (k : Int) : Keeps Folds (m.element k) (m'.element k) := by
  refine .andThen folds.contents fun v => ?_
  split
  · split
    · exact folds.component _
    · exact .throw
  · exact .throw

end Meaning.Folds

theorem Env.Folds.find {env env' : Env} (names : Env.Folds env env') (x : String) :
    Keeps Meaning.Folds (env.find x) (env'.find x) := by
  unfold Env.find
  cases found : env.lookup x with
  | none => exact .throw
  | some m =>
    obtain ⟨m', same, folds⟩ := names.lookup found
    rw [same]
    exact .pure folds

theorem Env.Folds.callee {env env' : Env} (names : Env.Folds env env') (decl : Option Binding)
    (known : Option Standard) (x : String) :
    Keeps Meaning.Folds (callee env decl known x) (callee env' decl known x) := by
  unfold Semantics.callee
  by_cases standard : decl.any Binding.isStandard = true
  · simp only [standard, ↓reduceIte]
    cases known with
    | some s => exact .pure (.standard s)
    | none => exact .throw
  · simp only [standard, Bool.false_eq_true, ↓reduceIte]
    exact names.find x

/-- A variable is found, or something that folding has replaced by a literal. -/
def Locates (x y : Run Meaning) : Prop :=
  ∀ s m s', x s = .ok m s' →
    (∃ l : Literal, m = .value l.value) ∨ ∃ m', y s = .ok m' s' ∧ Meaning.Folds m m'

/-- Literals have no components. -/
theorem component_literal (l : Literal) (s : Selector) :
    (Meaning.value l.value).component s = throw .wrong := by
  cases l <;> cases s <;> rfl

theorem element_literal (l : Literal) (k : Int) (s : State) :
    (Meaning.value l.value).element k s = .error .wrong s := by
  cases l <;> rfl

theorem Locates.element {x y : Run Meaning} {i j : Run Value} (locates : Locates x y)
    (index : Keeps Eq i j) : Keeps Meaning.Folds (elementOf x i) (elementOf y j) := by
  intro s m s' done
  obtain ⟨base, first, located, done⟩ := of_bind done
  obtain ⟨v, second, counted, done⟩ := of_bind done
  obtain ⟨_, counted', rfl⟩ := index _ _ _ counted
  cases v with
  | int w =>
    replace done : base.element w.toInt second = .ok m s' := done
    rcases locates _ _ _ located with ⟨l, rfl⟩ | ⟨base', located', folds⟩
    · rw [element_literal] at done
      cases done
    · obtain ⟨m', found, related⟩ := folds.element w.toInt _ _ _ done
      refine ⟨m', ?_, related⟩
      rw [elementOf, bind_ok located', bind_ok counted']
      exact found
  | bool | char | array | record => cases done

theorem Locates.field {x y : Run Meaning} (locates : Locates x y) (field : String) :
    Keeps Meaning.Folds (fieldOf x field) (fieldOf y field) := by
  intro s m s' done
  obtain ⟨base, first, located, done⟩ := of_bind done
  rcases locates _ _ _ located with ⟨l, rfl⟩ | ⟨base', located', folds⟩
  · rw [component_literal] at done
    cases done
  · obtain ⟨m', found, related⟩ := folds.component _ _ _ _ done
    exact ⟨m', (bind_ok located').trans found, related⟩

theorem Keeps.locates {x y : Run Meaning} (keeps : Keeps Meaning.Folds x y) : Locates x y :=
  fun s m s' done => .inr (keeps s m s' done)

/-- What must be a variable is one. -/
theorem Locates.place {α β : Type} {R : α → β → Prop} {x y : Run Meaning} {f : Place → Run α}
    {g : Place → Run β} (locates : Locates x y) (next : ∀ p, Keeps R (f p) (g p)) :
    Keeps R (x >>= fun m => match m with | .place p => f p | _ => throw .wrong)
      (y >>= fun m => match m with | .place p => g p | _ => throw .wrong) := by
  intro s a s' done
  obtain ⟨m, middle, located, rest⟩ := of_bind done
  cases m with
  | place p =>
    rcases locates _ _ _ located with ⟨l, same⟩ | ⟨m', located', folds⟩
    · cases same
    · cases folds
      obtain ⟨b, done', related⟩ := next p _ _ _ rest
      exact ⟨b, (bind_ok located').trans done', related⟩
  | value | standard | routine => cases rest

/-! ## Trees -/

/-- Calls before and after folding, where only bodies of routines differ. -/
structure Calls.Keep (calls calls' : Calls) : Prop where
  steady : calls.Steady
  standard : ∀ known actuals, calls (.standard known) actuals = Standard.apply known actuals
  keeps : ∀ {m m' as as'}, Meaning.Folds m m' → List.Forall₂ Meaning.Folds as as' →
    Keeps Eq (calls m as) (calls' m' as')

/-- What names mean before and after folding, and what folding knows of them. -/
structure Agreement (consts : Consts) (env env' : Env) : Prop where
  names : Env.Folds env env'
  known : consts.Describes env

variable {calls calls' : Calls} {consts : Consts} {env env' : Env}

theorem expr_toExpr (env : Env) (l : Literal) (i : Info) :
    expr calls env (l.toExpr i) = pure l.value := by
  cases l <;> rw [Literal.toExpr, expr, Literal.value]

theorem expr_literal {e : Expr} (env : Env) (same : e.literal? = some l) :
    expr calls env e = pure l.value := by
  cases e <;> simp only [Expr.literal?, Option.some.injEq, reduceCtorEq] at same <;> subst same <;>
    rw [expr, Literal.value]

/-- What becomes a literal has its value and does nothing. -/
theorem Keeps.literal {x : Run Value} {e : Expr} {s s' : State} {v : Value}
    (keeps : Keeps Eq x (expr calls env e)) (same : e.literal? = some l) (done : x s = .ok v s') :
    v = l.value ∧ s' = s := by
  obtain ⟨_, evaluated, rfl⟩ := keeps _ _ _ done
  rw [expr_literal env same] at evaluated
  exact of_pure evaluated

/-- What follows something that becomes a literal. -/
theorem Keeps.afterLiteral {α : Type} {x : Run Value} {f : Value → Run α} {y : Run α} {e : Expr}
    (keeps : Keeps Eq x (expr calls env e)) (same : e.literal? = some l)
    (next : Keeps Eq (f l.value) y) : Keeps Eq (x >>= f) y := by
  intro s a s' done
  obtain ⟨v, middle, evaluated, rest⟩ := of_bind done
  obtain ⟨rfl, rfl⟩ := keeps.literal same evaluated
  exact next _ _ _ rest

/-- A standard routine whose value is known. -/
theorem Calls.Keep.value (keep : calls.Keep calls') {decl : Option Binding}
    {known : Option Standard} {actuals : List Literal} (standard : decl.any Binding.isStandard = true)
    (yields : Fold.Yields known actuals l) (name : String) :
    Keeps Eq (do valued (← calls (← callee env decl known name)
      (actuals.map fun a => .value a.value))) (pure l.value) := by
  obtain ⟨routine, rfl, applied⟩ := yields
  intro s v s' done
  have found : callee env decl (some routine) name s = .ok (.standard routine) s := by
    rw [callee, if_pos standard]
    rfl
  rw [bind_ok found, keep.standard, bind_ok (applied s)] at done
  exact ⟨v, done, rfl⟩

/-- The same for a single argument. -/
theorem Keeps.afterArgument {α : Type} {x : Run (List Meaning)} {f : List Meaning → Run α}
    {y : Run α} {i : Info} {e : Expr}
    (keeps : Keeps (List.Forall₂ Meaning.Folds) x (args calls env [.value i e]))
    (same : e.literal? = some l) (next : Keeps Eq (f [.value l.value]) y) : Keeps Eq (x >>= f) y := by
  intro s a s' done
  obtain ⟨ms, middle, evaluated, done⟩ := of_bind done
  obtain ⟨ms', evaluated', related⟩ := keeps _ _ _ evaluated
  have only : args calls env [.value i e] s = .ok [.value l.value] s := by
    rw [args, arg, expr_literal env same, args]
    rfl
  rw [only] at evaluated'
  cases evaluated'
  obtain rfl : ms = [.value l.value] := by
    cases related with
    | cons first rest => cases first; cases rest; rfl
  exact next _ _ _ done

theorem fieldExprs_eq (consts : Consts) (fields : List (String × Expr)) :
    (Fold.fieldExprs consts fields).value =
      fields.map fun f => (f.1, (Fold.expr consts f.2).value) := by
  induction fields with
  | nil => rfl
  | cons field rest ih =>
    rw [Fold.fieldExprs, map_cons, ← ih]
    rfl

theorem sortFields_map {α β : Type} (f : α → β) (fields : List (String × α)) :
    sortFields (fields.map fun field => (field.1, f field.2)) =
      (sortFields fields).map fun field => (field.1, f field.2) := by
  symm
  apply map_mergeSort
  intros
  rfl

/-- The fields are evaluated in the same order before and after folding. -/
theorem fields_keep {f g : Expr → Run Value} {fields : List (String × Expr)}
    (each : ∀ field ∈ fields, Keeps Eq (f field.2) (g field.2)) :
    Keeps Eq (inOrder (sortFields (fields.map fun field => (field.1, f field.2))))
      (inOrder (sortFields (fields.map fun field => (field.1, g field.2)))) := by
  have inTurn : ∀ fields : List (String × Expr), (∀ field ∈ fields, Keeps Eq (f field.2) (g field.2)) →
      Keeps Eq (inOrder (fields.map fun field => (field.1, f field.2)))
        (inOrder (fields.map fun field => (field.1, g field.2))) := by
    intro fields each
    induction fields with
    | nil => exact .refl _
    | cons field rest ih =>
      rw [forall_mem_cons] at each
      exact .andThen each.1 fun v => .andThen (ih each.2) fun vs => .refl _
  rw [sortFields_map, sortFields_map]
  exact inTurn _ fun field member => each field (mem_mergeSort.mp member)

/-! Declarations -/

theorem Agreement.enterBlock (agree : Agreement consts env env') :
    Agreement consts.enterBlock env env' where
  names := agree.names
  known x l found := agree.known x l (by simpa using found)

/-- A name that hides a literal. -/
theorem Agreement.hide {m m' : Meaning} (agree : Agreement consts env env')
    (folds : Meaning.Folds m m') (name : String) :
    Agreement (consts.hide name) ((name, m) :: env) ((name, m') :: env') where
  names := .cons folds agree.names
  known x l found := by
    rw [Consts.literal?_hide] at found
    split at found
    · cases found
    · rename_i other
      rw [lookup_cons, beq_false_of_ne other]
      exact agree.known x l found

theorem Agreement.bind {v : Value} {value : Expr} (agree : Agreement consts env env')
    (fits : value.Fits) (same : ∀ l, value.literal? = some l → v = l.value) (name : String) :
    Agreement (consts.bind name value) ((name, .value v) :: env) ((name, .value v) :: env') where
  names := .cons (.value v) agree.names
  known x l found := by
    rw [Consts.literal?_bind] at found
    split at found
    · rename_i equal
      refine ⟨fits.literal found, ?_⟩
      rw [equal, same l found]
      simp
    · rename_i other
      rw [lookup_cons, beq_false_of_ne other]
      exact agree.known x l found

mutual
theorem expr_keeps (keep : calls.Keep calls') (e : Expr) {consts env env'}
    (agree : Agreement consts env env') (fits : e.Fits) :
    Keeps Eq (expr calls env e) (expr calls' env' (Fold.expr consts e).value) := by
  cases e with
  | int | char | bool =>
    exact .refl _
  | ident i decl name =>
    rw [Fold.expr]
    split
    · rename_i l found
      have meaning := (agree.known name l found).2
      rw [Tally.value_changed, expr_toExpr, expr]
      intro s v s' done
      rw [bind_ok (show env.find name s = .ok (.value l.value) s by
        rw [Env.find, meaning]; rfl)] at done
      exact ⟨v, done, rfl⟩
    · exact (agree.names.find name).bind fun _ _ folds => folds.contents
  | subscript _ array index =>
    exact ((locate_keeps keep array agree fits.1).element (expr_keeps keep index agree fits.2)).bind
      fun _ _ folds => folds.contents
  | select _ record field =>
    exact ((locate_keeps keep record agree fits).field field).bind fun _ _ folds => folds.contents
  | unary i decl op operand =>
    have inner := expr_keeps keep operand agree fits
    simp only [Fold.expr, Tally.value_bind, Fold.foldUnary,
      value_replace]
    split
    · rename_i l found
      obtain ⟨standard, value⟩ := valueIf_literal found
      obtain ⟨a, literal, value⟩ := Option.map_eq_some_iff.mp value
      rw [expr_toExpr]
      exact inner.afterLiteral literal (keep.value standard (Fold.ofUnary_yields value) op)
    · exact .andThen inner fun v => (agree.names.callee decl _ op).bind fun m m' folds =>
        .andThen (keep.keeps folds (.cons (.value v) .nil)) fun r => .refl _
  | binary i decl op left right =>
    have first := expr_keeps keep left agree fits.1
    have second := expr_keeps keep right agree fits.2
    simp only [Fold.expr, Tally.value_bind, Fold.foldBinary,
      value_replace]
    split
    · rename_i l found
      obtain ⟨standard, value⟩ := valueIf_literal found
      simp only [Option.bind_eq_bind, Option.bind_eq_some_iff, Option.pure_def,
        Option.some.injEq] at value
      obtain ⟨a, leftLiteral, b, rightLiteral, value⟩ := value
      have fitting := agree.known.fit
      have yields := Fold.ofBinary_yields
        ((fits_expr left fitting fits.1).literal leftLiteral)
        ((fits_expr right fitting fits.2).literal rightLiteral) value
      rw [expr_toExpr]
      exact first.afterLiteral leftLiteral (second.afterLiteral rightLiteral
        (keep.value standard yields op))
    · exact .andThen first fun v => .andThen second fun w =>
        (agree.names.callee decl _ op).bind fun m m' folds =>
          .andThen (keep.keeps folds (.cons (.value v) (.cons (.value w) .nil))) fun r => .refl _
  | call i decl name as =>
    have inner := args_keep keep as agree fits
    simp only [Fold.expr, Tally.value_bind, Fold.foldCall, value_replace]
    split
    · rename_i l found
      obtain ⟨standard, value⟩ := valueIf_literal found
      split at value
      · rename_i j e same
        obtain ⟨a, literal, value⟩ := Option.map_eq_some_iff.mp value
        rw [expr_toExpr]
        rw [same] at inner
        exact inner.afterArgument literal
          (keep.value standard (Fold.ofCall_yields value) name)
      · cases value
    · exact inner.bind fun actuals actuals' related =>
        (agree.names.callee decl _ name).bind fun m m' folds =>
          .andThen (keep.keeps folds related) fun r => .refl _
  | cond _ test yes no =>
    refine .andThen (expr_keeps keep test agree fits.1) fun v => .andThen (.refl _) fun b => ?_
    cases b
    · exact expr_keeps keep no agree fits.2.2
    · exact expr_keeps keep yes agree fits.2.1
  | letIn i ds body =>
    have declared := decls_keep keep ds agree.enterBlock fits.1
    have inner := fun {e e'} (found : Agreement (Fold.decls consts.enterBlock ds).value.1 e e') =>
      expr_keeps keep body found fits.2
    simp only [Fold.expr, Tally.value_bind]
    split
    · rename_i literal
      obtain ⟨l, same⟩ := Option.isSome_iff_exists.mp literal
      rw [Tally.value_changed, expr_literal env' same]
      have steady := steady_expr keep.steady env (.letIn i ds body)
      intro s v s' done
      obtain rfl := steady _ _ _ done
      refine ⟨v, ?_, rfl⟩
      obtain ⟨_, _, got, rest⟩ := of_bind done
      cases got
      obtain ⟨_, _, evaluated, rest⟩ := of_bind rest
      obtain ⟨env₁, _, one, two⟩ := of_bind evaluated
      obtain ⟨env₂, -, found⟩ := declared _ _ _ one
      obtain ⟨rfl, -⟩ := (inner found).literal same two
      obtain ⟨_, _, cut, rest⟩ := of_bind rest
      rw [(of_pure rest).1]
      rfl
    · exact (declared.bind fun _ _ found => inner found).inScope
  | array _ elems =>
    exact .andThen (exprs_keep keep elems agree fits) fun vs => .refl _
  | record _ fields =>
    simp only [Fold.expr, Tally.value_bind, Tally.value_pure]
    rw [expr, expr, fieldExprs_eq, initializers_eq, initializers_eq, map_map]
    exact .andThen (@fields_keep _ (fun e => expr calls' env' (Fold.expr consts e).value) _
      (each_field_keeps keep fields agree fits)) fun vs => .refl _

theorem exprs_keep (keep : calls.Keep calls') (es : List Expr) {consts env env'}
    (agree : Agreement consts env env') (fits : ExprsFit es) :
    Keeps Eq (exprs calls env es) (exprs calls' env' (Fold.exprs consts es).value) := by
  cases es with
  | nil =>
    exact .refl _
  | cons e es =>
    exact .andThen (expr_keeps keep e agree fits.1) fun v =>
      .andThen (exprs_keep keep es agree fits.2) fun vs => .refl _

theorem each_field_keeps (keep : calls.Keep calls') : ∀ (fields : List (String × Expr))
    {consts env env'}, Agreement consts env env' → FieldsFit fields → ∀ field ∈ fields,
    Keeps Eq (expr calls env field.2) (expr calls' env' (Fold.expr consts field.2).value)
  | [], _, _, _, _, _ => by simp
  | (_, e) :: rest, consts, env, env', agree, fits => by
    exact forall_mem_cons.mpr
      ⟨expr_keeps keep e agree fits.1, each_field_keeps keep rest agree fits.2⟩

theorem locate_keeps (keep : calls.Keep calls') (e : Expr) {consts env env'}
    (agree : Agreement consts env env') (fits : e.Fits) :
    Locates (locate calls env e) (locate calls' env' (Fold.expr consts e).value) := by
  cases e with
  | ident i decl name =>
    rw [Fold.expr, locate]
    split
    · rename_i l found
      have meaning := (agree.known name l found).2
      intro s m s' done
      rw [Env.find, meaning] at done
      exact .inl ⟨l, (of_pure done).1⟩
    · exact (agree.names.find name).locates
  | subscript _ array index =>
    exact ((locate_keeps keep array agree fits.1).element
      (expr_keeps keep index agree fits.2)).locates
  | select _ record field =>
    exact ((locate_keeps keep record agree fits).field field).locates
  | _ =>
    intro s m s' done
    rw [locate] at done <;> cases done

theorem args_keep (keep : calls.Keep calls') (as : List Arg) {consts env env'}
    (agree : Agreement consts env env') (fits : ArgsFit as) :
    Keeps (List.Forall₂ Meaning.Folds) (args calls env as)
      (args calls' env' (Fold.args consts as).value) := by
  cases as with
  | nil =>
    exact .pure .nil
  | cons a as =>
    exact (arg_keeps keep a agree fits.1).bind fun m m' folds =>
      (args_keep keep as agree fits.2).bind fun ms ms' related => .pure (.cons folds related)

theorem arg_keeps (keep : calls.Keep calls') (a : Arg) {consts env env'}
    (agree : Agreement consts env env') (fits : a.Fits) :
    Keeps Meaning.Folds (arg calls env a) (arg calls' env' (Fold.arg consts a).value) := by
  cases a with
  | value _ value =>
    exact .andThen (expr_keeps keep value agree fits) fun v => .pure (.value v)
  | var _ target =>
    exact (locate_keeps keep target agree fits).place fun p => .pure (.place p)
  | func _ _ name =>
    exact agree.names.find name

theorem decls_keep (keep : calls.Keep calls') (ds : List Decl) {consts env env'}
    (agree : Agreement consts env env') (fits : DeclsFit ds) :
    Keeps (Agreement (Fold.decls consts ds).value.1) (decls calls env ds)
      (decls calls' env' (Fold.decls consts ds).value.2) := by
  cases ds with
  | nil =>
    exact .pure agree
  | cons d ds =>
    exact (decl_keeps keep d agree fits.1).bind fun _ _ next => decls_keep keep ds next fits.2

theorem decl_keeps (keep : calls.Keep calls') (d : Decl) {consts env env'}
    (agree : Agreement consts env env') (fits : d.Fits) :
    Keeps (Agreement (Fold.decl consts d).value.1) (decl calls env d)
      (decl calls' env' (Fold.decl consts d).value.2) := by
  cases d with
  | const _ name value =>
    have inner := expr_keeps keep value agree fits
    intro s next s' done
    obtain ⟨v, middle, evaluated, rest⟩ := of_bind done
    obtain ⟨_, evaluated', rfl⟩ := inner _ _ _ evaluated
    obtain ⟨rfl, rfl⟩ := of_pure rest
    exact ⟨_, bind_ok evaluated', agree.bind
      (fits_expr value agree.known.fit fits)
      (fun l same => (inner.literal same evaluated).1) name⟩
  | var i name _ =>
    rw [Fold.decl, Tally.value_pure, decl, decl]
    split
    · exact .andThen (.refl _) fun p => .pure (agree.hide (.place p) name)
    · exact .throw
  | func _ name params _ body =>
    exact .pure (agree.hide (.routine agree.names agree.known (.value fits)) name)
  | proc _ name params body =>
    exact .pure (agree.hide (.routine agree.names agree.known (.command fits)) name)
  | type =>
    exact .pure agree
end

/-- A loop or a branch goes on where a test has come out the same. -/
theorem test_keeps {α : Type} {test : Expr} {f g : Bool → Run α} (keep : calls.Keep calls')
    (agree : Agreement consts env env') (fits : test.Fits) (next : ∀ b, Keeps Eq (f b) (g b)) :
    Keeps Eq (do f (← truth (← expr calls env test)))
      (do g (← truth (← expr calls' env' (Fold.expr consts test).value))) :=
  .andThen (expr_keeps keep test agree fits) fun _ => .andThen (.refl _) next

mutual
theorem stmt_keeps (keep : calls.Keep calls') (bound : Nat) (c : Stmt) {consts env env'}
    (agree : Agreement consts env env') (fits : c.Fits) :
    Keeps Eq (stmt calls bound env c) (stmt calls' bound env' (Fold.stmt consts c).value)
      := by
  cases c with
  | assign _ target value =>
    exact .andThen (expr_keeps keep value agree fits.2) fun v =>
      (locate_keeps keep target agree fits.1).place fun p => .refl _
  | call _ decl name as =>
    exact (args_keep keep as agree fits).bind fun actuals actuals' related =>
      (agree.names.callee decl _ name).bind fun m m' folds =>
        .andThen (keep.keeps folds related) fun r => .refl _
  | seq _ ss =>
    exact stmts_keep keep bound ss agree fits
  | letIn _ ds body =>
    exact ((decls_keep keep ds agree.enterBlock fits.1).bind fun _ _ inner =>
      stmt_keeps keep bound body inner fits.2).inScope
  | ifThen _ test yes =>
    refine test_keeps keep agree fits.1 fun b => ?_
    cases b
    · exact .refl _
    · exact stmt_keeps keep bound yes agree fits.2
  | ifElse _ test yes no =>
    refine test_keeps keep agree fits.1 fun b => ?_
    cases b
    · exact stmt_keeps keep bound no agree fits.2.2
    · exact stmt_keeps keep bound yes agree fits.2.1
  | whileDo _ test body =>
    refine .rounds (test_keeps keep agree fits.1 fun b => ?_) bound
    cases b
    · exact .refl _
    · exact .andThen (stmt_keeps keep bound body agree fits.2) fun _ => .refl _
  | repeatUntil _ body test =>
    exact .rounds (.andThen (stmt_keeps keep bound body agree fits.1) fun _ =>
      test_keeps keep agree fits.2 fun _ => .refl _) bound
  | repeatWhile _ body test =>
    exact .rounds (.andThen (stmt_keeps keep bound body agree fits.1) fun _ =>
      .andThen (expr_keeps keep test agree fits.2) fun _ => .refl _) bound
  | loopWhile _ pre test post =>
    refine .rounds (.andThen (stmt_keeps keep bound pre agree fits.1) fun _ =>
      test_keeps keep agree fits.2.1 fun b => ?_) bound
    cases b
    · exact .refl _
    · exact .andThen (stmt_keeps keep bound post agree fits.2.2) fun _ => .refl _
  | forever _ body =>
    exact .rounds (.andThen (stmt_keeps keep bound body agree fits) fun _ => .refl _) bound
  | skip =>
    exact .refl _

theorem stmts_keep (keep : calls.Keep calls') (bound : Nat) (ss : List Stmt) {consts env env'}
    (agree : Agreement consts env env') (fits : StmtsFit ss) :
    Keeps Eq (stmts calls bound env ss)
      (stmts calls' bound env' (Fold.stmts consts ss).value) := by
  cases ss with
  | nil =>
    exact .refl _
  | cons c ss =>
    exact .andThen (stmt_keeps keep bound c agree fits.1) fun _ =>
      stmts_keep keep bound ss agree fits.2
end

/-! ## Calls -/

theorem Env.Folds.bindParams {params : List Param} {actuals actuals' : List Meaning}
    (names : Env.Folds env env') (related : List.Forall₂ Meaning.Folds actuals actuals') :
    Env.Folds (env.bindParams params actuals) (env'.bindParams params actuals') := by
  induction params generalizing env env' actuals actuals' with
  | nil => exact names
  | cons p params ih =>
    cases related with
    | nil => exact names
    | cons first rest => exact ih (.cons first names) rest

theorem lookup_bindParams {params : List Param} {x : String} (other : x ∉ params.map Param.name)
    (actuals : List Meaning) : (env.bindParams params actuals).lookup x = env.lookup x := by
  induction params generalizing env actuals with
  | nil => rfl
  | cons p params ih =>
    rw [map_cons, mem_cons, not_or] at other
    cases actuals with
    | nil => rfl
    | cons m actuals =>
      rw [Env.bindParams, ih other.2, lookup_cons, beq_false_of_ne other.1]

/-- Inside a routine, parameters hide what is known of names. -/
theorem Agreement.inside {actuals actuals' : List Meaning} (agree : Agreement consts env env')
    (params : List Param) (related : List.Forall₂ Meaning.Folds actuals actuals') :
    Agreement (consts.inside params) (env.bindParams params actuals)
      (env'.bindParams params actuals') where
  names := agree.names.bindParams related
  known x l found := by
    rw [Consts.literal?_inside] at found
    split at found
    · cases found
    · rename_i other
      rw [lookup_bindParams other]
      exact agree.known x l found

/-- Arguments other than routines of the program stay the same. -/
def Meaning.Plain : Meaning → Prop
  | .routine _ _ _ _ => False
  | _ => True

theorem eq_of_plain {actuals actuals' : List Meaning} (plain : ∀ m ∈ actuals, m.Plain)
    (related : List.Forall₂ Meaning.Folds actuals actuals') : actuals' = actuals := by
  induction related with
  | nil => rfl
  | cons first _ ih =>
    rw [forall_mem_cons] at plain
    rw [ih plain.2]
    cases first with
    | value | place | standard => rfl
    | routine => exact plain.1.elim

/-- Standard routines take no routines of the program as arguments. -/
theorem plain_of_apply {known : Standard} {actuals : List Meaning}
    (done : known.apply actuals s = .ok r s') : ∀ m ∈ actuals, m.Plain := by
  have taken : ∀ {α : Type} {kind? : List Meaning → Option α} {f : α → Run (Option Value)},
      Standard.taking kind? f actuals s = .ok r s' → ∃ a, kind? actuals = some a := by
    intro α kind? f done
    unfold Standard.taking at done
    cases kind : kind? actuals with
    | some a => exact ⟨a, rfl⟩
    | none =>
      rw [kind] at done
      cases done
  cases known <;> obtain ⟨a, kind⟩ := taken done <;>
    simp only [Standard.nothing?, Standard.boolean?, Standard.booleans?, Standard.integer?,
      Standard.integers?, Standard.character?, Standard.values?, Standard.place?] at kind <;>
    split at kind <;> cases kind <;> simp [Meaning.Plain]

theorem apply_keeps (known : Standard) {actuals actuals' : List Meaning}
    (related : List.Forall₂ Meaning.Folds actuals actuals') :
    Keeps Eq (known.apply actuals) (known.apply actuals') := by
  intro s r s' done
  rw [eq_of_plain (plain_of_apply done) related]
  exact ⟨r, done, rfl⟩

theorem call_keeps (bound : Nat) : (call bound).Keep (call bound) := by
  induction bound with
  | zero =>
    refine ⟨steady_call 0, fun _ _ => rfl, fun folds related => ?_⟩
    cases folds with
    | standard known => exact apply_keeps known related
    | value | place | routine => exact .throw
  | succ bound ih =>
    refine ⟨steady_call _, fun _ _ => rfl, fun folds related => ?_⟩
    cases folds with
    | standard known => exact apply_keeps known related
    | value | place => exact .throw
    | @routine name params _ _ _ _ _ names known inner =>
      have own := Meaning.Folds.routine names known inner
      have agree := ((Agreement.mk names known).hide own name).inside params related
      cases inner with
      | value fits => exact .andThen (expr_keeps ih _ agree fits) fun v => .refl _
      | command fits => exact .andThen (stmt_keeps ih bound _ agree fits) fun _ => .refl _

/-! ## Programs -/

theorem Env.Folds.refl (plain : ∀ entry ∈ env, entry.2.Plain) : Env.Folds env env := by
  induction env with
  | nil => exact .nil
  | cons entry env ih =>
    rw [forall_mem_cons] at plain
    obtain ⟨name, m⟩ := entry
    refine .cons ?_ (ih plain.2)
    cases m with
    | value v => exact .value v
    | place p => exact .place p
    | standard known => exact .standard known
    | routine => exact plain.1.elim

theorem agreement_standard : Agreement .standard .standard .standard where
  names := .refl (by simp [Env.standard, Standard.named, Meaning.Plain])
  known := by
    intro x l found
    simp only [Consts.literal?, Consts.standard, Scope.Table.addConst, Scope.Table.lookup?_insert]
      at found
    split at found
    · cases found
      subst x
      exact ⟨by simp [Literal.Fits, Word.greatest], rfl⟩
    · split at found
      · cases found
        subst x
        exact ⟨trivial, rfl⟩
      · split at found
        · cases found
          subst x
          exact ⟨trivial, rfl⟩
        · cases found

end Semantics
open Semantics

namespace Optimize.Fold

/-- One pass keeps what a program does. -/
theorem pass_keeps {p : Program} (fits : p.body.Fits) {bound : Nat} {input : List UInt8}
    {s : Semantics.State} (done : p.evaluate bound input = .ok () s) :
    (pass p).value.evaluate bound input = .ok () s := by
  obtain ⟨_, same, _⟩ := stmt_keeps (call_keeps bound) bound p.body agreement_standard fits _ _ _ done
  exact same

end Optimize.Fold

/-- Folding the constants of an accepted program comes to an end, and where the program comes to
its end the folded one does, with the same output. -/
theorem Program.fold_keeps_output {p q : Program} (accepted : p.check = (q, [])) (cfg : FoldConfig)
    (threshold : 0 ≤ cfg.threshold) :
    ∃ t, q.fold? cfg = some t ∧ ∀ bound input s, q.evaluate bound input = .ok () s →
      ∃ s', t.value.evaluate bound input = .ok () s' ∧ s'.output = s.output := by
  have fits : q.body.Fits := (Program.check_typed accepted).fits
  obtain ⟨t, same, value⟩ := q.fold?_value threshold
  refine ⟨t, same, fun bound input s done => ⟨s, ?_, rfl⟩⟩
  rw [value]
  exact Optimize.Fold.pass_keeps fits done

/-- A constant that is hidden by a parameter and used again after it. -/
def Program.shadowed : Program :=
  let integer : Sig := .named {} "Integer"
  let n : Expr := .ident {} none "n"
  ⟨.letIn {} [.const {} "n" (.binary {} none "*" (.int {} 2) (.int {} 3)),
    .func {} "next" [.value {} "n" integer] integer (.binary {} none "+" n (.int {} 1))]
    (.call {} none "putint" [.value {} (.binary {} none "-"
      (.call {} none "next" [.value {} (.letIn {} [.const {} "m" n] (.ident {} none "m"))]) n)])⟩

theorem Program.shadowed_keeps_output : ∃ t, shadowed.check.1.fold? {} = some t ∧
    ∃ s, t.value.evaluate 2 [] = .ok () s ∧ s.output = [49] :=
  have accepted : shadowed.check = (shadowed.check.1, []) := rfl
  have ⟨t, folded, keeps⟩ := fold_keeps_output accepted {} (by decide)
  ⟨t, folded, keeps 2 [] { output := [49] } rfl⟩

end Triangle
