import Mathlib
import Triangle.Proofs.Result
import Triangle.Proofs.Semantics.Basic

/-! Properties of expressions and declarations that follow from the steps these are made of, whatever
the tree. -/
namespace Triangle.Semantics

/-- `P` holds of the steps of an expression and `Q` of those of a declaration, and both hold of what
such steps make up. What is declared in a scope is gone at its end. -/
structure Closed (P Q : ∀ α : Type, Run α → Prop) : Prop where
  pure {α : Type} (a : α) : P α (Pure.pure a)
  throw {α : Type} (stop : Stop) : P α (MonadExcept.throw stop)
  get : P State MonadState.get
  bind {α β : Type} {x : Run α} {f : α → Run β} : P α x → (∀ a, P β (f a)) → P β (x >>= f)
  weaken {α : Type} {x : Run α} : P α x → Q α x
  andThen {α β : Type} {x : Run α} {f : α → Run β} : Q α x → (∀ a, Q β (f a)) → Q β (x >>= f)
  allocate (v : Value) : Q Place (Semantics.allocate v)
  inScope {α : Type} {x : Run α} : Q α x → P α (Semantics.inScope x)

variable {P Q : ∀ α : Type, Run α → Prop}

/-! ## Steps -/

section
variable (closed : Closed P Q)
include closed

theorem holds_read (p : Place) : P _ (read p) := by
  refine closed.bind closed.get fun s => ?_
  split
  · exact closed.pure _
  · exact closed.throw _

theorem holds_truth (v : Value) : P _ (truth v) := by
  cases v with
  | bool b => exact closed.pure b
  | int | char | array | record => exact closed.throw _

theorem holds_valued (r : Option Value) : P _ (valued r) := by
  cases r with
  | none => exact closed.throw _
  | some v => exact closed.pure v

theorem holds_find (env : Env) (name : String) : P _ (env.find name) := by
  unfold Env.find
  split
  · exact closed.pure _
  · exact closed.throw _

theorem holds_callee (env : Env) (decl : Option Binding) (known : Option Standard)
    (name : String) : P _ (callee env decl known name) := by
  unfold callee
  split
  · split
    · exact closed.pure _
    · exact closed.throw _
  · exact holds_find closed env name

theorem holds_contents (m : Meaning) : P _ m.contents := by
  cases m with
  | value v => exact closed.pure v
  | place p => exact holds_read closed p
  | standard | routine => exact closed.throw _

theorem holds_component (s : Selector) (m : Meaning) : P _ (m.component s) := by
  cases m with
  | value v =>
    simp only [Meaning.component]
    split
    · exact closed.pure _
    · exact closed.throw _
  | place p => exact closed.pure _
  | standard | routine => exact closed.throw _

theorem holds_elementOf {array : Run Meaning} {index : Run Value} (first : P _ array)
    (second : P _ index) : P _ (elementOf array index) := by
  refine closed.bind first fun m => closed.bind second fun v => ?_
  split
  · refine closed.bind (holds_contents closed m) fun v => ?_
    split
    · split
      · exact holds_component closed _ m
      · exact closed.throw _
    · exact closed.throw _
  · exact closed.throw _

theorem holds_inOrder {fields : List (String × Run Value)} (each : ∀ f ∈ fields, P _ f.2) :
    P _ (inOrder fields) := by
  induction fields with
  | nil => exact closed.pure _
  | cons field rest ih =>
    rw [List.forall_mem_cons] at each
    exact closed.bind each.1 fun v => closed.bind (ih each.2) fun vs => closed.pure _

/-! ## The tree -/

end

/-- A call and the value that it comes back with are one more step. -/
def Calls.Hold (P : ∀ α : Type, Run α → Prop) (calls : Calls) : Prop :=
  ∀ m actuals, P _ (calls m actuals >>= valued)

variable {calls : Calls}

mutual
theorem holds_expr (closed : Closed P Q) (called : calls.Hold P) (env : Env) : ∀ e, P _ (expr calls env e)
  | .int .. | .char .. | .bool .. => closed.pure _
  | .ident _ _ name => closed.bind (holds_find closed env name) (holds_contents closed)
  | .subscript _ array index =>
    closed.bind (holds_elementOf closed (holds_locate closed called env array)
      (holds_expr closed called env index)) (holds_contents closed)
  | .select _ record field =>
    closed.bind (closed.bind (holds_locate closed called env record) (holds_component closed _))
      (holds_contents closed)
  | .unary _ decl op operand =>
    closed.bind (holds_expr closed called env operand) fun v =>
      closed.bind (holds_callee closed env decl _ op) fun m => called m _
  | .binary _ decl op left right =>
    closed.bind (holds_expr closed called env left) fun v =>
      closed.bind (holds_expr closed called env right) fun w =>
      closed.bind (holds_callee closed env decl _ op) fun m => called m _
  | .call _ decl name as =>
    closed.bind (holds_args closed called env as) fun actuals =>
      closed.bind (holds_callee closed env decl _ name) fun m => called m _
  | .cond _ test yes no => by
    refine closed.bind (holds_expr closed called env test) fun v =>
      closed.bind (holds_truth closed v) fun b => ?_
    cases b
    · exact holds_expr closed called env no
    · exact holds_expr closed called env yes
  | .letIn _ ds body =>
    closed.inScope (closed.andThen (holds_decls closed called env ds) fun inner =>
      closed.weaken (holds_expr closed called inner body))
  | .array _ elems => closed.bind (holds_exprs closed called env elems) fun vs => closed.pure _
  | .record _ fields => by
    refine closed.bind (holds_inOrder closed fun f member => ?_) fun vs => closed.pure _
    exact holds_initializers closed called env fields f (List.mem_mergeSort.mp member)

theorem holds_exprs (closed : Closed P Q) (called : calls.Hold P) (env : Env) :
    ∀ es, P _ (exprs calls env es)
  | [] => closed.pure _
  | e :: es =>
    closed.bind (holds_expr closed called env e) fun _ =>
      closed.bind (holds_exprs closed called env es) fun _ => closed.pure _

theorem holds_initializers (closed : Closed P Q) (called : calls.Hold P) (env : Env) :
    ∀ fields, ∀ f ∈ initializers calls env fields, P _ f.2
  | [] => by simp [initializers]
  | (name, e) :: rest => by
    rw [initializers, List.forall_mem_cons]
    exact ⟨holds_expr closed called env e, holds_initializers closed called env rest⟩

theorem holds_locate (closed : Closed P Q) (called : calls.Hold P) (env : Env) : ∀ e, P _ (locate calls env e)
  | .ident _ _ name => holds_find closed env name
  | .subscript _ array index =>
    holds_elementOf closed (holds_locate closed called env array) (holds_expr closed called env index)
  | .select _ record _ => closed.bind (holds_locate closed called env record) (holds_component closed _)
  | .int .. | .char .. | .bool .. | .unary .. | .binary .. | .call .. | .cond .. | .letIn ..
  | .array .. | .record .. => closed.throw _

theorem holds_args (closed : Closed P Q) (called : calls.Hold P) (env : Env) : ∀ as, P _ (args calls env as)
  | [] => closed.pure _
  | a :: as =>
    closed.bind (holds_arg closed called env a) fun _ =>
      closed.bind (holds_args closed called env as) fun _ => closed.pure _

theorem holds_arg (closed : Closed P Q) (called : calls.Hold P) (env : Env) : ∀ a, P _ (arg calls env a)
  | .value _ value => closed.bind (holds_expr closed called env value) fun v => closed.pure _
  | .var _ target => by
    refine closed.bind (holds_locate closed called env target) fun m => ?_
    split
    · exact closed.pure _
    · exact closed.throw _
  | .func _ _ name => holds_find closed env name

theorem holds_decls (closed : Closed P Q) (called : calls.Hold P) (env : Env) : ∀ ds, Q _ (decls calls env ds)
  | [] => closed.weaken (closed.pure env)
  | d :: ds => closed.andThen (holds_decl closed called env d) fun next => holds_decls closed called next ds

theorem holds_decl (closed : Closed P Q) (called : calls.Hold P) (env : Env) : ∀ d, Q _ (decl calls env d)
  | .const _ _ value =>
    closed.weaken (closed.bind (holds_expr closed called env value) fun v => closed.pure _)
  | .var i _ _ => by
    rw [decl]
    split
    · exact closed.andThen (closed.allocate _) fun p => closed.weaken (closed.pure _)
    · exact closed.weaken (closed.throw _)
  | .func .. | .proc .. | .type .. => closed.weaken (closed.pure _)
end

end Triangle.Semantics
