import Mathlib
import Triangle.Proofs.Semantics.Closed

/-! Output is only ever added to. Whatever a part of a program does and however it stops, what was
printed before stays printed. -/
namespace Triangle.Semantics

variable {α β : Type} {x : Run α} {f : α → Run β}

/-- The state that a run has come to, also where it has stopped. -/
def reached : EStateM.Result Stop State α → State
  | .ok _ s => s
  | .error _ s => s

/-- The run adds to the output, if it changes it at all. -/
def Adds (x : Run α) : Prop := ∀ s, s.output <+: (reached (x s)).output

namespace Adds

theorem pure (a : α) : Adds (Pure.pure a) := fun _ => List.prefix_rfl

theorem throw (stop : Stop) : Adds (throw stop : Run α) := fun _ => List.prefix_rfl

theorem bind (first : Adds x) (second : ∀ a, Adds (f a)) : Adds (x >>= f) := by
  intro s
  have one := first s
  cases done : x s with
  | ok a middle =>
    rw [done] at one
    rw [Result.bind_ok done]
    exact one.trans (second a middle)
  | error stop middle =>
    rw [done] at one
    rw [Result.bind_error done]
    exact one

theorem get : Adds (get : Run State) := fun _ => List.prefix_rfl

theorem modify {g : State → State} (keeps : ∀ s, s.output <+: (g s).output) :
    Adds (modify g : Run PUnit) := keeps

theorem inScope (inner : Adds x) : Adds (inScope x) :=
  .bind .get fun _ => .bind inner fun _ => .bind (.modify fun _ => List.prefix_rfl) fun _ => .pure _

theorem rounds {round : Run Bool} (once : Adds round) (bound : Nat) :
    Adds (rounds round bound) := by
  induction bound with
  | zero => exact .throw _
  | succ bound ih =>
    refine .bind once fun more => ?_
    cases more
    · exact .pure _
    · exact ih

end Adds

/-! ## Steps -/

theorem adds_write (p : Place) (v : Value) : Adds (write p v) := .modify fun _ => List.prefix_rfl

theorem adds_emit (bytes : List UInt8) : Adds (emit bytes) :=
  .modify fun s => List.prefix_append s.output bytes

theorem adds_reading (reader : List UInt8 → Except InputFault α × List UInt8) :
    Adds (reading reader) := by
  intro s
  have same : (reached (reading reader s)).output = s.output := by
    simp only [reading, bind, EStateM.bind, get, getThe, MonadStateOf.get, EStateM.get, set,
      EStateM.set]
    cases (reader s.input).1 <;> rfl
  rw [same]

theorem Standard.adds_apply (known : Standard) (actuals : List Meaning) :
    Adds (known.apply actuals) := by
  have taking : ∀ {α : Type} {kind? : List Meaning → Option α} {f : α → Run (Option Value)},
      (∀ a, Adds (f a)) → Adds (Standard.taking kind? f actuals) := by
    intro α kind? f each
    unfold Standard.taking
    split
    · exact each _
    · exact .throw _
  have checked : ∀ w : Option Word, Adds (Standard.checked w) := by
    intro w
    cases w with
    | none => exact .throw _
    | some w => exact .pure _
  cases known with
  | not | and | or | lt | le | gt | ge | eq | ne | chr => exact taking fun _ => .pure _
  | neg | add | sub | mult | ord => exact taking fun _ => checked _
  | div | mod =>
    refine taking fun _ => ?_
    simp only [Standard.division]
    split
    · exact .throw _
    · exact checked _
  | eol | eof => exact taking fun _ => .bind .get fun _ => .pure _
  | get | getint =>
    exact taking fun _ => .bind (adds_reading _) fun _ => .bind (adds_write _ _) fun _ => .pure _
  | put | putint | puteol => exact taking fun _ => .bind (adds_emit _) fun _ => .pure _
  | geteol => exact taking fun _ => .bind (adds_reading _) fun _ => .pure _

/-! ## The tree -/

/-- No call takes output back. -/
def Calls.Add (calls : Calls) : Prop := ∀ m actuals, Adds (calls m actuals)

section
variable {calls : Calls}

theorem closed_adds : Closed (fun _ => Adds) (fun _ => Adds) where
  pure := .pure
  throw := .throw
  get := .get
  bind := .bind
  weaken := id
  andThen := .bind
  allocate _ _ := List.prefix_rfl
  inScope := .inScope

theorem Calls.Add.called (add : calls.Add) (m : Meaning) (actuals : List Meaning) :
    Adds (calls m actuals >>= valued) := .bind (add m actuals) (holds_valued closed_adds)

theorem adds_callee (env : Env) (decl : Option Binding) (known : Option Standard)
    (name : String) : Adds (callee env decl known name) := holds_callee closed_adds env decl known name

theorem adds_expr (add : calls.Add) (env : Env) (e : Expr) : Adds (expr calls env e) :=
  holds_expr closed_adds add.called env e

/-- What follows a test. -/
theorem adds_test (add : calls.Add) {env : Env} {test : Expr} {f : Bool → Run β}
    (next : ∀ b, Adds (f b)) : Adds (do f (← truth (← expr calls env test))) :=
  .bind (adds_expr add env test) fun v => .bind (holds_truth closed_adds v) next

mutual
theorem adds_stmt (add : calls.Add) (bound : Nat) (env : Env) : ∀ c, Adds (stmt calls bound env c)
  | .assign _ target value => by
    refine .bind (adds_expr add env value) fun v =>
      .bind (holds_locate closed_adds add.called env target) fun m => ?_
    split
    · exact adds_write _ _
    · exact .throw _
  | .call _ decl name as => by
    exact .bind (holds_args closed_adds add.called env as) fun actuals =>
      .bind (adds_callee env decl _ name) fun m => .bind (add m _) fun _ => .pure _
  | .seq _ ss => by
    exact adds_stmts add bound env ss
  | .letIn _ ds body => by
    exact .inScope (.bind (holds_decls closed_adds add.called env ds) fun inner =>
      adds_stmt add bound inner body)
  | .ifThen _ test yes => by
    refine adds_test add fun b => ?_
    cases b
    · exact .pure _
    · exact adds_stmt add bound env yes
  | .ifElse _ test yes no => by
    refine adds_test add fun b => ?_
    cases b
    · exact adds_stmt add bound env no
    · exact adds_stmt add bound env yes
  | .whileDo _ test body => by
    refine .rounds (adds_test add fun b => ?_) bound
    cases b
    · exact .pure _
    · exact .bind (adds_stmt add bound env body) fun _ => .pure _
  | .repeatUntil _ body test => by
    exact .rounds (.bind (adds_stmt add bound env body) fun _ => adds_test add fun _ => .pure _)
      bound
  | .repeatWhile _ body test => by
    exact .rounds (.bind (adds_stmt add bound env body) fun _ =>
      .bind (adds_expr add env test) (holds_truth closed_adds)) bound
  | .loopWhile _ pre test post => by
    refine .rounds (.bind (adds_stmt add bound env pre) fun _ => adds_test add fun b => ?_) bound
    cases b
    · exact .pure _
    · exact .bind (adds_stmt add bound env post) fun _ => .pure _
  | .forever _ body => by
    exact .rounds (.bind (adds_stmt add bound env body) fun _ => .pure _) bound
  | .skip _ => by rw [stmt]; exact .pure _

theorem adds_stmts (add : calls.Add) (bound : Nat) (env : Env) : ∀ ss, Adds (stmts calls bound env
    ss)
  | [] => by rw [stmts]; exact .pure _
  | c :: ss => by
    exact .bind (adds_stmt add bound env c) fun _ => adds_stmts add bound env ss
end

end

theorem adds_call (bound : Nat) : (call bound).Add := by
  induction bound with
  | zero =>
    intro m actuals
    cases m with
    | standard known => exact known.adds_apply actuals
    | routine | value | place => exact .throw _
  | succ bound ih =>
    intro m actuals
    cases m with
    | standard known => exact known.adds_apply actuals
    | value | place => exact .throw _
    | routine name params body env =>
      cases body with
      | value e => exact .bind (adds_expr ih _ e) fun v => .pure _
      | command c => exact .bind (adds_stmt ih bound _ c) fun _ => .pure _

end Triangle.Semantics
