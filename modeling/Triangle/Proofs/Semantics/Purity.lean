import Mathlib
import Triangle.Proofs.Semantics.Closed

/-! Expressions have no effects. An expression that has a value leaves the state as it was: what it
declares is gone when it is done, and a procedure has no value. Declarations only add variables. -/
namespace Triangle.Semantics

open Result (of_pure of_bind)

variable {α β : Type} {x : Run α} {f : α → Run β}

/-- What succeeds leaves the state as it was. -/
def Steady (x : Run α) : Prop := ∀ s a s', x s = .ok a s' → s' = s

/-- What succeeds adds variables and changes nothing else. -/
def Grows (x : Run α) : Prop :=
  ∀ s a s', x s = .ok a s' → ∃ new, s' = { s with store := s.store ++ new }

namespace Steady

theorem pure (a : α) : Steady (Pure.pure a) := by
  intro s b s' done
  exact (of_pure done).2

theorem throw (stop : Stop) : Steady (throw stop : Run α) := by
  intro s a s' done
  cases done

theorem bind (first : Steady x) (second : ∀ a, Steady (f a)) : Steady (x >>= f) := by
  intro s b s' done
  obtain ⟨a, middle, one, two⟩ := of_bind done
  obtain rfl := first _ _ _ one
  exact second a _ _ _ two

theorem grows (steady : Steady x) : Grows x := by
  intro s a s' done
  obtain rfl := steady _ _ _ done
  exact ⟨[], by simp⟩

end Steady

theorem Grows.bind (first : Grows x) (second : ∀ a, Grows (f a)) : Grows (x >>= f) := by
  intro s b s' done
  obtain ⟨a, middle, one, two⟩ := of_bind done
  obtain ⟨new, rfl⟩ := first _ _ _ one
  obtain ⟨newer, rfl⟩ := second a _ _ _ two
  exact ⟨new ++ newer, by simp⟩

/-- What is added in a scope is gone at its end. -/
theorem Grows.inScope (grows : Grows x) : Steady (inScope x) := by
  intro s a s' done
  obtain ⟨_, _, got, done⟩ := of_bind done
  cases got
  obtain ⟨b, middle, one, done⟩ := of_bind done
  obtain ⟨_, _, cut, done⟩ := of_bind done
  obtain ⟨new, rfl⟩ := grows _ _ _ one
  cases cut
  obtain ⟨rfl, rfl⟩ := of_pure done
  simp

theorem closed_steady : Closed (fun _ => Steady) (fun _ => Grows) where
  pure := .pure
  throw := .throw
  get _ _ _ done := by cases done; rfl
  bind := .bind
  weaken := Steady.grows
  andThen := .bind
  allocate v _ _ _ done := by
    cases done
    exact ⟨[v], rfl⟩
  inScope := Grows.inScope

/-! ## The tree -/

/-- A call that has a value changes nothing. -/
def Calls.Steady (calls : Calls) : Prop :=
  ∀ m actuals, Semantics.Steady (calls m actuals >>= valued)

theorem steady_expr {calls : Calls} (steady : calls.Steady) (env : Env) (e : Expr) :
    Steady (expr calls env e) := holds_expr closed_steady steady env e

/-- A procedure has no value. -/
def Mute (x : Run (Option Value)) : Prop := ∀ s r s', x s = .ok r s' → r = none

theorem Mute.bind {f : α → Run (Option Value)} (x : Run α) (later : ∀ a, Mute (f a)) :
    Mute (x >>= f) := by
  intro s r s' done
  obtain ⟨a, middle, -, two⟩ := of_bind done
  exact later a _ _ _ two

theorem Mute.pure : Mute (Pure.pure none) := by
  intro s r s' done
  exact (of_pure done).1

theorem Mute.steady {x : Run (Option Value)} (mute : Mute x) : Steady (x >>= valued) := by
  intro s v s' done
  obtain ⟨r, middle, one, two⟩ := of_bind done
  obtain rfl := mute _ _ _ one
  cases two

theorem steady_valued (r : Option Value) : Steady (valued r) := holds_valued closed_steady r

namespace Standard

theorem steady_checked (w : Option Word) : Steady (checked w) := by
  cases w with
  | none => exact .throw _
  | some w => exact .pure _

theorem steady_division (part : Word × Word → Word) (a b : Word) : Steady (division part a b) := by
  unfold division
  split
  · exact .throw _
  · exact steady_checked _

theorem steady_taking {kind? : List Meaning → Option α} {f : α → Run (Option Value)}
    (steady : ∀ a, Steady (f a >>= valued)) (actuals : List Meaning) :
    Steady (taking kind? f actuals >>= valued) := by
  unfold taking
  split
  · exact steady _
  · exact .bind (.throw _) steady_valued

theorem steady_apply (known : Standard) (actuals : List Meaning) :
    Steady (known.apply actuals >>= valued) := by
  cases known with
  | not | and | or | lt | le | gt | ge | eq | ne | chr =>
    exact steady_taking (fun _ => .bind (.pure _) steady_valued) actuals
  | neg | add | sub | mult | ord =>
    exact steady_taking (fun _ => .bind (steady_checked _) steady_valued) actuals
  | div | mod => exact steady_taking (fun _ => .bind (steady_division _ _ _) steady_valued) actuals
  | eol | eof =>
    refine steady_taking (fun _ => .bind (.bind ?_ fun _ => .pure _) steady_valued) actuals
    intro s a s' done
    cases done
    rfl
  | get | getint =>
    exact steady_taking (fun _ => (Mute.bind _ fun _ => .bind _ fun _ => .pure).steady) actuals
  | put | putint | geteol | puteol =>
    exact steady_taking (fun _ => (Mute.bind _ fun _ => .pure).steady) actuals

end Standard

/-- No call that has a value changes anything, however deep calls may nest. -/
theorem steady_call (bound : Nat) : (call bound).Steady := by
  induction bound with
  | zero =>
    intro m actuals
    cases m with
    | standard known => exact known.steady_apply actuals
    | routine | value | place => exact .bind (.throw _) steady_valued
  | succ bound ih =>
    intro m actuals
    cases m with
    | standard known => exact known.steady_apply actuals
    | value | place => exact .bind (.throw _) steady_valued
    | routine name params body env =>
      rw [call]
      cases body with
      | value e => exact .bind (.bind (steady_expr ih _ e) fun v => .pure _) steady_valued
      | command c => exact (Mute.bind _ fun _ => .pure).steady

end Triangle.Semantics
