import Mathlib
import Triangle.Proofs.Machine.Runs
import Triangle.Proofs.Machine.View
import Triangle.Proofs.Semantics.Basic

/-! A machine that does what a part of a program does. The machine may always run out of stack
instead. It fails where the part of the program fails, after the same output; it runs for as many
steps as the bound says where the part is unfinished; and where a subscript leaves its array
nothing is said about it. -/
namespace Triangle

/-- The failures that a program can bring about: those of its arithmetic and of its input. -/
def Cause.Ordinary : Cause → Prop
  | .overflow | .divisionByZero | .input _ => True
  | _ => False

namespace Machine
open Semantics (Stop State Run)

variable {α β : Type} {code : List Instruction} {leaves : Prop} {n : Nat} {v v' : View}

/-- The machine does what the result `r` says; `after` relates the result to the view in the end. -/
def Agrees (code : List Instruction) (leaves : Prop) (n : Nat) (r : EStateM.Result Stop State α)
    (after : α → State → View → Prop) (m : Machine) : Prop :=
  m.Overflows ∨
    match r with
    | .ok a s => ∃ k m' v, m.Reaches k m' ∧ m'.Shows code v ∧ after a s v
    | .error (.trap cause) s => cause.Ordinary ∧ m.Fails cause s.output
    | .error .outOfRange _ => leaves
    | .error .unfinished _ => ∃ k m', n ≤ k ∧ m.Reaches k m'
    | .error .wrong _ => False

/-- What agrees later agrees now, with the steps until then added. -/
theorem Agrees.earlier {r : EStateM.Result Stop State α} {before after : α → State → View → Prop}
    {m middle : Machine} (agrees : Agrees code leaves n r before middle)
    (reaches : m.Reaches k middle) (bound : j ≤ n + k)
    (weaker : ∀ a s v, before a s v → after a s v) : Agrees code leaves j r after m := by
  rcases agrees with overflows | matched
  · exact .inl (reaches.overflows overflows)
  · refine .inr ?_
    match r, matched with
    | .ok a s, ⟨i, final, v, rest, shows, holds⟩ =>
      exact ⟨k + i, final, v, reaches.trans rest, shows, weaker a s v holds⟩
    | .error (.trap _) _, ⟨ordinary, fails⟩ => exact ⟨ordinary, reaches.fails fails⟩
    | .error .outOfRange _, left => exact left
    | .error .unfinished _, ⟨i, final, lasts, rest⟩ =>
      exact ⟨k + i, final, by omega, reaches.trans rest⟩

/-- From the view `v` every machine does what `r` says. -/
def Follows (code : List Instruction) (leaves : Prop) (n : Nat) (v : View)
    (r : EStateM.Result Stop State α) (after : α → State → View → Prop) : Prop :=
  ∀ m : Machine, m.Shows code v → Agrees code leaves n r after m

/-- One instruction leads from one view to the other. -/
def Advances (code : List Instruction) (v v' : View) : Prop :=
  ∀ m : Machine, m.Shows code v → m.Overflows ∨ ∃ m', m.step = (m', none) ∧ m'.Shows code v'

namespace Follows

theorem done {after : α → State → View → Prop} (holds : after a s v) :
    Follows code leaves n v (.ok a s) after :=
  fun m shows => .inr ⟨0, m, v, .here m, shows, holds⟩

theorem outOfRange {after : α → State → View → Prop} (left : leaves) :
    Follows code leaves n v (.error .outOfRange s) after :=
  fun _ _ => .inr left

/-- A machine that need not run on follows what is unfinished. -/
theorem unfinished {after : α → State → View → Prop} :
    Follows code leaves 0 v (.error .unfinished s) after :=
  fun m _ => .inr ⟨0, m, Nat.le_refl 0, .here m⟩

theorem mono {r : EStateM.Result Stop State α} {before after : α → State → View → Prop}
    (follows : Follows code leaves n v r before)
    (weaker : ∀ a s v', before a s v' → after a s v') : Follows code leaves n v r after :=
  fun m shows => (follows m shows).earlier (.here m) (Nat.le_refl n) weaker

theorem fewer {r : EStateM.Result Stop State α} {after : α → State → View → Prop}
    (follows : Follows code leaves n v r after) (less : k ≤ n) :
    Follows code leaves k v r after :=
  fun m shows => (follows m shows).earlier (.here m) less fun _ _ _ holds => holds

/-- Each instruction counts as one step towards the bound. -/
theorem advance {r : EStateM.Result Stop State α} {after : α → State → View → Prop}
    (first : Advances code v v') (follows : Follows code leaves n v' r after) :
    Follows code leaves (n + 1) v r after := by
  intro m shows
  rcases first m shows with overflows | ⟨m', step, shows'⟩
  · exact .inl overflows
  · exact (follows m' shows').earlier (.next shows.running step (.here m')) (Nat.le_refl _)
      fun _ _ _ holds => holds

theorem step {r : EStateM.Result Stop State α} {after : α → State → View → Prop}
    (first : Advances code v v') (follows : Follows code leaves n v' r after) :
    Follows code leaves n v r after :=
  (advance first follows).fewer (Nat.le_succ n)

/-- One part of the program after the other. -/
theorem bind {x : Run α} {f : α → Run β} {s : State} {middle : α → State → View → Prop}
    {after : β → State → View → Prop} (first : Follows code leaves n v (x s) middle)
    (second : ∀ a s' v', middle a s' v' → Follows code leaves n v' (f a s') after) :
    Follows code leaves n v ((x >>= f) s) after := by
  intro m shows
  rcases first m shows with overflows | matched
  · exact .inl overflows
  · cases result : x s with
    | ok a s' =>
      rw [result] at matched
      obtain ⟨k, m', v', reaches, shows', holds⟩ := matched
      rw [Result.bind_ok result]
      exact (second a s' v' holds m' shows').earlier reaches (Nat.le_add_right n k)
        fun _ _ _ holds => holds
    | error stop s' =>
      rw [result] at matched
      rw [Result.bind_error result]
      exact .inr (by cases stop <;> exact matched)

/-- What is left to do when the result is there. -/
theorem finish {r : EStateM.Result Stop State α} {middle after : α → State → View → Prop}
    (first : Follows code leaves n v r middle)
    (second : ∀ a s v', middle a s v' → Follows code leaves n v' (.ok a s) after) :
    Follows code leaves n v r after := by
  have whole := Follows.bind (x := fun _ => r) (f := pure) (s := {}) first second
  cases r <;> exact whole

/-- What is done on the way to something else. -/
theorem after {x : α} {s : State} {r : EStateM.Result Stop State β}
    {middle : α → State → View → Prop} {after : β → State → View → Prop}
    (first : Follows code leaves n v (.ok x s) middle)
    (second : ∀ v', middle x s v' → Follows code leaves n v' r after) :
    Follows code leaves n v r after := by
  intro m shows
  rcases first m shows with overflows | ⟨k, m', v', reaches, shows', holds⟩
  · exact .inl overflows
  · exact (second v' holds m' shows').earlier reaches (Nat.le_add_right n k) fun _ _ _ holds => holds

end Follows

/-! ## From instructions to steps -/

/-- The instruction does what the result `r` says, in one step. -/
def Matches (code : List Instruction) (x : Exec Unit) (m : Machine)
    (r : EStateM.Result Stop State α) (after : α → State → View → Prop) : Prop :=
  (∃ m', x m = .error .stackOverflow m') ∨
    match r with
    | .ok a s => ∃ m' v, x m = .ok () m' ∧ m'.Shows code v ∧ after a s v
    | .error (.trap cause) s => cause.Ordinary ∧
        ∃ m', x m = .error cause m' ∧ m'.output.toList = s.output
    | .error _ _ => False

theorem Shows.step (shows : Shows m code v) (here : code[v.cp]? = some i) :
    m.step = match exec i m with
      | .ok () after => ({ after with steps := after.steps + 1 }, none)
      | .error cause after => (after, some ⟨m.cp, cause⟩) := by
  have inside : ¬m.cp < 0 := by
    rw [shows.cp]
    omega
  have found : m.code[m.cp.toNat]? = some i := by simpa [shows.code, shows.cp] using here
  cases done : exec i m with
  | ok cause after | error cause after =>
    simp only [Machine.step, shows.running, Bool.false_eq_true, inside, found, done, ↓reduceIte]

theorem Shows.count (shows : Shows m code v) (k : Nat) : Shows { m with steps := k } code v :=
  { shows with }

theorem Follows.of_matches {r : EStateM.Result Stop State α} {after : α → State → View → Prop}
    (here : code[v.cp]? = some i)
    (matched : ∀ m, m.Shows code v → Matches code (exec i) m r after) :
    Follows code leaves n v r after := by
  intro m shows
  have step := shows.step here
  rcases matched m shows with ⟨m', overflow⟩ | matched
  · rw [overflow] at step
    exact .inl ⟨_, 0, m, m', m.cp, .here m, step, rfl⟩
  · refine .inr ?_
    match r, matched with
    | .ok a s, ⟨m', v', done, shows', holds⟩ =>
      rw [done] at step
      exact ⟨1, _, v', .next shows.running step (.here _), shows'.count _, holds⟩
    | .error (.trap cause) s, ⟨ordinary, m', failed, same⟩ =>
      rw [failed] at step
      exact ⟨ordinary, 0, m, m', m.cp, .here m, step, same⟩

theorem Advances.of_safely (here : code[v.cp]? = some i)
    (safely : ∀ m, m.Shows code v → Safely (exec i) m fun _ m' => m'.Shows code v') :
    Advances code v v' := by
  intro m shows
  have step := shows.step here
  rcases safely m shows with ⟨m', overflow⟩ | ⟨_, m', done, shows'⟩
  · rw [overflow] at step
    exact .inl ⟨_, 0, m, m', m.cp, .here m, step, rfl⟩
  · rw [done] at step
    exact .inr ⟨_, step, shows'.count _⟩

theorem Matches.mono {x : Exec Unit} {r : EStateM.Result Stop State α}
    {before after : α → State → View → Prop} (first : Matches code x m r before)
    (weaker : ∀ a s v, before a s v → after a s v) : Matches code x m r after := by
  rcases first with overflow | matched
  · exact .inl overflow
  · refine .inr ?_
    match r, matched with
    | .ok a s, ⟨m', v, done, shows, holds⟩ => exact ⟨m', v, done, shows, weaker a s v holds⟩
    | .error (.trap _) _, failed => exact failed

/-- The first part of an instruction only prepares what the rest does. -/
theorem Safely.matches {x : Exec α} {f : α → Exec Unit} {r : EStateM.Result Stop State β}
    {middle : α → Machine → Prop} {after : β → State → View → Prop} (first : Safely x m middle)
    (second : ∀ a m', middle a m' → Matches code (f a) m' r after) :
    Matches code (x >>= f) m r after := by
  rcases first with ⟨m', overflow⟩ | ⟨a, m', done, holds⟩
  · exact .inl ⟨m', Result.bind_error overflow⟩
  · simpa only [Matches, Result.bind_ok done] using second a m' holds

end Machine
end Triangle
