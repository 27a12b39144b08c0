import Mathlib
import Triangle.Proofs.Machine.Calls

/-! The primitives of the machine do what the standard routines do. -/
namespace Triangle.Semantics

/-- What shows of a machine that is as far as the program in the state `s`. -/
def State.view (s : State) (cp lb : Nat) (stack : List Word) : View :=
  ⟨cp, lb, stack, s.input, s.output⟩

end Triangle.Semantics

namespace Triangle.Machine
open Semantics (Stop State Run Value Standard)

variable {m : Machine} {code : List Instruction} {s : State} {cp lb : Nat} {a b w : Word}
  {below : List Word}

/-- The routine returns a value of type `t` in place of its arguments, and changes nothing else. -/
def Returns (cp lb : Nat) (below : List Word) (t : Ty) (s : State) (r : Option Value) (s' : State)
    (v : View) : Prop :=
  s' = s ∧ ∃ x : Value, r = some x ∧ x.HasTy t ∧ v = s.view cp lb (below ++ x.words)

namespace Matches

theorem of_safely {x : Exec Unit} {a : α} {after : α → State → View → Prop}
    (safely : Safely x m fun _ m' => m'.Shows code v) (holds : after a s v) :
    Matches code x m (.ok a s) after := by
  rcases safely with overflow | ⟨_, m', done, shows⟩
  · exact .inl overflow
  · exact .inr ⟨m', v, done, shows, holds⟩

theorem trap {x : Exec Unit} {after : α → State → View → Prop} (ordinary : cause.Ordinary)
    (failed : x m = .error cause m') (same : m'.output.toList = s.output) :
    Matches code x m (.error (.trap cause) s) after :=
  .inr ⟨ordinary, m', failed, same⟩

end Matches

theorem Safely.popPair (shows : m.Shows code v) (top : v.stack = below ++ [a, b]) :
    Safely Machine.popPair m fun pair m' =>
      (a, b) = pair ∧ m'.Shows code { v with stack := below } := by
  have height : m.st = below.length + 2 := by simp [shows.st, top]
  have first : m.data.read (m.st - 2) = a := by
    rw [height, add_sub_cancel_right]
    exact shows.data.read (top ▸ ⟨below, [b], by simp, rfl⟩)
  have second : m.data.read (m.st - 1) = b := by
    have position : m.st - 1 = (below.length + 1 : Nat) := by omega
    rw [position]
    exact shows.data.read (top ▸ ⟨below ++ [a], [], by simp, by simp⟩)
  refine .of_ok (a := (a, b)) (f := { m with st := m.st - 2 }) ?_ ⟨rfl, ?_⟩
  · rw [popPair_ok (by omega), first, second]
  · have fits := shows.fits
    have data := shows.data
    rw [top] at fits data
    exact { shows with
      st := by simp [height]
      fits := by simp at fits ⊢; omega
      data := data.initial }

namespace Matches

/-- A result is pushed; without one the operation overflows. -/
theorem pushResult (shows : m.Shows code (s.view cp lb below)) (result : Option Word) :
    Matches code (Machine.pushResult .overflow result) m (Standard.checked result s)
      (Returns cp lb below .integer s) := by
  cases result with
  | some w =>
    exact .of_safely (Safely.push shows [w]) ⟨rfl, .int w, rfl, trivial, rfl⟩
  | none => exact .trap trivial rfl shows.output

theorem pushTruth (shows : m.Shows code (s.view cp lb below)) (truth : Bool) :
    Matches code (push [.ofBool truth]) m (Standard.truthValue truth s)
      (Returns cp lb below .boolean s) :=
  .of_safely (Safely.push shows _) ⟨rfl, .bool truth, rfl, trivial, rfl⟩

theorem arithmetic (shows : m.Shows code (s.view cp lb (below ++ [a, b])))
    (op : Word → Word → Option Word) :
    Matches code (Machine.arithmetic op) m (Standard.checked (op a b) s)
      (Returns cp lb below .integer s) := by
  refine (Safely.popPair shows rfl).matches ?_
  rintro _ m' ⟨rfl, shows'⟩
  exact pushResult shows' _

theorem division (shows : m.Shows code (s.view cp lb (below ++ [a, b])))
    (part : Word × Word → Word) :
    Matches code (Machine.division part) m (Standard.division part a b s)
      (Returns cp lb below .integer s) := by
  refine (Safely.popPair shows rfl).matches ?_
  rintro _ m' ⟨rfl, shows'⟩
  by_cases zero : b = 0
  · simp only [zero, ↓reduceIte, Standard.division]
    exact .trap trivial rfl shows'.output
  · simp only [zero, ↓reduceIte, Standard.division]
    exact pushResult shows' _

theorem comparison (shows : m.Shows code (s.view cp lb (below ++ [a, b])))
    (test : Word → Word → Bool) (same : test a b = truth) :
    Matches code (Machine.comparison test) m (Standard.truthValue truth s)
      (Returns cp lb below .boolean s) := by
  refine (Safely.popPair shows rfl).matches ?_
  rintro _ m' ⟨rfl, shows'⟩
  subst same
  exact pushTruth shows' _

theorem not (shows : m.Shows code (s.view cp lb (below ++ [.ofBool truth]))) :
    Matches code (Machine.primitive .not) m (Standard.truthValue (!truth) s)
      (Returns cp lb below .boolean s) := by
  refine (Safely.pop shows rfl).matches ?_
  rintro _ m' ⟨rfl, shows'⟩
  have same : (Word.ofBool truth == 0) = !truth := by cases truth <;> rfl
  rw [same]
  exact pushTruth shows' _

theorem stepping (shows : m.Shows code (s.view cp lb (below ++ [a]))) (op : Word → Option Word) :
    Matches code (Machine.stepping op) m (Standard.checked (op a) s)
      (Returns cp lb below .integer s) := by
  refine (Safely.pop shows rfl).matches ?_
  rintro _ m' ⟨rfl, shows'⟩
  exact pushResult shows' _

/-- Two values of one type are compared word by word. -/
theorem equality {x y : Value} {t : Ty} (left : x.HasTy t) (right : y.HasTy t)
    (small : t.trueSize < 0x8000)
    (shows : m.Shows code (s.view cp lb (below ++ x.words ++ y.words ++ [.truncate t.trueSize])))
    (expected : Bool) :
    Matches code (Machine.equality expected) m (Standard.truthValue (x.same y == expected) s)
      (Returns cp lb below .boolean s) := by
  refine (Safely.pop shows rfl).matches ?_
  rintro _ m' ⟨rfl, shows'⟩
  have size : (Word.truncate (t.trueSize : Int)).toInt = t.trueSize :=
    Word.toInt_truncate (by omega) (by omega)
  rw [size, if_neg (by omega)]
  refine (Safely.popN shows' rfl (by rw [right.length])).matches ?_
  rintro _ m'' ⟨rfl, shows''⟩
  refine (Safely.popN shows'' rfl (by rw [left.length])).matches ?_
  rintro _ m''' ⟨rfl, shows'''⟩
  have same : (x.words == y.words) = x.same y := by
    rw [Bool.eq_iff_iff, beq_iff_eq, Value.same_iff left right]
  rw [same]
  exact pushTruth shows''' _

/-- What reads from the input fails as the program fails, or leaves the rest of the input. -/
theorem reading {α : Type} {reader : List UInt8 → Except InputFault α × List UInt8}
    {f : α → Exec Unit} {g : α → Run β} {after : β → State → View → Prop}
    (shows : m.Shows code (s.view cp lb below))
    (next : ∀ x rest m', reader s.input = (.ok x, rest) →
      m'.Shows code (State.view { s with input := rest } cp lb below) →
      Matches code (f x) m' (g x { s with input := rest }) after) :
    Matches code (Machine.reading reader >>= f) m ((Semantics.reading reader >>= g) s) after := by
  have input : m.input = s.input := shows.input
  rcases result : reader s.input with ⟨answer, rest⟩
  cases answer with
  | ok x =>
    have machine : Machine.reading reader m = .ok x { m with input := rest } := by
      simp [Machine.reading, input, result]
    have program : Semantics.reading reader s = .ok x { s with input := rest } := by
      simp [Semantics.reading, result]
    rw [Result.bind_ok program]
    have follows := next x rest { m with input := rest } result
      { shows with input := rfl }
    simpa only [Matches, Result.bind_ok machine] using follows
  | error fault =>
    have machine : Machine.reading reader m = .error (.input fault) { m with input := rest } := by
      simp [Machine.reading, input, result]
    have program : Semantics.reading reader s =
        .error (.trap (.input fault)) { s with input := rest } := by
      simp [Semantics.reading, result]
    rw [Result.bind_error program]
    exact .trap trivial (Result.bind_error machine) shows.output

end Matches
end Triangle.Machine
