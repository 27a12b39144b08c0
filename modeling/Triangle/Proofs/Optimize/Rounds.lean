import Mathlib
import Triangle.Optimize.Basic
import Triangle.Proofs.Optimize.Settling

/-! The loop around the passes of folding: when it ends, after how many passes, and with what.

A pass that follows another folds nothing. So with a threshold that is not negative two passes are
enough, and what they make is what the first has made. With a negative one no pass can fold as little
as the threshold asks, and a cap on folds does not bound a loop that folds nothing: then only a first
pass that reaches the cap ends it. -/
namespace Triangle
namespace Optimize.Fold

/-- After this pass, with `total` folds before it, folding stops. -/
def Enough (cfg : FoldConfig) (total : Int) (once : Tally Program) : Prop :=
  once.count ≤ cfg.threshold ∨ cfg.limit ≤ total + once.count

/-- The loop with no bound on its passes: it makes `passes` of them, and ends with `folded`. -/
inductive Rounds (cfg : FoldConfig) : Int → Program → Nat → Tally Program → Prop where
  | last {total : Int} {p : Program} (enough : Enough cfg total (pass p)) :
    Rounds cfg total p 1 (pass p)
  | again {total : Int} {p : Program} {passes : Nat} {folded : Tally Program}
      (more : ¬ Enough cfg total (pass p))
      (rest : Rounds cfg (total + (pass p).count) (pass p).value passes folded) :
    Rounds cfg total p (passes + 1) (do let _ ← pass p; folded)

variable {cfg : FoldConfig} {total : Int} {p : Program} {passes : Nat} {folded : Tally Program}

/-- Bounded passes have a result if and only if the loop ends within the bound. -/
theorem repeatPass_eq_some {fuel : Nat} :
    repeatPass cfg total fuel p = some folded ↔ ∃ passes ≤ fuel, Rounds cfg total p passes folded := by
  induction fuel generalizing total p folded with
  | zero =>
    simp only [repeatPass, reduceCtorEq, false_iff, not_exists, not_and]
    intro passes none rounds
    cases rounds <;> simp at none
  | succ fuel ih =>
    rw [repeatPass]
    split
    · rename_i enough
      rw [Option.some.injEq]
      constructor
      · rintro rfl
        exact ⟨1, by omega, .last enough⟩
      · rintro ⟨_, -, rounds⟩
        cases rounds with
        | last => rfl
        | again more => exact absurd enough more
    · rename_i more
      rw [Option.map_eq_some_iff]
      constructor
      · rintro ⟨rest, found, rfl⟩
        obtain ⟨passes, within, rounds⟩ := ih.mp found
        exact ⟨passes + 1, by omega, .again more rounds⟩
      · rintro ⟨_, within, rounds⟩
        cases rounds with
        | last enough => exact absurd enough more
        | @again _ _ passes folded _ rest => exact ⟨folded, ih.mpr ⟨passes, by omega, rest⟩, rfl⟩

/-- On a program that a pass leaves as it is the loop ends at once or never. -/
theorem Rounds.settled (rounds : Rounds cfg total p passes folded) (value : (pass p).value = p)
    (count : (pass p).count = 0) : Enough cfg total (pass p) ∧ passes = 1 ∧ folded = pass p := by
  induction rounds with
  | last enough => exact ⟨enough, rfl, rfl⟩
  | again more rest ih =>
    rw [value] at ih
    refine absurd ?_ more
    simpa [count] using (ih value count).1

def passTwice (p : Program) : Tally Program := do
  let once ← pass p
  pass once

/-- All that the loop can do. -/
theorem rounds_iff : Rounds cfg total p passes folded ↔
    Enough cfg total (pass p) ∧ passes = 1 ∧ folded = pass p ∨
    ¬ Enough cfg total (pass p) ∧ 0 ≤ cfg.threshold ∧ passes = 2 ∧ folded = passTwice p := by
  obtain ⟨value, count, -⟩ := pass_again p
  constructor
  · intro rounds
    cases rounds with
    | last enough => exact .inl ⟨enough, rfl, rfl⟩
    | again more rest =>
      obtain ⟨enough, rfl, rfl⟩ := rest.settled value count
      rw [Enough, not_or] at more
      rw [Enough, count] at enough
      exact .inr ⟨by rw [Enough]; omega, by omega, rfl, rfl⟩
  · rintro (⟨enough, rfl, rfl⟩ | ⟨more, threshold, rfl, rfl⟩)
    · exact .last enough
    · refine .again more (.last (.inl ?_))
      rw [count]
      exact threshold

theorem ends_iff : (∃ passes folded, Rounds cfg 0 p passes folded) ↔
    0 ≤ cfg.threshold ∨ cfg.limit ≤ (pass p).count := by
  constructor
  · rintro ⟨passes, folded, rounds⟩
    rcases rounds_iff.mp rounds with ⟨enough, -⟩ | ⟨-, threshold, -⟩
    · rw [Enough] at enough
      omega
    · exact .inl threshold
  · intro ends
    by_cases enough : Enough cfg 0 (pass p)
    · exact ⟨1, pass p, .last enough⟩
    · refine ⟨2, _, rounds_iff.mpr (.inr ⟨enough, ?_, rfl, rfl⟩)⟩
      rw [Enough] at enough
      omega

theorem eraseDups_append_of_subset {α : Type} [BEq α] [LawfulBEq α] {xs ys : List α} (known : ys ⊆ xs) :
    (xs ++ ys).eraseDups = xs.eraseDups := by
  have none : ys.removeAll xs = [] := by
    rw [List.removeAll, List.filter_eq_nil_iff]
    simpa using fun y member => known member
  rw [List.eraseDups_append, none, List.eraseDups_nil, List.append_nil]

/-- What two passes make is what the first of them makes. -/
theorem passTwice_eq (p : Program) :
    (passTwice p).value = (pass p).value ∧ (passTwice p).count = (pass p).count ∧
    (passTwice p).reports.eraseDups = (pass p).reports.eraseDups := by
  obtain ⟨value, count, reports⟩ := pass_again p
  refine ⟨value, ?_, eraseDups_append_of_subset reports⟩
  show (pass p).count + (pass (pass p).value).count = _
  rw [count, Nat.add_zero]

end Optimize.Fold

open Optimize.Fold

theorem FoldConfig.limit_pos (cfg : FoldConfig) : 0 < cfg.limit := by
  unfold FoldConfig.limit
  split <;> omega

/-- Folding has the result of its first pass, or none. -/
theorem Program.fold?_eq (p : Program) (cfg : FoldConfig) : p.fold? cfg =
    if 0 ≤ cfg.threshold ∨ cfg.limit ≤ (pass p).count then
      some { pass p with reports := (pass p).reports.eraseDups }
    else none := by
  have positive := cfg.limit_pos
  rw [Program.fold?]
  split
  · rename_i ends
    by_cases enough : Enough cfg 0 (pass p)
    · rw [repeatPass_eq_some.mpr ⟨1, by omega, .last enough⟩]
      rfl
    · have bounds := enough
      rw [Enough, not_or] at bounds
      have rounds : Rounds cfg 0 p 2 (passTwice p) := rounds_iff.mpr (.inr ⟨enough, by omega, rfl, rfl⟩)
      rw [repeatPass_eq_some.mpr ⟨2, by omega, rounds⟩]
      obtain ⟨value, count, reports⟩ := passTwice_eq p
      simp only [Option.map_some, value, count, reports]
  · rename_i endless
    rw [Option.map_eq_none_iff, Option.eq_none_iff_forall_ne_some]
    intro folded found
    obtain ⟨passes, -, rounds⟩ := repeatPass_eq_some.mp found
    exact endless (ends_iff.mp ⟨passes, folded, rounds⟩)

/-- With a threshold that is not negative folding makes the program that its first pass makes. -/
theorem Program.fold?_value (p : Program) {cfg : FoldConfig} (threshold : 0 ≤ cfg.threshold) :
    ∃ t, p.fold? cfg = some t ∧ t.value = (pass p).value :=
  ⟨_, (p.fold?_eq cfg).trans (if_pos (.inl threshold)), rfl⟩

/-- The loop of folding ends if and only if the threshold is not negative or the first pass reaches
the cap, and folding has a result just then. In the optimizer both loops have to end. -/
theorem Program.folding_ends_iff (p : Program) (cfg : FoldConfig) (form : Text.Form) :
    ((∃ passes folded, Rounds cfg 0 p passes folded) ↔
      0 ≤ cfg.threshold ∨ cfg.limit ≤ (pass p).count) ∧
    ((p.fold? cfg).isSome ↔ ∃ passes folded, Rounds cfg 0 p passes folded) ∧
    ((p.optimize? cfg form).isSome ↔ (∃ passes folded, Rounds cfg 0 p passes folded) ∧
      ∃ passes folded, Rounds cfg 0 ((pass p).value.hoist form).value passes folded) := by
  refine ⟨ends_iff, ?_, ?_⟩
  · rw [ends_iff, p.fold?_eq]
    split <;> simp_all
  · rw [ends_iff, ends_iff, Program.optimize?, p.fold?_eq]
    split
    · rename_i ends
      simp only [Option.bind_eq_bind, Option.bind_some, Program.fold?_eq]
      split <;> simp_all
    · rename_i endless
      simp [endless]

/-- With a negative threshold there is no end where there is nothing to fold. -/
theorem skip_folds_endlessly :
    (∀ passes folded, ¬ Rounds { threshold := -1 } 0 ⟨.skip {}⟩ passes folded) ∧
    (⟨.skip {}⟩ : Program).fold? { threshold := -1 } = none ∧
    ∀ form, (⟨.skip {}⟩ : Program).optimize? { threshold := -1 } form = none := by
  have endless : ¬ (0 ≤ (-1 : Int) ∨
      ({ threshold := -1 } : FoldConfig).limit ≤ (pass ⟨.skip {}⟩).count) := by decide
  have none : (⟨.skip {}⟩ : Program).fold? { threshold := -1 } = none := by
    rw [Program.fold?_eq, if_neg endless]
  refine ⟨fun passes folded rounds => endless (ends_iff.mp ⟨passes, folded, rounds⟩), none, fun form => ?_⟩
  rw [Program.optimize?, none]
  rfl

end Triangle
