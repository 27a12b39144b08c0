import Mathlib
import Triangle.Machine.Step

/-! Runs of a machine, instruction after instruction. A machine that does in one instruction what
another does in one or more runs like it, as long as the other does not run out of stack. -/
namespace Triangle.Machine

/-- The machine runs on for `k` instructions without stopping. -/
inductive Reaches : (k : Nat) → Machine → Machine → Prop where
  | here (m : Machine) : Reaches 0 m m
  | next {m middle final : Machine} (running : m.halted = false) (first : m.step = (middle, none))
      (rest : Reaches k middle final) : Reaches (k + 1) m final

theorem Reaches.trans {m middle final : Machine} (first : m.Reaches j middle)
    (second : middle.Reaches k final) : m.Reaches (j + k) final := by
  induction first with
  | here => simpa using second
  | next running step _ ih =>
    rw [Nat.add_right_comm]
    exact .next running step (ih second)

/-- The machine runs into an instruction that fails. -/
def Fails (m : Machine) (cause : Cause) (output : List UInt8) : Prop :=
  ∃ k before after address, m.Reaches k before ∧ before.step = (after, some ⟨address, cause⟩) ∧
    after.output.toList = output

def Overflows (m : Machine) : Prop := ∃ output, m.Fails .stackOverflow output

theorem Reaches.fails {m middle : Machine} {bytes : List UInt8} (first : m.Reaches k middle)
    (fails : middle.Fails cause bytes) : m.Fails cause bytes := by
  obtain ⟨j, before, after, address, reaches, step, same⟩ := fails
  exact ⟨k + j, before, after, address, first.trans reaches, step, same⟩

theorem Reaches.overflows {m middle : Machine} (first : m.Reaches k middle)
    (overflows : middle.Overflows) : m.Overflows := by
  obtain ⟨bytes, fails⟩ := overflows
  exact ⟨bytes, first.fails fails⟩

variable {m n middle final before after : Machine} {j k : Nat}

/-- A machine that runs on for `k` instructions is stopped by a smaller budget, and a larger one is
left for what comes after them. -/
theorem Reaches.runFor (reaches : m.Reaches k middle) (budget : Nat) :
    (k ≤ budget → m.runFor budget = middle.runFor (budget - k)) ∧
      (budget < k → ∃ stopped address, m.runFor budget = (stopped, some ⟨address, .stepLimit⟩)) := by
  induction reaches generalizing budget with
  | here => simp
  | @next k m middle final running first rest ih =>
    cases budget with
    | zero => exact ⟨by omega, fun _ => ⟨m, m.cp, by simp [Machine.runFor, running]⟩⟩
    | succ budget =>
      have unfolded : m.runFor (budget + 1) = middle.runFor budget := by
        simp [Machine.runFor, running, first]
      rw [unfolded, Nat.add_sub_add_right]
      exact ⟨fun enough => (ih budget).1 (by omega), fun less => (ih budget).2 (by omega)⟩

/-! ## A machine has one run -/

theorem Reaches.rest (first : m.Reaches j middle) (whole : m.Reaches k final) (less : j ≤ k) :
    middle.Reaches (k - j) final := by
  induction first generalizing k with
  | here => simpa using whole
  | next running step _ ih =>
    cases whole with
    | here => omega
    | next _ step' rest =>
      cases step.symm.trans step'
      rw [Nat.add_sub_add_right]
      exact ih rest (by omega)

theorem Reaches.same (first : m.Reaches k middle) (second : m.Reaches k final) : final = middle := by
  have rest := first.rest second (Nat.le_refl k)
  rw [Nat.sub_self] at rest
  cases rest
  rfl

/-- A machine that does not run on ends every run. -/
def Stuck (m : Machine) : Prop := ∀ m', ¬m.Reaches 1 m'

theorem stuck_of_halted (halted : m.halted = true) : m.Stuck := by
  intro m' reaches
  cases reaches with
  | next running => cases running.symm.trans halted

theorem stuck_of_trap {trap : Trap} (step : m.step = (after, some trap)) : m.Stuck := by
  intro m' reaches
  cases reaches with
  | next _ step' => cases step.symm.trans step'

theorem Reaches.le_of_stuck (stuck : final.Stuck) (whole : m.Reaches k final)
    (first : m.Reaches j middle) : j ≤ k := by
  by_contra more
  have rest := whole.rest first (by omega)
  obtain ⟨d, same⟩ : ∃ d, j - k = d + 1 := ⟨j - k - 1, by omega⟩
  rw [same] at rest
  cases rest with
  | next running step _ => exact stuck _ (.next running step (.here _))

theorem halted_of_trap {trap : Trap} (step : m.step = (after, some trap)) : m.halted = false := by
  cases halted : m.halted with
  | false => rfl
  | true => simp [Machine.step, halted] at step

/-! ## Runs with a limit -/

theorem reaches_of_runFor {budget : Nat} (run : m.runFor budget = (final, none)) :
    ∃ k ≤ budget, m.Reaches k final ∧ final.halted = true := by
  induction budget generalizing m with
  | zero =>
    simp only [Machine.runFor] at run
    split at run
    · rename_i halted
      cases run
      exact ⟨0, Nat.le_refl 0, .here _, halted⟩
    · cases run
  | succ budget ih =>
    simp only [Machine.runFor] at run
    split at run
    · rename_i halted
      cases run
      exact ⟨0, Nat.zero_le _, .here _, halted⟩
    · rename_i running
      split at run
      · rename_i next step
        obtain ⟨k, less, reaches, halted⟩ := ih run
        exact ⟨k + 1, by omega, .next (by simpa using running) step reaches, halted⟩
      · cases run

/-- A run that fails before its limit comes to an instruction that does. -/
theorem trap_of_runFor {budget : Nat} {trap : Trap} (run : m.runFor budget = (final, some trap))
    (early : trap.cause ≠ .stepLimit) :
    ∃ k < budget, ∃ before, m.Reaches k before ∧ before.step = (final, some trap) := by
  induction budget generalizing m with
  | zero =>
    simp only [Machine.runFor] at run
    split at run
    · cases run
    · cases run
      exact absurd rfl early
  | succ budget ih =>
    simp only [Machine.runFor] at run
    split at run
    · cases run
    · rename_i running
      split at run
      · rename_i next step
        obtain ⟨k, less, before, reaches, failed⟩ := ih run
        exact ⟨k + 1, by omega, before, .next (by simpa using running) step reaches, failed⟩
      · rename_i step
        cases run
        exact ⟨0, by omega, m, .here m, step⟩

theorem Reaches.run_halted (fresh : m.steps = 0) (reaches : m.Reaches k final)
    (halted : final.halted = true) {limit : Nat} (enough : k ≤ limit) :
    m.run limit = (final, none) := by
  rw [Machine.run, fresh, Nat.sub_zero, (reaches.runFor limit).1 enough]
  cases limit - k <;> simp [Machine.runFor, halted]

theorem Reaches.run_trap {trap : Trap} (fresh : m.steps = 0) (reaches : m.Reaches k before)
    (step : before.step = (after, some trap)) {limit : Nat} (enough : k < limit) :
    m.run limit = (after, some trap) := by
  rw [Machine.run, fresh, Nat.sub_zero, (reaches.runFor limit).1 (by omega)]
  obtain ⟨budget, same⟩ : ∃ budget, limit - k = budget + 1 := ⟨limit - k - 1, by omega⟩
  simp [same, Machine.runFor, halted_of_trap step, step]

/-! ## One machine in place of another -/

/-- The machine never stops. -/
def Endless (m : Machine) : Prop := ∀ k, ∃ m', m.Reaches k m'

/-- Both machines have halted, with the same output and the same words on the stack. -/
structure HaltAlike (m n : Machine) : Prop where
  halted : m.halted = true
  halted' : n.halted = true
  output : n.output = m.output
  st : n.st = m.st
  data : ∀ k : Nat, (k : Int) < m.st → n.data.read k = m.data.read k

/-- One instruction of `n` does what one or more of `m` do, or fails as `m` does, unless `m` runs out
of stack. -/
inductive Keeps (related : Machine → Machine → Prop) (m n : Machine) : Prop where
  | overflow (overflows : m.Overflows)
  | step {k : Nat} {m' n' : Machine} (first : m.Reaches (k + 1) m') (running : n.halted = false)
      (second : n.step = (n', none)) (after : related m' n' ∨ HaltAlike m' n')
  | fail {k : Nat} {before failed failed' : Machine} {address address' : Int} {cause : Cause}
      (first : m.Reaches k before) (second : before.step = (failed, some ⟨address, cause⟩))
      (third : n.step = (failed', some ⟨address', cause⟩)) (output : failed'.output = failed.output)

variable {related : Machine → Machine → Prop}

/-- Where one machine comes to its end the other has come to it, after no more instructions. -/
theorem Keeps.halts (keeps : ∀ {m n}, related m n → Keeps related m n) (start : related m n)
    (reaches : m.Reaches k final) (halted : final.halted = true) :
    ∃ j ≤ k, ∃ final', n.Reaches j final' ∧ HaltAlike final final' := by
  induction k using Nat.strong_induction_on generalizing m n with
  | _ k ih =>
    have stuck := stuck_of_halted halted
    cases keeps start with
    | overflow overflows =>
      obtain ⟨_, j, before, after, address, first, failed, _⟩ := overflows
      have less := reaches.le_of_stuck stuck first
      have more := first.le_of_stuck (stuck_of_trap failed) reaches
      obtain rfl : j = k := by omega
      cases first.same reaches
      cases halted.symm.trans (halted_of_trap failed)
    | @step i m' n' first running second after =>
      have less := reaches.le_of_stuck stuck first
      have rest := first.rest reaches less
      rcases after with again | both
      · obtain ⟨j, fewer, final', others, alike⟩ := ih _ (by omega) again rest
        exact ⟨j + 1, by omega, final', .next running second others, alike⟩
      · have none : i + 1 = k :=
          Nat.le_antisymm less (first.le_of_stuck (stuck_of_halted both.halted) reaches)
        subst none
        cases first.same reaches
        exact ⟨1, by omega, n', .next running second (.here n'), both⟩
    | @fail j before failed failed' address address' cause first second third output =>
      have less := reaches.le_of_stuck stuck first
      have more := first.le_of_stuck (stuck_of_trap second) reaches
      obtain rfl : j = k := by omega
      cases first.same reaches
      cases halted.symm.trans (halted_of_trap second)

/-- Where one machine fails the other fails, after no more instructions. -/
theorem Keeps.traps (keeps : ∀ {m n}, related m n → Keeps related m n) (start : related m n)
    {address : Int} {cause : Cause} (reaches : m.Reaches k before)
    (step : before.step = (after, some ⟨address, cause⟩)) (other : cause ≠ .stackOverflow) :
    ∃ j ≤ k, ∃ before' after' address', n.Reaches j before' ∧
      before'.step = (after', some ⟨address', cause⟩) ∧ after'.output = after.output := by
  induction k using Nat.strong_induction_on generalizing m n with
  | _ k ih =>
    have stuck := stuck_of_trap step
    -- the end of a run that fails is the only place where it fails
    have only {j : Nat} {end' left : Machine} {trap : Trap} (first : m.Reaches j end')
        (failed : end'.step = (left, some trap)) : end' = before := by
      have less := reaches.le_of_stuck stuck first
      have more := first.le_of_stuck (stuck_of_trap failed) reaches
      obtain rfl : j = k := by omega
      exact reaches.same first
    cases keeps start with
    | overflow overflows =>
      obtain ⟨_, j, end', left, place, first, failed, _⟩ := overflows
      cases only first failed
      cases failed.symm.trans step
      exact absurd rfl other
    | @step i m' n' first running second after =>
      have less := reaches.le_of_stuck stuck first
      have rest := first.rest reaches less
      rcases after with again | both
      · obtain ⟨j, fewer, before', after', address', others, failed, same⟩ :=
          ih _ (by omega) again rest
        exact ⟨j + 1, by omega, before', after', address', .next running second others, failed, same⟩
      · have none : i + 1 = k :=
          Nat.le_antisymm less (first.le_of_stuck (stuck_of_halted both.halted) reaches)
        subst none
        cases first.same reaches
        cases both.halted.symm.trans (halted_of_trap step)
    | @fail j end' failed failed' place place' cause' first second third output =>
      cases only first second
      cases second.symm.trans step
      exact ⟨0, Nat.zero_le k, n, failed', place', .here n, third, output⟩

/-- Where one machine never stops, the other never does. -/
theorem Keeps.endless (keeps : ∀ {m n}, related m n → Keeps related m n) (start : related m n)
    (endless : m.Endless) : n.Endless := by
  have running {final : Machine} {j : Nat} (first : m.Reaches j final) : ¬final.Stuck := by
    intro stuck
    obtain ⟨further, more⟩ := endless (j + 1)
    have less := first.le_of_stuck stuck more
    omega
  intro k
  induction k generalizing m n with
  | zero => exact ⟨n, .here n⟩
  | succ k ih =>
    cases keeps start with
    | overflow overflows =>
      obtain ⟨_, j, before, after, address, first, failed, _⟩ := overflows
      exact absurd (stuck_of_trap failed) (running first)
    | @step i m' n' first alive second after =>
      rcases after with again | both
      · have later : m'.Endless := fun j => by
          obtain ⟨further, more⟩ := endless (i + 1 + j)
          refine ⟨further, ?_⟩
          simpa using first.rest more (by omega)
        have goesOn {final : Machine} {j : Nat} (more : m'.Reaches j final) : ¬final.Stuck :=
          running (first.trans more)
        obtain ⟨final', others⟩ := ih again later goesOn
        exact ⟨final', .next alive second others⟩
      · exact absurd (stuck_of_halted both.halted) (running first)
    | @fail j before failed failed' address address' cause first second third output =>
      exact absurd (stuck_of_trap second) (running first)

/-! ## Runs that are alike -/

theorem HaltAlike.trans {o : Machine} (first : HaltAlike m n) (second : HaltAlike n o) :
    HaltAlike m o where
  halted := first.halted
  halted' := second.halted'
  output := second.output.trans first.output
  st := second.st.trans first.st
  data k below := by rw [second.data k (by rwa [first.st]), first.data k below]

/-- The machine `n` runs like `m`, with no more instructions, unless `m` runs out of stack. -/
structure Imitates (n m : Machine) : Prop where
  halts : ∀ limit final, m.run limit = (final, none) →
    ∃ final', n.run limit = (final', none) ∧ HaltAlike final final'
  traps : ∀ limit final address cause, m.run limit = (final, some ⟨address, cause⟩) →
    cause ≠ .stackOverflow → cause ≠ .stepLimit →
      ∃ final' address', n.run limit = (final', some ⟨address', cause⟩) ∧ final'.output = final.output
  endless : m.Endless → n.Endless

theorem Imitates.trans {o : Machine} (second : o.Imitates n) (first : n.Imitates m) : o.Imitates m where
  halts limit final run := by
    obtain ⟨final', run', alike⟩ := first.halts limit final run
    obtain ⟨final'', run'', alike'⟩ := second.halts limit final' run'
    exact ⟨final'', run'', alike.trans alike'⟩
  traps limit final address cause run full early := by
    obtain ⟨final', address', run', same⟩ := first.traps limit final address cause run full early
    obtain ⟨final'', address'', run'', same'⟩ := second.traps limit final' address' cause run' full early
    exact ⟨final'', address'', run'', same'.trans same⟩
  endless := second.endless ∘ first.endless

theorem Keeps.imitates (keeps : ∀ {m n}, related m n → Keeps related m n) (start : related m n)
    (fresh : m.steps = 0) (fresh' : n.steps = 0) : n.Imitates m where
  halts limit final run := by
    obtain ⟨k, less, reaches, halted⟩ := reaches_of_runFor run
    obtain ⟨j, fewer, final', others, alike⟩ := Keeps.halts keeps start reaches halted
    exact ⟨final', others.run_halted fresh' alike.halted' (by omega), alike⟩
  traps limit final address cause run full early := by
    obtain ⟨k, less, before, reaches, step⟩ := trap_of_runFor run early
    obtain ⟨j, fewer, before', after', address', others, failed, same⟩ :=
      Keeps.traps keeps start reaches step full
    exact ⟨after', address', others.run_trap fresh' failed (by omega), same⟩
  endless := Keeps.endless keeps start

end Triangle.Machine
