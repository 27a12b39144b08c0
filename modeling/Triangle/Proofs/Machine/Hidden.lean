import Mathlib
import Triangle.Proofs.Layout.Types
import Triangle.Proofs.Machine.StackPointer

/-! Words above the top of the stack do not show. Two machines that differ in nothing else do the same
at every step and still differ in nothing else, as long as returns do not raise the stack. A return may
leave the stack pointer below the data store; from then on the machine fails at that return. -/
namespace Triangle.Machine

variable {m n : Machine}

variable {code : Array Instruction}

/-- A return whose frame does not end below the data store. The words of the result are back on the
stack before anything could be read there. -/
theorem pairs_leave (matched : Matched (Same code) m n) {k d : Int} (natural : 0 ≤ k) (low : 0 ≤ d)
    (high : d < 0x8000) (fits : m.Framed k → 0 ≤ wrap64 (m.lb - d)) :
    Pairs (Same code) (leave k d) (leave k d) m n fun _ => Matched (Same code) := by
  have popped : Pairs (Same code) (popN k) (popN k) m n fun _ m' n' =>
      Matched (Same code) m' n' ∧ m'.lb = m.lb ∧ m'.st = m.st - k := by
    refine .get ?_
    rw [matched.st]
    split
    · exact .throw matched
    · rw [matched.readBlock (by omega) (by omega)]
      refine .inl ⟨_, _, _, rfl, rfl, matched.lower (by omega) (by omega), rfl, rfl⟩
  refine popped.bind fun result m' n' ⟨matched, base, height⟩ => .get ?_
  have lb := matched.same.2.2.1
  have same : n'.block n'.lb 3 = m'.block m'.lb 3 := by rw [lb, matched.block m'.lb (by decide)]
  refine .bind (.asking matched same) fun frame _ _ asked => ?_
  have framed : 0 ≤ m'.lb ∧ m'.lb + 3 ≤ m'.st := by
    have read := asked.1
    unfold Machine.block at read
    split at read
    · cases read
    · omega
  have above := fits ⟨by omega, by omega⟩
  have bounded : m'.st ≤ 1024 := matched.inside.2
  have ends : wrap64 (m.lb - d) = m.lb - d := wrap64_eq (by omega) (by omega)
  have ends' : wrap64 (m'.lb - d) = wrap64 (m.lb - d) := by rw [base]
  have ends'' : wrap64 (n'.lb - d) = wrap64 (m.lb - d) := by rw [lb, base]
  dsimp only
  rw [ends', ends'', if_neg (Int.not_lt.mpr above)]
  refine .bind (.set (matched.lower above (by omega))) fun _ _ _ lower => ?_
  refine .bind (.modify (lower.moved lower.same.2.1 rfl)) fun _ _ _ based => ?_
  exact .bind (pairs_push based result) fun _ _ _ later => pairs_goTo later _

/-! ## Steps -/

/-- The next instruction is a return with more words of result than there are on the stack. -/
def Jammed (m : Machine) : Prop :=
  m.halted = false ∧ 0 ≤ m.cp ∧ ∃ i ∈ m.code[m.cp.toNat]?, i.op = .ret ∧ m.st < i.n

theorem Jammed.step (jammed : m.Jammed) : m.step = (m, some ⟨m.cp, .dataAccess⟩) := by
  obtain ⟨running, natural, i, here, returns, few⟩ := jammed
  have fails : exec i m = .error .dataAccess m := by
    simp [exec, returns, leave, popN, few]
  simp [Machine.step, running, Int.not_lt.mpr natural, Option.mem_def.mp here, fails]

/-- Machines that agree, and that have the stack inside the data store or fail at every step. -/
structure Twins (code : Array Instruction) (m n : Machine) : Prop where
  agree : Agree (Same code) m n
  goes : m.Inside ∨ m.Jammed

/-- A return that leaves the data store is tried again and again. -/
theorem Agree.spills (agree : Agree (Same code) m n) {i : Instruction} (op : i.op = .ret)
    (natural : 0 ≤ i.n) (running : m.halted = false) (first : 0 ≤ m.cp)
    (here : m.code[m.cp.toNat]? = some i) (framed : m.Framed i.n) (below : wrap64 (m.lb - i.d) < 0) :
    ∃ m' n', exec i m = .error .dataAccess m' ∧ exec i n = .error .dataAccess n' ∧
      Twins code m' n' := by
  have lb := agree.same.2.2.1
  have framed' : n.Framed i.n := by
    unfold Framed
    rw [lb, agree.st]
    exact framed
  refine ⟨{ m with st := wrap64 (m.lb - i.d) }, { n with st := wrap64 (m.lb - i.d) }, ?_, ?_, ?_, ?_⟩
  · rw [exec, op]
    exact leave_below framed below
  · rw [exec, op, ← lb]
    exact leave_below framed' (by rwa [lb])
  · exact { agree with st := rfl, data := fun k less => absurd less (by dsimp only; omega) }
  · exact .inr ⟨running, first, i, here, op, below.trans_le natural⟩

theorem Twins.step (twins : Twins code m n) (valid : ∀ i ∈ code, i.validate = .ok ())
    (returns : ∀ i ∈ code, i.op = .ret → 0 ≤ i.d) :
    m.step.2 = n.step.2 ∧ Twins code m.step.1 n.step.1 := by
  obtain ⟨same, cp, lb, halted, steps⟩ := twins.agree.same
  obtain ⟨agree, inside | jammed⟩ := twins
  · unfold Machine.step
    rw [same, cp, halted]
    split
    · exact ⟨rfl, agree, .inl inside⟩
    split
    · exact ⟨rfl, agree, .inl inside⟩
    rename_i running first
    cases here : m.code[m.cp.toNat]? with
    | none => exact ⟨rfl, agree, .inl inside⟩
    | some i =>
      have member : i ∈ code := agree.control.2 ▸ Array.mem_of_getElem? here
      obtain ⟨-, -, ⟨natural, -⟩, -, high⟩ := Instruction.validate_iff.mp (valid i member)
      dsimp only
      by_cases spills : i.op = .ret ∧ m.Framed i.n ∧ wrap64 (m.lb - i.d) < 0
      · obtain ⟨op, framed, below⟩ := spills
        obtain ⟨m', n', failed, failed', twins⟩ := agree.spills op natural (by simpa using running)
          (Int.not_lt.mp first) here framed below
        rw [failed, failed']
        exact ⟨rfl, twins⟩
      · have pairs : Pairs (Same code) (exec i) (exec i) m n fun _ => Matched (Same code) := by
          by_cases op : i.op = .ret
          · have leaves : exec i = leave i.n i.d := by rw [exec, op]
            rw [leaves]
            exact pairs_leave ⟨agree, inside⟩ natural (returns i member op)
              (Int.lt_add_one_of_le high) fun framed => Int.not_lt.mp fun below => spills ⟨op, framed, below⟩
          · exact pairs_exec ⟨agree, inside⟩ natural op
        rcases pairs with ⟨_, m', n', done, done', matched⟩ | ⟨cause, m', n', failed, failed', matched⟩
        · rw [done, done']
          obtain ⟨same, cp, lb, halted, steps⟩ := matched.same
          have counted : Agree (Same code) { m' with steps := m'.steps + 1 }
              { n' with steps := n'.steps + 1 } := { matched with
            control := ⟨by simp [Machine.control, same, cp, lb, halted, steps], matched.control.2⟩ }
          exact ⟨rfl, counted, .inl matched.inside⟩
        · rw [failed, failed']
          exact ⟨rfl, matched.toAgree, .inl matched.inside⟩
  · have jammed' : n.Jammed := by
      unfold Jammed
      rw [same, cp, halted, agree.st]
      exact jammed
    rw [jammed.step, jammed'.step, cp]
    exact ⟨rfl, agree, .inr jammed⟩

theorem Twins.stepped (twins : Twins code m n) (valid : ∀ i ∈ code, i.validate = .ok ())
    (returns : ∀ i ∈ code, i.op = .ret → 0 ≤ i.d) (k : Nat) :
    Twins code (m.stepped k) (n.stepped k) := by
  induction k with
  | zero => exact twins
  | succ k ih => exact (ih.step valid returns).2

/-- Two machines that differ in words above the top of the stack alone give the same result at every
step, whether steps before it succeeded or failed, and differ in such words alone after it. -/
theorem hidden_words_unobservable (valid : ∀ i ∈ m.code, i.validate = .ok ())
    (returns : ∀ i ∈ m.code, i.op = .ret → 0 ≤ i.d) (inside : m.Inside) (agree : Agree Eq m n)
    (k : Nat) :
    (m.stepped k).step.2 = (n.stepped k).step.2 ∧ Agree Eq (m.stepped k) (n.stepped k) := by
  have start : Agree (Same m.code) m n := { agree with control := ⟨agree.control, rfl⟩ }
  have twins := Twins.stepped ⟨start, .inl inside⟩ valid returns k
  exact ⟨(twins.step valid returns).1, { twins.agree with control := twins.agree.control.1 }⟩

/-- A word left above an empty stack does not show when words are pushed over it and a return fails. -/
theorem leftover_unobservable :
    ∃ m n : Machine, m.data.read 1 ≠ n.data.read 1 ∧
      ∀ k, (m.stepped k).step.2 = (n.stepped k).step.2 := by
  let code : List Instruction := [⟨.push, .CB, 0, 2⟩, ⟨.call, .CB, 4, 2⟩, ⟨.ret, .CB, 0, 5⟩]
  let holding (w : Word) : Machine := { start code [] with data := Store.empty.write 1 w }
  have word (w : Word) : (holding w).data.read 1 = w := by
    simpa [holding] using Store.read_write Store.empty (show 1 < dataSize by decide) w 1
  have agree : Agree Eq (holding 7) (holding 8) :=
    ⟨by simp only [control, holding], rfl, rfl, rfl, fun j below => absurd below (by simp [holding, start])⟩
  refine ⟨_, _, ?_, fun k => (hidden_words_unobservable ?_ ?_ ⟨?_, ?_⟩ agree k).1⟩
  · rw [word, word]
    decide
  · simp only [holding, start, code, List.mem_toArray]
    decide
  · simp [holding, start, code]
  · simp [holding, start]
  · simp [holding, start]

end Triangle.Machine
