import Mathlib
import Triangle.Proofs.Machine.Agreement
import Triangle.Proofs.Placement

/-! The stack pointer. Every part of an instruction leaves it inside the data store, also where the
part fails, except for a return: it moves the stack pointer before it knows that the frame it goes
back to is inside. -/
namespace Triangle.Machine

variable {α : Type} {m : Machine}

/-- What a part of an instruction leaves behind, whether it succeeds or fails. -/
def left : EStateM.Result Cause Machine α → Machine
  | .ok _ m => m
  | .error _ m => m

/-- An instruction other than a return does beside itself what it does, with the stack inside. -/
theorem exec_stays {i : Instruction} (natural : 0 ≤ i.n) (other : i.op ≠ .ret) (inside : m.Inside) :
    (left (exec i m)).code = m.code ∧ (left (exec i m)).Inside := by
  have matched : Matched (Same m.code) m m := ⟨⟨⟨rfl, rfl⟩, rfl, rfl, rfl, fun _ _ => rfl⟩, inside⟩
  rcases pairs_exec matched natural other with
    ⟨_, m', _, done, -, after⟩ | ⟨_, m', _, done, -, after⟩ <;>
  · rw [done]
    exact ⟨after.control.2, after.inside⟩

/-! ## Returns -/

/-- There is a frame at the local base, below `n` words of result. -/
def Framed (m : Machine) (n : Int) : Prop := 0 ≤ m.lb ∧ m.lb + 3 + n ≤ m.st

/-- A return over `d` words puts the stack pointer inside the data store. -/
def EndsInside (m : Machine) (d : Int) : Prop :=
  0 ≤ wrap64 (m.lb - d) ∧ wrap64 (m.lb - d) ≤ dataSize

instance {n : Int} : Decidable (m.Framed n) := inferInstanceAs (Decidable (_ ∧ _))

instance {d : Int} : Decidable (m.EndsInside d) := inferInstanceAs (Decidable (_ ∧ _))

/-- Without a frame a return only takes its result from the stack. -/
theorem leave_unframed {n : Int} (d : Int) (unframed : ¬m.Framed n) :
    ∃ cause m', leave n d m = .error cause m' ∧ m'.code = m.code ∧
      (m'.st = m.st ∨ n ≤ m.st ∧ m'.st = m.st - n) := by
  by_cases few : m.st < n
  · refine ⟨.dataAccess, m, ?_, rfl, .inl rfl⟩
    simp [leave, popN, few]
  · have missing : m.lb < 0 ∨ m.st - n < m.lb + 3 := by
      unfold Framed at unframed
      omega
    refine ⟨.dataAccess, { m with st := m.st - n }, ?_, rfl, .inr ⟨Int.not_lt.mp few, rfl⟩⟩
    simp [leave, popN, few, asking, block, missing]

theorem push_st (ws : List Word) (m : Machine) :
    (∃ cause, push ws m = .error cause m) ∨
      ∃ m', push ws m = .ok () m' ∧ m'.code = m.code ∧ m.st ≤ m'.st ∧ m'.st ≤ dataSize := by
  have same : push ws m = (if (dataSize : Int) < m.st + ws.length then throw .stackOverflow
      else set { m with data := m.data.writeBlock m.st ws, st := m.st + ws.length } : Exec Unit) m :=
    rfl
  rw [same]
  split
  · exact .inl ⟨_, rfl⟩
  · refine .inr ⟨_, rfl, rfl, ?_⟩
    dsimp only
    omega

/-- With a frame that ends below the data store a return fails, and the stack pointer stays there. -/
theorem leave_below {n d : Int} (framed : m.Framed n) (below : wrap64 (m.lb - d) < 0) :
    leave n d m = .error .dataAccess { m with st := wrap64 (m.lb - d) } := by
  have few : ¬m.st < n := by
    unfold Framed at framed
    omega
  have frame : ¬(m.lb < 0 ∨ m.st - n < m.lb + 3) := by
    unfold Framed at framed
    omega
  simp [leave, popN, few, asking, block, frame, below]

/-- With a frame the stack pointer moves, and stays where it is if the return then fails. -/
theorem leave_framed {n : Int} (d : Int) (framed : m.Framed n) :
    (left (leave n d m)).code = m.code ∧ ((left (leave n d m)).st = wrap64 (m.lb - d) ∨
      m.EndsInside d ∧ (left (leave n d m)).Inside) := by
  have few : ¬m.st < n := by
    unfold Framed at framed
    omega
  have frame : ¬(m.lb < 0 ∨ m.st - n < m.lb + 3) := by
    unfold Framed at framed
    omega
  by_cases negative : wrap64 (m.lb - d) < 0
  · rw [leave_below framed negative]
    exact ⟨rfl, .inl rfl⟩
  -- the frame is gone by now, and the result is put in its place
  obtain ⟨result, base, target, same⟩ : ∃ result base target, leave n d m =
      (push result >>= fun _ => goTo target) { m with st := wrap64 (m.lb - d), lb := base } := by
    refine ⟨m.data.readBlock (m.st - n) n.toNat, ((m.data.readBlock m.lb 3).getD 1 0).toInt,
      ((m.data.readBlock m.lb 3).getD 2 0).toInt, ?_⟩
    simp only [leave, popN, bind_assoc, Result.get_bind, Result.set_bind, pure_bind, few, asking, block,
      frame, negative, ↓reduceIte]
    rfl
  rw [same]
  obtain ⟨cause, fails⟩ | ⟨m', done, code, above, below⟩ := push_st result
    { m with st := wrap64 (m.lb - d), lb := base }
  · rw [Result.bind_error fails]
    exact ⟨rfl, .inl rfl⟩
  · rw [Result.bind_ok done]
    have first := Int.not_lt.mp negative
    exact ⟨code, .inr ⟨⟨first, above.trans below⟩, first.trans above, below⟩⟩

/-- A return leaves the data store where there is a frame that ends outside, and only there. -/
theorem leave_inside_iff {n : Int} (d : Int) (natural : 0 ≤ n) (inside : m.Inside) :
    (left (leave n d m)).code = m.code ∧
      ((left (leave n d m)).Inside ↔ (m.Framed n → m.EndsInside d)) := by
  by_cases framed : m.Framed n
  · obtain ⟨code, st | ⟨ends, stays⟩⟩ := leave_framed d framed
    · refine ⟨code, ?_⟩
      simp only [Inside, st, EndsInside, framed, true_imp_iff]
    · exact ⟨code, fun _ _ => ends, fun _ => stays⟩
  · obtain ⟨cause, m', fails, code, st⟩ := leave_unframed d framed
    rw [fails]
    refine ⟨code, fun _ has => absurd has framed, fun _ => ?_⟩
    change 0 ≤ m'.st ∧ m'.st ≤ dataSize
    unfold Inside at inside
    omega

/-! ## Steps -/

/-- The next instruction is a return whose frame ends outside the data store. -/
def Spills (m : Machine) : Prop :=
  m.halted = false ∧ 0 ≤ m.cp ∧
    ∃ i ∈ m.code[m.cp.toNat]?, i.op = .ret ∧ m.Framed i.n ∧ ¬m.EndsInside i.d

instance : Decidable m.Spills := inferInstanceAs (Decidable (_ ∧ _ ∧ ∃ i ∈ _, _))

/-- A machine that takes `k` steps one after the other, whether they succeed or fail. -/
def stepped (m : Machine) : (k : Nat) → Machine
  | 0 => m
  | k + 1 => (m.stepped k).step.1

theorem exec_inside_iff {i : Instruction} (natural : 0 ≤ i.n) (inside : m.Inside) :
    (left (exec i m)).code = m.code ∧
      ((left (exec i m)).Inside ↔ (i.op = .ret → m.Framed i.n → m.EndsInside i.d)) := by
  by_cases returns : i.op = .ret
  · have same : exec i = leave i.n i.d := by rw [exec, returns]
    rw [same]
    simpa only [returns, true_imp_iff] using leave_inside_iff i.d natural inside
  · have stays := exec_stays natural returns inside
    exact ⟨stays.1, fun _ has => absurd has returns, fun _ => stays.2⟩

theorem step_inside_iff (valid : ∀ i ∈ m.code, i.validate = .ok ()) (inside : m.Inside) :
    m.step.1.code = m.code ∧ (m.step.1.Inside ↔ ¬m.Spills) := by
  unfold step Spills
  split
  · rename_i halted
    simp [halted, inside]
  split
  · rename_i negative
    simp [Int.not_le.mpr negative, inside]
  rename_i running natural
  cases here : m.code[m.cp.toNat]? with
  | none => simp [inside]
  | some i =>
    obtain ⟨-, -, ⟨least, -⟩, -⟩ := Instruction.validate_iff.mp (valid i (Array.mem_of_getElem? here))
    have kept := exec_inside_iff least inside
    have known : (left (exec i m)).Inside ↔ ¬(m.halted = false ∧ 0 ≤ m.cp ∧
        ∃ j ∈ some i, j.op = .ret ∧ m.Framed j.n ∧ ¬m.EndsInside j.d) := by
      simpa [running, Int.not_lt.mp natural] using kept.2
    cases done : exec i m with
    | ok result after | error result after =>
      rw [done] at kept known
      simp only [done]
      exact ⟨kept.1, known⟩

theorem stepped_code {k : Nat} (valid : ∀ i ∈ m.code, i.validate = .ok ())
    (inside : ∀ j < k, (m.stepped j).Inside) : (m.stepped k).code = m.code := by
  induction k with
  | zero => rfl
  | succ k ih =>
    have same := ih fun j less => inside j (Nat.lt_succ_of_lt less)
    rw [← same] at valid ⊢
    exact (step_inside_iff valid (inside k (Nat.lt_succ_self k))).1

theorem stepped_inside_iff (k : Nat) (valid : ∀ i ∈ m.code, i.validate = .ok ())
    (inside : m.Inside) :
    (∀ j ≤ k, (m.stepped j).Inside) ↔ ∀ j < k, ¬(m.stepped j).Spills := by
  induction k with
  | zero => simpa [stepped] using inside
  | succ k ih =>
    rw [Nat.forall_lt_succ_right, ← ih]
    have step (stays : ∀ j ≤ k, (m.stepped j).Inside) := step_inside_iff (m := m.stepped k)
      (by rwa [stepped_code valid fun j less => stays j (Nat.le_of_lt less)]) (stays k (Nat.le_refl k))
    constructor
    · intro stays
      have before := fun j (less : j ≤ k) => stays j (Nat.le_succ_of_le less)
      exact ⟨before, (step before).2.mp (stays (k + 1) (Nat.le_refl _))⟩
    · rintro ⟨stays, fits⟩ j less
      rcases Nat.le_or_eq_of_le_succ less with before | rfl
      · exact stays j before
      · exact (step stays).2.mpr fits

/-- What a machine reads lies below its stack pointer. -/
theorem Inside.block {address n : Int} (inside : m.Inside) (read : m.block address n = .ok ws) :
    0 ≤ address ∧ address + n ≤ dataSize := by
  unfold Machine.block at read
  split at read
  · cases read
  · unfold Inside at inside
    omega

/-- The stack lies inside the data store after any number of steps, failed ones included, and so
does what can be read there, as long as no return finds a frame that ends outside. -/
theorem stack_inside_iff_no_spill {code : List Instruction} (input : List UInt8) (k : Nat)
    (valid : ∀ i ∈ code, i.validate = .ok ()) :
    ((∀ j ≤ k, ((start code input).stepped j).Inside) ↔
        ∀ j < k, ¬((start code input).stepped j).Spills) ∧
      ((∀ j < k, ¬((start code input).stepped j).Spills) →
        ∀ address n ws, ((start code input).stepped k).block address n = .ok ws →
          0 ≤ address ∧ address + n ≤ dataSize) := by
  have initial : (start code input).Inside := by constructor <;> simp [start]
  have same := stepped_inside_iff k (by simpa [start] using valid) initial
  exact ⟨same, fun fits _ _ _ => (same.mpr fits k (Nat.le_refl k)).block⟩

/-- A routine that returns to itself: its second return finds no frame and fails again and again. -/
theorem stack_inside_after_failures :
    ((start [⟨.call, .CB, 4, 1⟩, ⟨.ret, .CB, 0, 0⟩] []).stepped 3).step.2 =
        some ⟨1, .dataAccess⟩ ∧
      ∀ j ≤ 4, ((start [⟨.call, .CB, 4, 1⟩, ⟨.ret, .CB, 0, 0⟩] []).stepped j).Inside :=
  ⟨by decide +kernel, (stack_inside_iff_no_spill [] 4 (by decide)).1.mpr (by decide +kernel)⟩

/-- A return over more words than there are leaves the stack pointer below the store. -/
theorem return_leaves_store :
    (∀ i ∈ [⟨.call, .CB, 4, 1⟩, ⟨.ret, .CB, 0, 5⟩], Instruction.validate i = .ok ()) ∧
      ((start [⟨.call, .CB, 4, 1⟩, ⟨.ret, .CB, 0, 5⟩] []).stepped 2).st = -5 :=
  ⟨by decide, by decide⟩

end Triangle.Machine
