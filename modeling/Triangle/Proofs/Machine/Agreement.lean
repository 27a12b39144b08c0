import Mathlib
import Triangle.Proofs.Machine.View

/-! Two machines whose stacks hold the same words. What a part of an instruction does depends neither
on the words above the top of the stack nor on the registers that control the machine. -/
namespace Triangle

/-! ## Stores that agree -/

namespace Store

theorem read_write_congr {s s' : Store} {k : Nat} (same : s'.read k = s.read k) (a : Int) (w : Word) :
    (s'.write a w).read k = (s.write a w).read k := by
  by_cases low : 0 ≤ a
  · simp only [write, low, ↓reduceIte, read, Int.natCast_nonneg, Int.toNat_natCast] at same ⊢
    by_cases here : a.toNat = k
    · subst here
      by_cases inside : a.toNat < dataSize
      · simp [inside]
      · simp [inside]
    · simpa [here] using same
  · simpa [write, low] using same

theorem read_writeBlock_congr {s s' : Store} {k : Nat} (same : s'.read k = s.read k) (ws : List Word)
    (a : Int) : (s'.writeBlock a ws).read k = (s.writeBlock a ws).read k := by
  induction ws generalizing s s' a with
  | nil => exact same
  | cons w ws ih => exact ih (read_write_congr same a w) (a + 1)

end Store

namespace Machine

/-- The registers that say where a machine is in its code. -/
structure Control where
  code : Array Instruction
  cp : Int
  lb : Int
  halted : Bool
  steps : Nat

def control (m : Machine) : Control := ⟨m.code, m.cp, m.lb, m.halted, m.steps⟩

/-- The stack lies inside the data store. -/
def Inside (m : Machine) : Prop := 0 ≤ m.st ∧ m.st ≤ dataSize

instance {m : Machine} : Decidable m.Inside := inferInstanceAs (Decidable (_ ∧ _))

variable {α β : Type} {F : Control → Control → Prop} {m n : Machine}

/-- The machines have the same words on their stacks, the same input and the same output, and where
they are in their code is related by `F`. -/
structure Agree (F : Control → Control → Prop) (m n : Machine) : Prop where
  control : F m.control n.control
  st : n.st = m.st
  input : n.input = m.input
  output : n.output = m.output
  data : ∀ k : Nat, (k : Int) < m.st → n.data.read k = m.data.read k

/-- Machines that agree, and whose stacks lie inside the data store. -/
structure Matched (F : Control → Control → Prop) (m n : Machine) : Prop extends Agree F m n where
  inside : m.Inside

/-- The first of two parts of instructions succeeds where the second does, with the same result, and
fails where it does; the machines then still match. -/
def Pairs (F : Control → Control → Prop) (x y : Exec α) (m n : Machine)
    (after : α → Machine → Machine → Prop) : Prop :=
  (∃ a m' n', x m = .ok a m' ∧ y n = .ok a n' ∧ after a m' n') ∨
    ∃ cause m' n', x m = .error cause m' ∧ y n = .error cause n' ∧ Matched F m' n'

namespace Pairs

theorem bind {x y : Exec α} {f g : α → Exec β} {middle : α → Machine → Machine → Prop}
    {after : β → Machine → Machine → Prop} (first : Pairs F x y m n middle)
    (second : ∀ c m' n', middle c m' n' → Pairs F (f c) (g c) m' n' after) :
    Pairs F (x >>= f) (y >>= g) m n after := by
  rcases first with ⟨c, m', n', left, right, holds⟩ | ⟨cause, m', n', left, right, same⟩
  · rcases second c m' n' holds with ⟨d, m'', n'', left', right', holds'⟩ |
      ⟨cause, m'', n'', left', right', same⟩
    · exact .inl ⟨d, m'', n'', (Result.bind_ok left).trans left', (Result.bind_ok right).trans right',
        holds'⟩
    · exact .inr ⟨cause, m'', n'', (Result.bind_ok left).trans left',
        (Result.bind_ok right).trans right', same⟩
  · exact .inr ⟨cause, m', n', Result.bind_error left, Result.bind_error right, same⟩

theorem pure {c : α} {after : α → Machine → Machine → Prop} (holds : after c m n) :
    Pairs F (pure c) (pure c) m n after :=
  .inl ⟨c, m, n, rfl, rfl, holds⟩

theorem throw {after : α → Machine → Machine → Prop} {cause : Cause} (matched : Matched F m n) :
    Pairs F (throw cause) (throw cause) m n after :=
  .inr ⟨cause, m, n, rfl, rfl, matched⟩

theorem get {f g : Machine → Exec α} {after : α → Machine → Machine → Prop}
    (next : Pairs F (f m) (g n) m n after) : Pairs F (get >>= f) (get >>= g) m n after := next

/-- Both machines are put into a state of their own. -/
theorem set {m' n' : Machine} {after : Machine → Machine → Prop} (holds : after m' n') :
    Pairs F (set m') (set n') m n fun _ => after :=
  .inl ⟨⟨⟩, m', n', rfl, rfl, holds⟩

theorem modify {f g : Machine → Machine} {after : Machine → Machine → Prop}
    (holds : after (f m) (g n)) : Pairs F (modify f) (modify g) m n fun _ => after :=
  .inl ⟨⟨⟩, f m, g n, rfl, rfl, holds⟩

theorem asking {question question' : Machine → Except Cause α} (matched : Matched F m n)
    (same : question' n = question m) :
    Pairs F (asking question) (asking question') m n
      fun c m' n' => question m = .ok c ∧ Matched F m' n' := by
  refine get ?_
  rw [same]
  cases question m with
  | ok c => exact pure ⟨rfl, matched⟩
  | error cause => exact throw matched

end Pairs

/-! ## The stack -/

/-- The stack becomes lower. -/
theorem Matched.lower (matched : Matched F m n) {h : Int} (natural : 0 ≤ h) (less : h ≤ m.st) :
    Matched F { m with st := h } { n with st := h } :=
  { matched with
    st := rfl
    inside := ⟨natural, less.trans matched.inside.2⟩
    data := fun j below => matched.data j (lt_of_lt_of_le below less) }

/-- Words go on the stack. -/
theorem Matched.higher (matched : Matched F m n) {ws : List Word} {h : Int}
    (height : h = m.st + ws.length) (room : h ≤ dataSize) :
    Matched F { m with data := m.data.writeBlock m.st ws, st := h }
      { n with data := n.data.writeBlock m.st ws, st := h } := by
  obtain ⟨base, same⟩ := Int.eq_ofNat_of_zero_le matched.inside.1
  refine { matched with
    st := rfl
    inside := ⟨by dsimp only; omega, room⟩
    data := fun k below => ?_ }
  dsimp only at below ⊢
  rcases Nat.lt_or_ge k base with old | new
  · exact Store.read_writeBlock_congr (matched.data k (by omega)) ws m.st
  · have fits : base + ws.length ≤ dataSize := by omega
    have here : k - base < ws.length := by omega
    rw [same, Store.read_writeBlock _ ws base k fits, Store.read_writeBlock _ ws base k fits]
    simp [new, here]

theorem Matched.readBlock (matched : Matched F m n) {address : Int} {count : Nat}
    (low : 0 ≤ address) (below : address + count ≤ m.st) :
    n.data.readBlock address count = m.data.readBlock address count := by
  obtain ⟨base, rfl⟩ := Int.eq_ofNat_of_zero_le low
  apply List.map_congr_left
  intro k member
  have inside : k < count := List.mem_range.mp member
  exact_mod_cast matched.data (base + k) (by omega)

theorem Matched.block (matched : Matched F m n) (address : Int) {count : Int}
    (natural : 0 ≤ count) : n.block address count = m.block address count := by
  simp only [Machine.block, matched.st]
  split
  · rfl
  · rw [matched.readBlock (by omega) (by omega)]

theorem pairs_push (matched : Matched F m n) (ws : List Word) :
    Pairs F (push ws) (push ws) m n fun _ => Matched F := by
  refine .get ?_
  rw [matched.st]
  split
  · exact .throw matched
  · exact .set (matched.higher rfl (by omega))

theorem pairs_pop (matched : Matched F m n) :
    Pairs F pop pop m n fun _ => Matched F := by
  refine .get ?_
  have top : n.data.read (m.st - 1) = m.data.read (m.st - 1) ∨ m.st ≤ 0 := by
    by_cases empty : m.st ≤ 0
    · exact .inr empty
    · obtain ⟨h, height⟩ := Int.eq_ofNat_of_zero_le (show 0 ≤ m.st - 1 by omega)
      rw [height]
      exact .inl (matched.data h (by omega))
  rw [matched.st]
  split
  · exact .throw matched
  · rename_i some
    rw [top.resolve_right some]
    exact .bind (.set (matched.lower (by omega) (by omega))) fun _ _ _ later => .pure later

theorem pairs_popN (matched : Matched F m n) {k : Int} (natural : 0 ≤ k) :
    Pairs F (popN k) (popN k) m n fun _ => Matched F := by
  refine .get ?_
  rw [matched.st]
  split
  · exact .throw matched
  · rw [matched.readBlock (by omega) (by omega)]
    exact .bind (.set (matched.lower (by omega) (by omega))) fun _ _ _ later => .pure later

theorem pairs_popPair (matched : Matched F m n) :
    Pairs F popPair popPair m n fun _ => Matched F := by
  refine .get ?_
  rw [matched.st]
  split
  · exact .throw matched
  · rename_i two
    obtain ⟨h, height⟩ := Int.eq_ofNat_of_zero_le (show 0 ≤ m.st - 2 by omega)
    have first := matched.data h (by omega)
    have second := matched.data (h + 1) (by push_cast; omega)
    have next : m.st - 1 = ((h + 1 : Nat) : Int) := by push_cast; omega
    rw [height, next, first, second]
    exact .bind (.set (matched.lower (by omega) (by omega))) fun _ _ _ later => .pure later

theorem pairs_storeBlock (matched : Matched F m n) (address : Int) (ws : List Word) :
    Pairs F (storeBlock address ws) (storeBlock address ws) m n fun _ => Matched F := by
  refine .get ?_
  rw [matched.st]
  split
  · exact .throw matched
  · exact .set { matched with
      st := rfl
      data := fun k below => Store.read_writeBlock_congr (matched.data k below) ws address }

theorem pairs_reserve (matched : Matched F m n) (d : Int) :
    Pairs F (reserve d) (reserve d) m n fun _ => Matched F := by
  refine .get ?_
  rw [matched.st]
  split
  · exact .throw matched
  · split
    · exact .throw matched
    · exact .set (matched.higher (by simp; omega) (by omega))

theorem pairs_discard (matched : Matched F m n) {k : Int} (natural : 0 ≤ k) (d : Int) :
    Pairs F (discard k d) (discard k d) m n fun _ => Matched F := by
  refine .bind (pairs_popN matched natural) fun result m' n' matched => .get ?_
  rw [matched.st]
  split
  · exact .throw matched
  · exact .bind (.set (matched.lower (by omega) (by omega)))
      fun _ _ _ later => pairs_push later result

/-! ## Input and output -/

theorem pairs_emit (matched : Matched F m n) (bytes : List UInt8) :
    Pairs F (emit bytes) (emit bytes) m n fun _ => Matched F :=
  .modify { matched with output := by simp [matched.output] }

theorem pairs_reading (matched : Matched F m n)
    (reader : List UInt8 → Except InputFault α × List UInt8) :
    Pairs F (reading reader) (reading reader) m n fun _ => Matched F := by
  refine .get ?_
  rw [matched.input]
  cases reader m.input with
  | mk result rest =>
    have read : Matched F { m with input := rest } { n with input := rest } :=
      { matched with input := rfl }
    cases result with
    | ok c => exact .bind (.set read) fun _ _ _ later => .pure later
    | error fault => exact .bind (.set read) fun _ _ _ => .throw

/-! ## Primitives -/

theorem pairs_pushResult (matched : Matched F m n) (cause : Cause) (result : Option Word) :
    Pairs F (pushResult cause result) (pushResult cause result) m n fun _ => Matched F := by
  cases result with
  | some w => exact pairs_push matched [w]
  | none => exact .throw matched

theorem pairs_comparison (matched : Matched F m n) (test : Word → Word → Bool) :
    Pairs F (comparison test) (comparison test) m n fun _ => Matched F :=
  .bind (pairs_popPair matched) fun _ _ _ later => pairs_push later _

theorem pairs_arithmetic (matched : Matched F m n) (op : Word → Word → Option Word) :
    Pairs F (arithmetic op) (arithmetic op) m n fun _ => Matched F :=
  .bind (pairs_popPair matched) fun _ _ _ later => pairs_pushResult later _ _

theorem pairs_stepping (matched : Matched F m n) (op : Word → Option Word) :
    Pairs F (stepping op) (stepping op) m n fun _ => Matched F :=
  .bind (pairs_pop matched) fun _ _ _ later => pairs_pushResult later _ _

theorem pairs_division (matched : Matched F m n) (part : Word × Word → Word) :
    Pairs F (division part) (division part) m n fun _ => Matched F := by
  refine .bind (pairs_popPair matched) fun pair m' n' later => ?_
  dsimp only
  split
  · exact .throw later
  · exact pairs_pushResult later _ _

theorem pairs_equality (matched : Matched F m n) (expected : Bool) :
    Pairs F (equality expected) (equality expected) m n fun _ => Matched F := by
  refine .bind (pairs_pop matched) fun size m' n' later => ?_
  split
  · exact .throw later
  · exact .bind (pairs_popN later (by omega)) fun _ _ _ later =>
      .bind (pairs_popN later (by omega)) fun _ _ _ later => pairs_push later _

theorem pairs_primitive (matched : Matched F m n) (p : Primitive) :
    Pairs F (primitive p) (primitive p) m n fun _ => Matched F := by
  cases p <;> unfold primitive
  case id => exact .pure matched
  case not => exact .bind (pairs_pop matched) fun _ _ _ later => pairs_push later _
  case and | or | lt | le | ge | gt => exact pairs_comparison matched _
  case succ | pred | neg => exact pairs_stepping matched _
  case add | sub | mult => exact pairs_arithmetic matched _
  case div | mod => exact pairs_division matched _
  case eq | ne => exact pairs_equality matched _
  case eol | eof =>
    refine .get ?_
    rw [matched.input]
    exact pairs_push matched _
  case get | getint =>
    exact .bind (pairs_pop matched) fun _ _ _ later =>
      .bind (pairs_reading later _) fun _ _ _ later => pairs_storeBlock later _ _
  case put | putint => exact .bind (pairs_pop matched) fun _ _ _ later => pairs_emit later _
  case geteol => exact pairs_reading matched _
  case puteol => exact pairs_emit matched _

/-! ## Registers -/

theorem Matched.load (matched : Matched F m n) (address : Int) :
    n.load address = m.load address := by
  simp only [Machine.load, matched.st]
  split
  · rfl
  · obtain ⟨k, rfl⟩ := Int.eq_ofNat_of_zero_le (show 0 ≤ address by omega)
    exact congrArg Except.ok (matched.data k (by omega))

theorem Matched.follow (matched : Matched F m n) (links : Nat) (address : Int) :
    n.follow links address = m.follow links address := by
  induction links generalizing address with
  | zero => rfl
  | succ links ih => simp only [Machine.follow, matched.load, ih]

/-! ## Instructions -/

variable {i : Instruction}

/-- Instructions that use an address at most, and after which the next one comes. -/
theorem pairs_straight {G : Control → Control → Prop} (matched : Matched F m n) (natural : 0 ≤ i.n)
    (straight : i.op ∈ [Op.load, .loadA, .loadI, .loadL, .store, .storeI, .push, .pop])
    (address : i.op ∈ [Op.load, .loadA, .store] → n.address i = m.address i)
    (next : ∀ m n, Matched F m n → Pairs F next next m n fun _ => Matched G) :
    Pairs F (exec i) (exec i) m n fun _ => Matched G := by
  have asked (named : i.op ∈ [Op.load, .loadA, .store]) :
      Pairs F (asking (·.address i)) (asking (·.address i)) m n fun c m' n' =>
        m.address i = .ok c ∧ Matched F m' n' := .asking matched (address named)
  cases op : i.op <;> simp only [op, List.mem_cons, reduceCtorEq, List.not_mem_nil, or_self, or_false,
    or_true, true_imp_iff] at straight asked <;> simp only [exec, op]
  case load =>
    refine asked.bind fun place m n asked => ?_
    refine .bind (.asking asked.2 (asked.2.block place natural)) fun ws m n read => ?_
    exact .bind (pairs_push read.2 ws) fun _ => next
  case loadA => exact asked.bind fun _ _ _ asked => .bind (pairs_push asked.2 _) fun _ => next
  case loadI =>
    refine .bind (pairs_pop matched) fun place m n later => ?_
    refine .bind (.asking later (later.block place.toInt natural)) fun ws m n read => ?_
    exact .bind (pairs_push read.2 ws) fun _ => next
  case loadL => exact .bind (pairs_push matched _) fun _ => next
  case store =>
    refine asked.bind fun place m n asked => ?_
    refine .bind (pairs_popN asked.2 natural) fun ws m n later => ?_
    exact .bind (pairs_storeBlock later place ws) fun _ => next
  case storeI =>
    refine .bind (pairs_pop matched) fun place m n later => ?_
    refine .bind (pairs_popN later natural) fun ws m n later => ?_
    exact .bind (pairs_storeBlock later _ ws) fun _ => next
  case push => exact .bind (pairs_reserve matched _) fun _ => next
  case pop => exact .bind (pairs_discard matched natural _) fun _ => next

/-! ## Machines at the same place -/

/-- Both machines are at the same place of the same code. -/
def Same (code : Array Instruction) (c d : Control) : Prop := c = d ∧ c.code = code

variable {code : Array Instruction}

theorem Agree.same (agree : Agree (Same code) m n) :
    n.code = m.code ∧ n.cp = m.cp ∧ n.lb = m.lb ∧ n.halted = m.halted ∧ n.steps = m.steps := by
  have same := agree.control.1.symm
  simpa only [Machine.control, Control.mk.injEq] using same

/-- Both machines go to another place. -/
theorem Matched.moved (matched : Matched (Same code) m n) {cp cp' lb lb' : Int} (place : cp' = cp)
    (base : lb' = lb) : Matched (Same code) { m with cp, lb } { n with cp := cp', lb := lb' } := by
  obtain ⟨same, -, -, halted, steps⟩ := matched.same
  exact { matched with
    control := ⟨by simp [Machine.control, same, place, base, halted, steps], matched.control.2⟩ }

theorem Matched.reg (matched : Matched (Same code) m n) (r : Reg) : n.reg r = m.reg r := by
  obtain ⟨same, cp, lb, -⟩ := matched.same
  simp only [Machine.reg, same, cp, lb, matched.st, matched.follow]

theorem Matched.address (matched : Matched (Same code) m n) (i : Instruction) :
    n.address i = m.address i := by
  simp only [Machine.address, matched.reg]

theorem pairs_goTo (matched : Matched (Same code) m n) (address : Int) :
    Pairs (Same code) (goTo address) (goTo address) m n fun _ => Matched (Same code) :=
  .modify (matched.moved rfl matched.same.2.2.1)

theorem pairs_next (m n : Machine) (matched : Matched (Same code) m n) :
    Pairs (Same code) next next m n fun _ => Matched (Same code) := by
  obtain ⟨-, cp, lb, -⟩ := matched.same
  exact .modify (matched.moved (by rw [cp]) lb)

theorem pairs_enter (matched : Matched (Same code) m n) (target link : Int) :
    Pairs (Same code) (enter target link) (enter target link) m n fun _ => Matched (Same code) := by
  unfold enter
  split
  · split
    · exact .throw matched
    · exact .bind (pairs_primitive matched _) fun _ => pairs_next
  · obtain ⟨same, cp, lb, -⟩ := matched.same
    refine .get ?_
    rw [same, cp, lb, matched.st]
    split
    · exact .throw matched
    · exact .bind (pairs_push matched _) fun _ _ _ later => .modify (later.moved rfl rfl)

/-- All instructions but a return. -/
theorem pairs_exec (matched : Matched (Same code) m n) (natural : 0 ≤ i.n) (other : i.op ≠ .ret) :
    Pairs (Same code) (exec i) (exec i) m n fun _ => Matched (Same code) := by
  have straight (inside : i.op ∈ [Op.load, .loadA, .loadI, .loadL, .store, .storeI, .push, .pop]) :=
    pairs_straight matched natural inside (fun _ => matched.address i) pairs_next
  have asked : Pairs (Same code) (asking (·.address i)) (asking (·.address i)) m n fun c m' n' =>
      m.address i = .ok c ∧ Matched (Same code) m' n' := .asking matched (matched.address i)
  cases op : i.op
  case load | loadA | loadI | loadL | store | storeI | push | pop => exact straight (by simp [op])
  case ret => exact absurd op other
  all_goals simp only [exec, op]
  case call =>
    refine asked.bind fun target m n asked => ?_
    exact .bind (.asking asked.2 (asked.2.reg _)) fun link _ _ linked => pairs_enter linked.2 _ _
  case callI =>
    refine .bind (pairs_pop matched) fun target m n later => ?_
    exact .bind (pairs_pop later) fun link _ _ later => pairs_enter later _ _
  case jump => exact asked.bind fun _ _ _ asked => pairs_goTo asked.2 _
  case jumpI => exact .bind (pairs_pop matched) fun _ _ _ later => pairs_goTo later _
  case jumpIf =>
    refine .bind (pairs_pop matched) fun w m n later => ?_
    split
    · exact .bind (.asking later (later.address i)) fun _ _ _ asked => pairs_goTo asked.2 _
    · exact pairs_next m n later
  case halt =>
    obtain ⟨same, cp, lb, -, steps⟩ := matched.same
    exact .modify { matched with
      control := ⟨by simp [Machine.control, same, cp, lb, steps], matched.control.2⟩ }
  case undefined => exact .throw matched

end Machine
end Triangle
