import Mathlib
import Triangle.Proofs.Machine.Calls
import Triangle.Proofs.Placement

/-! Calculation on the stack. Code that pushes words and combines those on top does not depend on
what lies below them, nor on where the frames are, and changes none of it. -/
namespace Triangle.Machine

open Result (bind_ok)
open Code

/-- The machine has gone on from `base` to the address `a` with these words on its stack, and apart
from its store has kept the rest. -/
structure Holds (base : Machine) (a : Nat) (stack : List Word) (m : Machine) : Prop where
  code : m.code = base.code
  halted : m.halted = base.halted
  cp : m.cp = a
  lb : m.lb = base.lb
  st : m.st = stack.length
  fits : stack.length ≤ dataSize
  data : m.data.Begins stack
  input : m.input = base.input
  output : m.output = base.output

variable {base m : Machine} {a n : Nat} {below taken : List Word} {x y w : Word} {p : Primitive}
  {r : Except Cause Word}

namespace Holds

theorem push (holds : Holds base a below m) (room : below.length < dataSize) (w : Word) :
    ∃ m', Machine.push [w] m = .ok () m' ∧ Holds base a (below ++ [w]) m' := by
  have free : m.st + [w].length ≤ dataSize := by
    simp only [holds.st, List.length_singleton]
    omega
  refine ⟨_, push_ok free, { holds with
    st := by simp [holds.st]
    fits := by simpa using room
    data := ?_ }⟩
  simpa only [holds.st] using holds.data.push [w] (by simpa using room)

theorem drop {n : Int} (holds : Holds base a (below ++ taken) m) (count : n = taken.length) :
    Holds base a below { m with st := m.st - n } where
  __ := holds
  st := by simp [holds.st, count]
  fits := by
    have fits := holds.fits
    simp only [List.length_append] at fits
    omega
  data := holds.data.initial

theorem pop (holds : Holds base a (below ++ [x]) m) :
    ∃ m', Machine.pop m = .ok x m' ∧ Holds base a below m' := by
  have height : m.st = below.length + 1 := by simp [holds.st]
  have read : m.data.read (m.st - 1) = x := by
    rw [height, add_sub_cancel_right]
    exact holds.data.read ⟨below, [], by simp, rfl⟩
  exact ⟨_, by rw [pop_ok (by omega), read], holds.drop (n := 1) rfl⟩

theorem popPair (holds : Holds base a (below ++ [x, y]) m) :
    ∃ m', Machine.popPair m = .ok (x, y) m' ∧ Holds base a below m' := by
  have height : m.st = below.length + 2 := by simp [holds.st]
  have first : m.data.read (m.st - 2) = x := by
    rw [height, add_sub_cancel_right]
    exact holds.data.read ⟨below, [y], by simp, rfl⟩
  have second : m.data.read (m.st - 1) = y := by
    have position : m.st - 1 = (below.length + 1 : Nat) := by omega
    rw [position]
    exact holds.data.read ⟨below ++ [x], [], by simp, by simp⟩
  exact ⟨_, by rw [popPair_ok (by omega), first, second], holds.drop (n := 2) rfl⟩

theorem popOne (holds : Holds base a (below ++ [x]) m) :
    ∃ m', Machine.popN 1 m = .ok [x] m' ∧ Holds base a below m' := by
  have height : m.st = below.length + 1 := by simp [holds.st]
  have read : m.data.readBlock (m.st - 1) (1 : Int).toNat = [x] := by
    rw [height, add_sub_cancel_right]
    have slice : Slice (below ++ [x]) below.length [x] := ⟨below, [], by simp, rfl⟩
    exact holds.data.readBlock slice
  exact ⟨_, by rw [popN_ok (by omega), read], holds.drop (n := 1) rfl⟩

theorem next (holds : Holds base a below m) : Holds base (a + 1) below { m with cp := m.cp + 1 } :=
  { holds with cp := by simp [holds.cp] }

theorem step {i : Instruction} (holds : Holds base a below m) (running : base.halted = false)
    (here : base.code[a]? = some i) : m.step = match exec i m with
      | .ok () after => ({ after with steps := after.steps + 1 }, none)
      | .error cause after => (after, some ⟨m.cp, cause⟩) := by
  have instruction : m.code[m.cp.toNat]? = some i := by simpa [holds.code, holds.cp] using here
  have inside : ¬m.cp < 0 := by simp [holds.cp]
  have going : m.halted = false := holds.halted.trans running
  cases done : exec i m with
  | ok cause after | error cause after =>
    simp only [Machine.step, going, Bool.false_eq_true, ↓reduceIte, inside, instruction, done]

end Holds

/-! ## Primitives -/

/-- A word in the place of what was on top, or a failure. -/
def Replies (base : Machine) (a : Nat) (below : List Word) (result : EStateM.Result Cause Machine Unit) :
    Except Cause Word → Prop
  | .ok w => ∃ m', result = .ok () m' ∧ Holds base a (below ++ [w]) m'
  | .error cause => ∃ m', result = .error cause m'

/-- What a part of an instruction does with the words on top, whatever is below. -/
def Leaves (part : Exec Unit) (taken : List Word) (r : Except Cause Word) : Prop :=
  ∀ ⦃base a below m⦄, Holds base a (below ++ taken) m → Replies base a below (part m) r

/-- A result that no word can hold is an overflow. -/
def exactly : Option Word → Except Cause Word
  | some w => .ok w
  | none => .error .overflow

def quotient (part : Word × Word → Word) (x y : Word) : Except Cause Word :=
  if y = 0 then .error .divisionByZero else exactly ((Word.divide? x y).map part)

theorem replies_pushResult (holds : Holds base a below m) (room : below.length < dataSize)
    (result : Option Word) :
    Replies base a below (pushResult .overflow result m) (exactly result) := by
  cases result with
  | none => exact ⟨m, rfl⟩
  | some w => exact holds.push room w

theorem Holds.room (holds : Holds base a (below ++ x :: taken) m) : below.length < dataSize := by
  have fits := holds.fits
  simp only [List.length_append, List.length_cons] at fits
  omega

namespace Leaves

theorem arithmetic (op : Word → Word → Option Word) :
    Leaves (Machine.arithmetic op) [x, y] (exactly (op x y)) := by
  intro base a below m holds
  obtain ⟨m', popped, holds'⟩ := holds.popPair
  rw [Machine.arithmetic, bind_ok popped]
  exact replies_pushResult holds' holds.room _

theorem division (part : Word × Word → Word) :
    Leaves (Machine.division part) [x, y] (quotient part x y) := by
  intro base a below m holds
  obtain ⟨m', popped, holds'⟩ := holds.popPair
  rw [Machine.division, bind_ok popped, quotient]
  by_cases zero : y = 0
  · simp only [zero, ↓reduceIte]
    exact ⟨m', rfl⟩
  · simp only [zero, ↓reduceIte]
    exact replies_pushResult holds' holds.room _

theorem comparison (test : Word → Word → Bool) :
    Leaves (Machine.comparison test) [x, y] (.ok (.ofBool (test x y))) := by
  intro base a below m holds
  obtain ⟨m', popped, holds'⟩ := holds.popPair
  rw [Machine.comparison, bind_ok popped]
  exact holds'.push holds.room _

theorem stepping (op : Word → Option Word) :
    Leaves (Machine.stepping op) [x] (exactly (op x)) := by
  intro base a below m holds
  obtain ⟨m', popped, holds'⟩ := holds.pop
  rw [Machine.stepping, bind_ok popped]
  exact replies_pushResult holds' holds.room _

theorem not : Leaves (Machine.primitive .not) [x] (.ok (.ofBool (x == 0))) := by
  intro base a below m holds
  obtain ⟨m', popped, holds'⟩ := holds.pop
  rw [Machine.primitive, bind_ok popped]
  exact holds'.push holds.room _

/-- The size of a scalar is on top of the operands of an equality. -/
theorem equality (expected : Bool) :
    Leaves (Machine.equality expected) [x, y, 1] (.ok (.ofBool ((x == y) == expected))) := by
  intro base a below m holds
  have holds₃ : Holds base a (below ++ [x] ++ [y] ++ [1]) m := by simpa using holds
  obtain ⟨m₂, sized, holds₂⟩ := holds₃.pop
  obtain ⟨m₁, second, holds₁⟩ := holds₂.popOne
  obtain ⟨m₀, first, holds₀⟩ := holds₁.popOne
  have one : (1 : Word).toInt = 1 := by decide
  rw [Machine.equality, bind_ok sized, one, if_neg (by decide), bind_ok second, bind_ok first]
  have same : ([x] == [y]) = (x == y) := by simp
  rw [same]
  exact holds₀.push holds.room _

end Leaves

/-! ## Code -/

/-- The machine runs on to the address `a`, with a word on top of these, or fails. -/
def Becomes (base : Machine) (a : Nat) (below : List Word) (m : Machine) : Except Cause Word → Prop
  | .ok w => ∃ k m', m.Reaches k m' ∧ Holds base a (below ++ [w]) m'
  | .error cause => ∃ bytes, m.Fails cause bytes

/-- Wherever the items stand, they take these words from the stack and leave a word, or fail, if there
is room for `n` words from the first of them on. -/
def Takes (items : List Item) (n : Nat) (taken : List Word) (r : Except Cause Word) : Prop :=
  ∀ ⦃labels code base a below m⦄, base.code = List.toArray code → base.halted = false →
    Placed labels code a items → Holds base a (below ++ taken) m → below.length + n ≤ dataSize →
    Becomes base (a + span items) below m r

theorem Holds.becomes {i : Instruction} (holds : Holds base a below m) (running : base.halted = false)
    (here : base.code[a]? = some i) (replies : Replies base (a + 1) taken (exec i m) r) :
    Becomes base (a + 1) taken m r := by
  have step := holds.step running here
  cases r with
  | ok w =>
    obtain ⟨m', done, holds'⟩ := replies
    rw [done] at step
    exact ⟨1, _, .next (holds.halted.trans running) step (.here _), { holds' with }⟩
  | error cause =>
    obtain ⟨m', failed⟩ := replies
    rw [failed] at step
    exact ⟨_, 0, m, m', m.cp, .here m, step, rfl⟩

namespace Takes

theorem loadL (d : Int) : Takes [.loadL d] 1 [] (.ok (.truncate d)) := by
  intro labels code base a below m same running placed holds room
  rw [List.append_nil] at holds
  have here : base.code[a]? = some ⟨.loadL, .CB, 0, d⟩ := by simpa [same] using placed.plain rfl
  obtain ⟨m', pushed, holds'⟩ := holds.push (by omega) (.truncate d)
  exact holds.becomes running here ⟨_, bind_ok pushed, holds'.next⟩

theorem callPrim (leaves : Leaves (Machine.primitive p) taken r) : Takes [.callPrim p] n taken r := by
  intro labels code base a below m same running placed holds room
  have here : base.code[a]? = some ⟨.call, .PB, Reg.SB.index.toNat, p.displacement⟩ := by
    simpa [same] using placed.plain rfl
  have enters : exec ⟨.call, .PB, Reg.SB.index.toNat, p.displacement⟩ m =
      (do Machine.primitive p; next : Exec Unit) m := by
    have target : m.address ⟨.call, .PB, Reg.SB.index.toNat, p.displacement⟩ =
        .ok (primBase + p.displacement) := by
      cases p <;> rfl
    rw [← enter_primitive p 0]
    simp only [exec, asking, bind_assoc, Result.get_bind, target, pure_bind]
    rfl
  refine holds.becomes running here ?_
  rw [enters]
  have replies := leaves holds
  cases r with
  | ok w =>
    obtain ⟨m', done, holds'⟩ := replies
    exact ⟨_, bind_ok done, holds'.next⟩
  | error cause =>
    obtain ⟨m', failed⟩ := replies
    exact ⟨m', Result.bind_error failed⟩

/-- One piece of code after the other. -/
theorem bind {items more : List Item} {k : Nat} {f : Word → Except Cause Word}
    (first : Takes items k [] r) (second : ∀ w, r = .ok w → Takes more n (taken ++ [w]) (f w))
    (room : taken.length + k ≤ n) : Takes (items ++ more) n taken (r >>= f) := by
  intro labels code base a below m same running placed holds free
  obtain ⟨firstPlaced, secondPlaced⟩ := placed_append.mp placed
  have ends := first same running firstPlaced (by simpa using holds) (by
    simp only [List.length_append]
    omega)
  rw [span_append, ← Nat.add_assoc]
  cases r with
  | error cause => exact ends
  | ok w =>
    obtain ⟨j, m', reaches, holds'⟩ := ends
    have ends' := second w rfl same running secondPlaced (by simpa using holds') free
    change Becomes base (a + span items + span more) below m (f w)
    generalize f w = result at ends' ⊢
    cases result with
    | ok v =>
      obtain ⟨i, m'', rest, holds''⟩ := ends'
      exact ⟨j + i, m'', reaches.trans rest, holds''⟩
    | error cause =>
      obtain ⟨bytes, fails⟩ := ends'
      exact ⟨bytes, reaches.fails fails⟩

end Takes

/-! ## Results -/

/-- The machine has gone on to the address `a`, with a word of this value on top of its stack, and has
changed nothing else but what is above. -/
structure Pushed (m : Machine) (a value : Int) (m' : Machine) : Prop where
  only : m' = { m with cp := a, st := m.st + 1, data := m'.data, steps := m'.steps }
  top : (m'.data.read m.st).toInt = value
  below : ∀ k, 0 ≤ k → k < m.st → m'.data.read k = m.data.read k

/-- A machine has some words on its stack. -/
theorem holds_self {m : Machine} {a : Nat} (here : m.cp = a) (least : 0 ≤ m.st)
    (greatest : m.st ≤ dataSize) : ∃ stack, m.Holds a stack m := by
  have length : (m.data.readBlock 0 m.st.toNat).length = m.st.toNat := by simp [Store.readBlock]
  refine ⟨m.data.readBlock 0 m.st.toNat, rfl, rfl, here, rfl, by omega, by omega, ?_, rfl, rfl⟩
  intro k w found
  obtain ⟨inside, same⟩ := List.getElem?_eq_some_iff.mp found
  simpa [Store.readBlock] using same

theorem Holds.pushed {m m' : Machine} {a b : Nat} {stack : List Word} {w : Word}
    (before : m.Holds a stack m) (after : m.Holds b (stack ++ [w]) m') :
    m.Pushed b w.toInt m' where
  only := by
    have st : m'.st = m.st + 1 := by simp [before.st, after.st]
    rw [← after.code, ← after.cp, ← st, ← after.lb, ← after.halted, ← after.input, ← after.output]
  top := by
    have slice : Slice (stack ++ [w]) stack.length [w] := ⟨stack, [], by simp, rfl⟩
    rw [before.st, after.data.read slice]
  below k least inside := by
    obtain ⟨k, rfl⟩ := Int.eq_ofNat_of_zero_le least
    rw [before.st, Int.ofNat_lt] at inside
    have found : stack[k]? = some stack[k] := List.getElem?_eq_getElem inside
    rw [after.data.initial k _ found, before.data k _ found]

end Triangle.Machine
