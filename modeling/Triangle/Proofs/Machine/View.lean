import Mathlib
import Triangle.Machine.Step
import Triangle.Proofs.Layout.Values
import Triangle.Proofs.Result

/-! A machine seen from outside: where it is in its code, its local base, the words on its stack,
its input and its output. Words above the top of the stack do not show. Parts of instructions are
described by what they change of this view, up to an overflow of the stack. -/
namespace Triangle

variable {s : Store} {stack : List Word}

namespace Store

/-- The store has these words from address 0 on. -/
def Begins (s : Store) (stack : List Word) : Prop :=
  ∀ (k : Nat) (w : Word), stack[k]? = some w → s.read k = w

theorem read_write (s : Store) (inside : a < dataSize) (w : Word) (k : Nat) :
    (s.write a w).read k = if k = a then w else s.read k := by
  have position : ((a : Int).toNat) = a := rfl
  simp only [read, write, Int.natCast_nonneg, ↓reduceIte, Int.toNat_natCast]
  by_cases same : k = a
  · simp [same, inside]
  · simp [same, Ne.symm same]

theorem read_writeBlock (s : Store) (ws : List Word) (a k : Nat) (fits : a + ws.length ≤ dataSize) :
    (s.writeBlock a ws).read k = if a ≤ k then ws[k - a]?.getD (s.read k) else s.read k := by
  induction ws generalizing s a with
  | nil => simp [writeBlock]
  | cons w ws ih =>
    simp only [List.length_cons] at fits
    have next := ih (s.write a w) (a + 1) (by omega)
    simp only [writeBlock]
    rw [← Nat.cast_succ, next, read_write s (by omega)]
    rcases Nat.lt_trichotomy k a with below | rfl | above
    · simp [Nat.not_le.mpr below, Nat.ne_of_lt below, Nat.not_le.mpr (Nat.lt_succ_of_lt below)]
    · simp
    · obtain ⟨j, rfl⟩ := Nat.exists_eq_add_of_lt above
      have first : a + j + 1 - (a + 1) = j := by omega
      have second : a + j + 1 - a = j + 1 := by omega
      have other : ¬a + j + 1 = a := by omega
      have reached : a + 1 ≤ a + j + 1 := by omega
      have passed : a ≤ a + j + 1 := by omega
      simp [first, second, other, reached, passed]

theorem Begins.initial {more : List Word} (begins : s.Begins (stack ++ more)) : s.Begins stack := by
  intro k w found
  apply begins
  rw [List.getElem?_append_left (List.getElem?_eq_some_iff.mp found).1]
  exact found

theorem Begins.replace {ws changed : List Word} (begins : s.Begins stack)
    (fits : stack.length ≤ dataSize) (replaces : Replaces stack a ws changed) :
    (s.writeBlock a ws).Begins changed := by
  obtain ⟨before, old, after, rfl, rfl, length, rfl⟩ := replaces
  intro k w found
  rw [read_writeBlock s ws _ _ (by simp at fits; omega)]
  rcases Nat.lt_or_ge k before.length with first | reached
  · rw [if_neg (by omega)]
    apply begins
    rw [List.append_assoc, List.getElem?_append_left first] at found ⊢
    exact found
  · rw [if_pos reached]
    rw [List.append_assoc, List.getElem?_append_right reached] at found
    rcases Nat.lt_or_ge (k - before.length) ws.length with inside | past
    · rw [List.getElem?_append_left inside] at found
      simp [found]
    · rw [List.getElem?_append_right past] at found
      rw [List.getElem?_eq_none past]
      apply begins
      rw [List.append_assoc, List.getElem?_append_right reached, List.getElem?_append_right
        (by omega), length]
      exact found

theorem Begins.push (begins : s.Begins stack) (ws : List Word)
    (fits : stack.length + ws.length ≤ dataSize) :
    (s.writeBlock stack.length ws).Begins (stack ++ ws) := by
  intro k w found
  rw [read_writeBlock s ws _ _ fits]
  rcases Nat.lt_or_ge k stack.length with below | above
  · rw [if_neg (by omega)]
    rw [List.getElem?_append_left below] at found
    exact begins k w found
  · rw [if_pos above]
    rw [List.getElem?_append_right above] at found
    simp [found]

theorem Begins.readBlock {ws : List Word} (begins : s.Begins stack)
    (slice : Slice stack a ws) : s.readBlock a ws.length = ws := by
  obtain ⟨before, after, rfl, rfl⟩ := slice
  apply List.ext_getElem (by simp [Store.readBlock])
  intro k _ inside
  simp only [Store.readBlock, List.getElem_map, List.getElem_range, ← Nat.cast_add]
  apply begins
  rw [List.append_assoc, List.getElem?_append_right (by omega), List.getElem?_append_left (by omega)]
  simp [inside]

theorem Begins.read (begins : s.Begins stack) (slice : Slice stack a [w]) : s.read a = w := by
  simpa [Store.readBlock] using begins.readBlock slice

end Store

/-- What shows of a machine. -/
structure View where
  cp : Nat
  lb : Nat
  stack : List Word
  input : List UInt8
  output : List UInt8

namespace Machine

/-- The machine runs `code` and is in the state `v`. -/
structure Shows (m : Machine) (code : List Instruction) (v : View) : Prop where
  code : m.code = code.toArray
  running : m.halted = false
  cp : m.cp = v.cp
  lb : m.lb = v.lb
  st : m.st = v.stack.length
  fits : v.stack.length ≤ dataSize
  data : m.data.Begins v.stack
  input : m.input = v.input
  output : m.output.toList = v.output

/-- The part of an instruction succeeds as `after` says, unless the stack overflows. -/
def Safely {α : Type} (x : Exec α) (m : Machine) (after : α → Machine → Prop) : Prop :=
  (∃ m', x m = .error .stackOverflow m') ∨ ∃ a m', x m = .ok a m' ∧ after a m'

variable {α β : Type} {m : Machine} {code : List Instruction} {v : View}

theorem push_ok {ws : List Word} (room : m.st + ws.length ≤ dataSize) :
    push ws m = .ok () { m with data := m.data.writeBlock m.st ws, st := m.st + ws.length } := by
  simp [push, Int.not_lt.mpr room]

theorem pop_ok (nonempty : 0 < m.st) :
    pop m = .ok (m.data.read (m.st - 1)) { m with st := m.st - 1 } := by
  simp [pop, Int.not_le.mpr nonempty]

theorem popN_ok {n : Int} (enough : n ≤ m.st) :
    popN n m = .ok (m.data.readBlock (m.st - n) n.toNat) { m with st := m.st - n } := by
  simp [popN, Int.not_lt.mpr enough]

theorem popPair_ok (enough : 2 ≤ m.st) :
    popPair m = .ok (m.data.read (m.st - 2), m.data.read (m.st - 1)) { m with st := m.st - 2 } := by
  simp [popPair, show ¬ m.st ≤ 1 by omega]

/-- There is a word to pop. -/
theorem Shows.pop (shows : m.Shows code v) (top : v.stack = below ++ [w]) :
    ∃ m', Machine.pop m = .ok w m' ∧ m'.Shows code { v with stack := below } := by
  have height : m.st = below.length + 1 := by simp [shows.st, top]
  refine ⟨{ m with st := m.st - 1 }, ?_, ?_⟩
  · have read : m.data.read (m.st - 1) = w := by
      rw [height, add_sub_cancel_right]
      exact shows.data.read (top ▸ ⟨below, [], by simp, rfl⟩)
    rw [pop_ok (by omega), read]
  · have fits := shows.fits
    have data := shows.data
    rw [top] at fits data
    exact { shows with
      st := by simp [height]
      fits := by simp at fits ⊢; omega
      data := data.initial }

namespace Safely

theorem bind {x : Exec α} {f : α → Exec β} {middle : α → Machine → Prop}
    {after : β → Machine → Prop} (first : Safely x m middle)
    (second : ∀ a m', middle a m' → Safely (f a) m' after) : Safely (x >>= f) m after := by
  rcases first with ⟨m', overflow⟩ | ⟨a, m', done, holds⟩
  · exact .inl ⟨m', Result.bind_error overflow⟩
  · rcases second a m' holds with ⟨m'', overflow⟩ | ⟨b, m'', rest, holds'⟩
    · exact .inl ⟨m'', (Result.bind_ok done).trans overflow⟩
    · exact .inr ⟨b, m'', (Result.bind_ok done).trans rest, holds'⟩

theorem of_ok {x : Exec α} {after : α → Machine → Prop} {f : Machine} (done : x m = .ok a f)
    (holds : after a f) : Safely x m after :=
  .inr ⟨a, f, done, holds⟩

theorem asking {question : Machine → Except Cause α} (answer : question m = .ok a) :
    Safely (Machine.asking question) m fun b m' => a = b ∧ m = m' := by
  refine .of_ok (a := a) (f := m) ?_ ⟨rfl, rfl⟩
  simp [Machine.asking, answer]

theorem push (shows : m.Shows code v) (ws : List Word) :
    Safely (Machine.push ws) m fun _ m' =>
      m'.Shows code { v with stack := v.stack ++ ws } := by
  by_cases full : (dataSize : Int) < m.st + ws.length
  · refine .inl ⟨m, ?_⟩
    simp [Machine.push, full]
  · refine .of_ok (a := ()) (f := { m with
      data := m.data.writeBlock m.st ws, st := m.st + ws.length }) ?_ ?_
    · exact push_ok (Int.not_lt.mp full)
    · have room : v.stack.length + ws.length ≤ dataSize := by
        rw [shows.st] at full
        omega
      exact { shows with
        st := by simp [shows.st]
        fits := by simpa using room
        data := by simpa only [shows.st] using shows.data.push ws room }

theorem pop (shows : m.Shows code v) (top : v.stack = below ++ [w]) :
    Safely Machine.pop m fun a m' => w = a ∧ m'.Shows code { v with stack := below } := by
  obtain ⟨m', popped, shows'⟩ := shows.pop top
  exact .of_ok popped ⟨rfl, shows'⟩

theorem popN {n : Int} (shows : m.Shows code v) (top : v.stack = below ++ ws)
    (count : n = ws.length) :
    Safely (Machine.popN n) m fun a m' => ws = a ∧ m'.Shows code { v with stack := below } := by
  have height : m.st = below.length + ws.length := by simp [shows.st, top]
  refine .of_ok (a := ws) (f := { m with st := m.st - n }) ?_ ⟨rfl, ?_⟩
  · have read : m.data.readBlock (m.st - n) n.toNat = ws := by
      rw [height, count, add_sub_cancel_right, Int.toNat_natCast]
      exact shows.data.readBlock (top ▸ ⟨below, [], by simp, rfl⟩)
    rw [popN_ok (by omega), read]
  · have fits := shows.fits
    have data := shows.data
    rw [top] at fits data
    exact { shows with
      st := by simp [height, count]
      fits := by simp at fits ⊢; omega
      data := data.initial }

theorem storeBlock (shows : m.Shows code v) (replaces : Replaces v.stack a ws changed) :
    Safely (Machine.storeBlock a ws) m fun _ m' => m'.Shows code { v with stack := changed } := by
  have length : changed.length = v.stack.length ∧ a + ws.length ≤ v.stack.length := by
    obtain ⟨before, old, after, same, rfl, count, rfl⟩ := replaces
    simp [same, count]
  refine .of_ok (a := ()) (f := { m with data := m.data.writeBlock a ws }) ?_ ?_
  · have inside : ¬((a : Int) < 0 ∨ m.st < a + ws.length) := by
      rw [shows.st]
      omega
    simp [Machine.storeBlock, inside]
  · exact { shows with
      st := by simp [shows.st, length.1]
      fits := by simpa [length.1] using shows.fits
      data := shows.data.replace shows.fits replaces }

theorem next (shows : m.Shows code v) :
    Safely Machine.next m fun _ m' => m'.Shows code { v with cp := v.cp + 1 } :=
  .of_ok (a := ()) (f := { m with cp := m.cp + 1 }) rfl
    { shows with cp := by simp [shows.cp] }

theorem goTo (shows : m.Shows code v) (a : Nat) :
    Safely (Machine.goTo a) m fun _ m' => m'.Shows code { v with cp := a } :=
  .of_ok (a := ()) (f := { m with cp := a }) rfl { shows with cp := rfl }

theorem emit (shows : m.Shows code v) (bytes : List UInt8) :
    Safely (Machine.emit bytes) m fun _ m' =>
      m'.Shows code { v with output := v.output ++ bytes } :=
  .of_ok (a := ()) (f := { m with output := m.output ++ bytes }) rfl
    { shows with output := by simp [shows.output] }

end Safely

theorem Shows.block {n : Int} (shows : m.Shows code v) (slice : Slice v.stack a ws)
    (count : n = ws.length) : m.block a n = .ok ws := by
  have inside : ¬((a : Int) < 0 ∨ m.st < a + n) := by
    have := slice.bound
    rw [shows.st]
    omega
  rw [Machine.block, if_neg inside, count, Int.toNat_natCast, shows.data.readBlock slice]

end Machine
end Triangle
