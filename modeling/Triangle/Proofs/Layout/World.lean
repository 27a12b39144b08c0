import Mathlib
import Triangle.Proofs.Layout.Values
import Triangle.Proofs.Result
import Triangle.Proofs.Semantics.Basic

/-! How the variables of a program lie on the stack. A world lists what the stack is made of, from
the bottom: cells of variables, in the order in which they came into existence, and words that do
not change while they are there. A world grows at its end only, and what is known about an address
stays true when it grows. -/
namespace Triangle.Semantics

inductive Segment where
  | fixed (ws : List Word)
  | cell (ty : Ty)

abbrev World := List Segment

variable {w : World} {m : Meaning}

namespace World

/-- The types of the variables. -/
def cells : World → List Ty
  | [] => []
  | .fixed _ :: w => cells w
  | .cell t :: w => t :: cells w

def size : World → Nat
  | [] => 0
  | .fixed ws :: w => ws.length + size w
  | .cell t :: w => t.trueSize + size w

/-- The words on the stack when the variables hold the values of `s`. -/
def content : World → Store → List Word
  | [], _ => []
  | .fixed ws :: w, s => ws ++ content w s
  | .cell _ :: w, v :: s => v.words ++ content w s
  | .cell _ :: _, [] => []

/-- Every variable holds a value of its type. -/
def Stored (w : World) (s : Store) : Prop := List.Forall₂ Value.HasTy s w.cells

@[simp] theorem cells_append (w x : World) : cells (w ++ x) = cells w ++ cells x := by
  induction w with
  | nil => rfl
  | cons g w ih => cases g <;> simp [cells, ih]

@[simp] theorem size_append (w x : World) : size (w ++ x) = size w + size x := by
  induction w with
  | nil => simp [size]
  | cons g w ih => cases g <;> simp [size, ih, Nat.add_assoc]

theorem Stored.length {s : Store} (stored : w.Stored s) : s.length = w.cells.length :=
  List.Forall₂.length_eq stored

theorem Stored.append {x : World} {s r : Store} (first : w.Stored s) (second : x.Stored r) :
    Stored (w ++ x) (s ++ r) := by
  unfold Stored at *
  rw [cells_append]
  exact List.rel_append first second

theorem Stored.fixed {s : Store} (stored : w.Stored s) (ws : List Word) :
    Stored (w ++ [.fixed ws]) s := by
  simpa [Stored, cells] using stored

theorem Stored.split {x : World} {s : Store} (stored : Stored (w ++ x) s) :
    ∃ first second, s = first ++ second ∧ w.Stored first ∧ x.Stored second := by
  refine ⟨s.take w.cells.length, s.drop w.cells.length, by simp, ?_, ?_⟩
  · simpa [Stored] using List.forall₂_take w.cells.length stored
  · simpa [Stored] using List.forall₂_drop w.cells.length stored

theorem content_append {s : Store} (stored : w.Stored s) (x : World) (r : Store) :
    content (w ++ x) (s ++ r) = content w s ++ content x r := by
  induction w generalizing s with
  | nil =>
    cases stored
    rfl
  | cons g w ih =>
    cases g with
    | fixed ws => simp [content, ih (show Stored w s from stored)]
    | cell t =>
      cases stored with
      | cons _ rest => simp [content, ih rest]

@[simp] theorem content_fixed {s : Store} (stored : w.Stored s) (ws : List Word) :
    content (w ++ [.fixed ws]) s = content w s ++ ws := by
  simpa [content] using content_append stored [.fixed ws] []

theorem Stored.size {s : Store} (stored : w.Stored s) :
    (content w s).length = w.size := by
  induction w generalizing s with
  | nil => rfl
  | cons g w ih =>
    cases g with
    | fixed ws => simp [content, World.size, ih (show Stored w s from stored)]
    | cell t =>
      cases stored with
      | cons first rest => simp [content, World.size, first.length, ih rest]

/-! Words that are pushed one after the other. -/

@[simp] theorem stored_fixeds {s : Store} (wss : List (List Word)) :
    Stored (w ++ wss.map .fixed) s ↔ w.Stored s := by
  have none : cells (wss.map .fixed) = [] := by
    induction wss with
    | nil => rfl
    | cons ws wss ih => simpa [cells] using ih
  rw [Stored, cells_append, none, List.append_nil]
  rfl

@[simp] theorem size_fixeds (wss : List (List Word)) :
    size (wss.map .fixed) = wss.flatten.length := by
  induction wss with
  | nil => rfl
  | cons ws wss ih => simp [size, ih]

theorem content_fixeds {s : Store} (stored : w.Stored s) (wss : List (List Word)) :
    content (w ++ wss.map .fixed) s = content w s ++ wss.flatten := by
  induction wss generalizing w with
  | nil => simp
  | cons ws wss ih =>
    have next := ih (stored.fixed ws)
    rw [content_fixed stored, List.append_assoc] at next
    simpa using next

/-- The older variables without the newer ones. -/
theorem Stored.older {x : World} {s : Store} (stored : Stored (w ++ x) s) :
    w.Stored (s.take w.cells.length) ∧ ∃ gone : List Word, gone.length = x.size ∧
      content (w ++ x) s = content w (s.take w.cells.length) ++ gone := by
  obtain ⟨first, second, rfl, left, right⟩ := stored.split
  have older : (first ++ second).take w.cells.length = first := by simp [← left.length]
  rw [older]
  exact ⟨left, content x second, right.size, content_append left x second⟩

/-! ## What is at an address -/

/-- These words are at address `a`, whatever the variables hold. -/
def Fixed (w : World) (a : Nat) (ws : List Word) : Prop :=
  ∀ s, w.Stored s → Slice (w.content s) a ws

/-- The variable or component `p`, of type `t`, is at address `a`. -/
def PlaceAt (w : World) (p : Place) (t : Ty) (a : Nat) : Prop :=
  ∃ before ty after k, w = before ++ .cell ty :: after ∧ p.loc = (cells before).length ∧
    Value.PathTo ty p.path t k ∧ a = size before + k

/-- The value, or the variable, that a meaning stands for is at address `a`. -/
def Holds (w : World) : Meaning → Ty → Nat → Prop
  | .value v, t, a => v.HasTy t ∧ w.Fixed a v.words
  | .place p, t, a => w.PlaceAt p t a
  | _, _, _ => False

theorem Fixed.extend (fixed : w.Fixed a ws) (x : World) : Fixed (w ++ x) a ws := by
  intro s stored
  obtain ⟨first, second, rfl, left, _⟩ := stored.split
  rw [content_append left]
  exact (fixed first left).append _

theorem Fixed.part {inner : List Word} (fixed : w.Fixed a ws) (slice : Slice ws k inner) :
    w.Fixed (a + k) inner :=
  fun s stored => (fixed s stored).trans slice

/-- Words that were just pushed. -/
theorem Fixed.pushed (w : World) (ws : List Word) : Fixed (w ++ [.fixed ws]) w.size ws := by
  intro s stored
  have base : w.Stored s := by simpa [Stored, cells] using stored
  rw [content_fixed base]
  exact ⟨w.content s, [], by simp, base.size⟩

theorem Fixed.pushedAll (w : World) (wss : List (List Word)) :
    Fixed (w ++ wss.map .fixed) w.size wss.flatten := by
  intro s stored
  have base : w.Stored s := by simpa using stored
  rw [content_fixeds base]
  exact ⟨w.content s, [], by simp, base.size⟩

theorem PlaceAt.extend (placed : w.PlaceAt p t a) (x : World) :
    PlaceAt (w ++ x) p t a := by
  obtain ⟨before, ty, after, k, rfl, number, leads, rfl⟩ := placed
  exact ⟨before, ty, after ++ x, k, by simp, number, leads, rfl⟩

/-- There are no variables among the words on top. -/
theorem PlaceAt.under (placed : PlaceAt (w ++ [.fixed ws]) p t a) : w.PlaceAt p t a := by
  obtain ⟨before, ty, after, k, same, number, leads, rfl⟩ := placed
  rcases List.eq_nil_or_concat after with rfl | ⟨inner, last, rfl⟩
  · cases (List.append_inj' same rfl).2
  · rw [List.concat_eq_append, ← List.cons_append, ← List.append_assoc] at same
    exact ⟨before, ty, inner, k, (List.append_inj' same rfl).1, number, leads, rfl⟩

theorem PlaceAt.select (placed : w.PlaceAt p t a)
    (found : Value.component? t s = some (u, k)) : w.PlaceAt (p.select s) u (a + k) := by
  obtain ⟨before, ty, after, j, rfl, number, leads, rfl⟩ := placed
  exact ⟨before, ty, after, j + k, rfl, number, leads.snoc found, by omega⟩

/-- A variable that was just created. -/
theorem PlaceAt.created (w : World) (t : Ty) :
    PlaceAt (w ++ [.cell t]) ⟨w.cells.length, []⟩ t w.size :=
  ⟨w, t, [], 0, rfl, rfl, ⟨rfl, rfl⟩, rfl⟩

theorem Holds.extend (holds : w.Holds m t a) (x : World) :
    Holds (w ++ x) m t a := by
  cases m with
  | value v => exact ⟨holds.1, holds.2.extend x⟩
  | place p => exact PlaceAt.extend holds x
  | standard | routine => exact holds

/-! ## Reading and writing -/

theorem Stored.read {s : Store} (stored : w.Stored s) (placed : w.PlaceAt p t a) :
    ∃ v : Value, s.read? p = some v ∧ v.HasTy t ∧ Slice (w.content s) a v.words := by
  obtain ⟨before, ty, after, k, rfl, number, leads, rfl⟩ := placed
  obtain ⟨first, second, rfl, left, right⟩ := stored.split
  cases right with
  | @cons v _ rest _ typed others =>
    have position : p.loc = first.length := number.trans left.length.symm
    obtain ⟨u, found, kind, slice⟩ := typed.get leads
    refine ⟨u, by simp [Store.read?, position, found], kind, ?_⟩
    rw [content_append left, content, ← left.size, ← List.append_assoc]
    exact slice.inside _ _

theorem Stored.write {s : Store} {v : Value} (stored : w.Stored s)
    (placed : w.PlaceAt p t a) (fits : v.HasTy t) :
    w.Stored (s.write p v) ∧ Replaces (w.content s) a v.words (w.content (s.write p v)) := by
  obtain ⟨before, ty, after, k, rfl, number, leads, rfl⟩ := placed
  obtain ⟨first, second, rfl, left, right⟩ := stored.split
  cases right with
  | @cons u _ rest _ typed others =>
    have position : p.loc = first.length := number.trans left.length.symm
    obtain ⟨kind, replaced⟩ := typed.set leads fits
    have changed : Store.write (first ++ u :: rest) p v = first ++ Value.set v p.path u :: rest := by
      simp [Store.write, position, List.modify_eq_take_drop, List.modifyHead]
    rw [changed, content_append left, content_append left, content, content, ← left.size,
      ← List.append_assoc, ← List.append_assoc]
    exact ⟨left.append (.cons kind others), replaced.inside _ _⟩

theorem Holds.contents {s : State} (stored : w.Stored s.store) (holds : w.Holds m t a) :
    ∃ v : Value, m.contents s = .ok v s ∧ v.HasTy t ∧ Slice (w.content s.store) a v.words := by
  cases m with
  | value v => exact ⟨v, rfl, holds.1, holds.2 _ stored⟩
  | place p =>
    obtain ⟨v, found, typed, slice⟩ := stored.read holds
    refine ⟨v, ?_, typed, slice⟩
    simp [Meaning.contents, Semantics.read, found]
  | standard | routine => exact holds.elim

theorem Holds.component {s : State} (holds : w.Holds m t a)
    (found : Value.component? t sel = some (u, k)) :
    ∃ m' : Meaning, m.component sel s = .ok m' s ∧ w.Holds m' u (a + k) ∧
      ((∃ p, m = .place p) → ∃ p, m' = .place p) := by
  cases m with
  | value v =>
    have leads : Value.PathTo t [sel] u k := ⟨u, k, 0, found, ⟨rfl, rfl⟩, rfl⟩
    obtain ⟨x, same, typed, slice⟩ := holds.1.get leads
    refine ⟨.value x, ?_, ⟨typed, holds.2.part slice⟩, fun isPlace => ?_⟩
    · simp [Meaning.component, same]
    · simp at isPlace
  | place p => exact ⟨.place (p.select sel), rfl, holds.select found, fun _ => ⟨_, rfl⟩⟩
  | standard | routine => exact holds.elim

/-- An index leads to an element or leaves the array. -/
theorem Holds.element {s : State} {length : Int} {elem : Ty}
    (stored : w.Stored s.store) (holds : w.Holds m (.array length elem) a) (k : Int) :
    m.element k s = .error .outOfRange s ∨ 0 ≤ k ∧ ∃ m' : Meaning, m.element k s = .ok m' s ∧
      w.Holds m' elem (a + k.toNat * elem.trueSize) ∧
      ((∃ p, m = .place p) → ∃ p, m' = .place p) := by
  obtain ⟨v, contents, typed, -⟩ := holds.contents stored
  obtain ⟨vs, rfl, -, count, -⟩ := typed.array
  have unfolded : m.element k s =
      (if 0 ≤ k ∧ k < vs.length then m.component (.index k.toNat) else throw .outOfRange) s :=
    Result.bind_ok contents
  rw [unfolded]
  by_cases inside : 0 ≤ k ∧ k < vs.length
  · have found : Value.component? (.array length elem) (.index k.toNat) =
        some (elem, k.toNat * elem.trueSize) := by
      simp only [Value.component?]
      rw [if_pos (by omega)]
    obtain ⟨m', same, holds', places⟩ := holds.component (s := s) found
    rw [if_pos inside]
    exact .inr ⟨inside.1, m', same, holds', places⟩
  · rw [if_neg inside]
    exact .inl rfl

theorem Holds.isValue {s : Store} (stored : w.Stored s) (holds : w.Holds m t a) : t.IsValue := by
  obtain ⟨v, -, typed, -⟩ := holds.contents (s := { store := s }) stored
  exact typed.isValue

/-- What is held lies in the world. -/
theorem Holds.bound {s : Store} (stored : w.Stored s)
    (holds : w.Holds m t a) : a + t.trueSize ≤ w.size := by
  obtain ⟨v, -, typed, slice⟩ := holds.contents (s := { store := s }) stored
  have bound := slice.bound
  rwa [typed.length, stored.size] at bound

end World
end Triangle.Semantics
