import Mathlib
import Triangle.Proofs.Scope

/-! Histories of a table of scopes. While a scope is kept open nothing changes what lies around it: a
name bound in it stays at its static level, however many frames and blocks come and go, and a scope
that is closed leaves the table as it was before the scope was opened. -/
namespace Triangle.Scope
open List

variable {V : Type}

/-- What can be done to a table. States of it are saved, and a saved state may be put back. -/
inductive Action (V : Type) where
  | enterScope (state : Int)
  | enterBlock
  | exit
  | add (name : String) (value : V)
  | addConst (name : String) (value : V)
  | setState (state : Int)
  | snapshot
  | restore (index : Nat)

/-- The name that an action binds, and what to. -/
def Action.binding? : Action V → Option (String × Entry V)
  | add name value => some (name, ⟨value, false⟩)
  | addConst name value => some (name, ⟨value, true⟩)
  | _ => none

/-- A table, and the states of it saved so far. -/
structure Session (V : Type) where
  table : Table V
  saved : List (Table V) := []

namespace Session

def change (s : Session V) (f : Table V → Table V) : Session V := { s with table := f s.table }

def apply (s : Session V) : Action V → Session V
  | .enterScope state => s.change (·.enterScope state)
  | .enterBlock => s.change (·.enterBlock)
  | .exit => s.change (·.exit)
  | .add name value => s.change (·.add name value)
  | .addConst name value => s.change (·.addConst name value)
  | .setState state => s.change (·.setState state)
  | .snapshot => { s with saved := s.saved ++ [s.table] }
  | .restore index => s.change fun t => s.saved.getD index t

def run (s : Session V) (actions : List (Action V)) : Session V := actions.foldl apply s

/-- The number of open scopes. -/
def height (s : Session V) : Nat := s.table.levels.length

/-- The action does not close the scope with `outer` scopes around it, nor does it put back a state
that is among the first `mark` saved. No action closes the outermost scope. -/
def Spares (outer mark : Nat) (s : Session V) : Action V → Prop
  | .exit => outer = 0 ∨ outer + 1 < s.height
  | .restore index => mark ≤ index
  | _ => True

/-- The action does not bind `name` in the scope with `outer` scopes around it. -/
def Avoids (outer : Nat) (name : String) (s : Session V) (a : Action V) : Prop :=
  ∀ binding ∈ a.binding?, binding.1 = name → outer + 1 < s.height

/-- Every action of a history is allowed where it happens. -/
def Along (allowed : Session V → Action V → Prop) : Session V → List (Action V) → Prop
  | _, [] => True
  | s, a :: rest => allowed s a ∧ Along allowed (s.apply a) rest

end Session

/-! ## A scope that is kept open -/

/-- The scopes `outer` are as they were, around a scope that is still open and of which `P` holds. -/
def Table.Above (outer : List (Level V)) (P : Level V → Prop) (t : Table V) : Prop :=
  ∃ newer l, t.levels = newer ++ l :: outer ∧ P l

namespace Table

variable {outer : List (Level V)} {P : Level V → Prop} {t : Table V}

theorem Above.enter (above : t.Above outer P) (l : Level V) : Above outer P ⟨l, t.levels⟩ := by
  obtain ⟨newer, kept, shape, holds⟩ := above
  exact ⟨l :: newer, kept, by rw [cons_append, ← shape]; rfl, holds⟩

theorem Above.exit (above : t.Above outer P)
    (spared : outer.length = 0 ∨ outer.length + 1 < t.levels.length) : t.exit.Above outer P := by
  obtain ⟨newer, kept, shape, holds⟩ := above
  obtain ⟨top, around⟩ := t
  cases newer with
  | nil =>
    -- the scope kept open is the innermost, so it is the outermost as well and stays
    rcases spared with outermost | inside
    · obtain rfl := eq_nil_of_length_eq_zero outermost
      cases shape
      exact ⟨[], top, rfl, holds⟩
    · rw [shape] at inside
      simp at inside
  | cons l newer =>
    simp only [levels, cons_append, List.cons.injEq] at shape
    refine ⟨newer, kept, ?_, holds⟩
    rw [← shape.2]
    cases around with
    | nil => simp at shape
    | cons next rest => rfl

/-- The innermost scope changes; if it is the one kept open the property has to stay. -/
theorem Above.change (above : t.Above outer P) {f : Level V → Level V}
    (stays : t.levels.length = outer.length + 1 → ∀ l, P l → P (f l)) :
    Above outer P { t with top := f t.top } := by
  obtain ⟨newer, kept, shape, holds⟩ := above
  cases newer with
  | nil =>
    have height := congrArg List.length shape
    simp only [levels, nil_append, List.cons.injEq] at shape
    refine ⟨[], f kept, ?_, stays (by simpa using height) kept holds⟩
    simp [levels, shape]
  | cons l newer =>
    simp only [levels, cons_append, List.cons.injEq] at shape
    exact ⟨f l :: newer, kept, by simp [levels, shape], holds⟩

theorem exit_eq {l : Level V} {u : Table V} (shape : t.levels = l :: u.levels) : t.exit = u := by
  obtain ⟨top, around⟩ := t
  cases shape
  rfl

/-- A name bound in a scope is found there, as many frames out as there are frames inside. -/
theorem findIn_newer {newer : List (Level V)} {l : Level V} {name : String} {e : Entry V}
    (found : l.get? name = some e) (hidden : ∀ x ∈ newer, x.get? name = none) (depth : Nat) :
    findIn name depth (newer ++ l :: outer) =
      some (e, depth + newer.countP (·.kind = .frame)) := by
  induction newer generalizing depth with
  | nil => simp [findIn, found]
  | cons x newer ih =>
    obtain ⟨first, rest⟩ := forall_mem_cons.mp hidden
    simp only [cons_append, findIn, first, ih rest, countP_cons, decide_eq_true_eq]
    by_cases frame : x.kind = .frame
    · simp only [frame, ↓reduceIte, Option.some.injEq, Prod.mk.injEq, true_and]
      omega
    · simp [frame]

end Table

namespace Session

variable {s : Session V} {outer : List (Level V)} {P : Level V → Prop} {mark : Nat}

/-- The scope is open now, and it was in all states saved since the first `mark`. -/
def Keeps (outer : List (Level V)) (P : Level V → Prop) (mark : Nat) (s : Session V) : Prop :=
  s.table.Above outer P ∧ mark ≤ s.saved.length ∧
    ∀ index t, mark ≤ index → s.saved[index]? = some t → t.Above outer P

theorem Keeps.apply (keeps : s.Keeps outer P mark) {a : Action V}
    (spares : s.Spares outer.length mark a) (counts : ∀ l state, P l → P { l with state })
    (binds : ∀ binding ∈ a.binding?, s.height = outer.length + 1 →
      ∀ l, P l → P (l.insert binding.1 binding.2)) : (s.apply a).Keeps outer P mark := by
  obtain ⟨above, long, saved⟩ := keeps
  cases a with
  | enterScope state => exact ⟨above.enter _, long, saved⟩
  | enterBlock => exact ⟨above.enter _, long, saved⟩
  | exit => exact ⟨above.exit spares, long, saved⟩
  | add name value => exact ⟨above.change (binds (name, ⟨value, false⟩) rfl), long, saved⟩
  | addConst name value => exact ⟨above.change (binds (name, ⟨value, true⟩) rfl), long, saved⟩
  | setState state => exact ⟨above.change fun _ l => counts l state, long, saved⟩
  | snapshot =>
    refine ⟨above, by simp [Session.apply]; omega, fun index t after found => ?_⟩
    simp only [Session.apply, getElem?_append] at found
    split at found
    · exact saved index t after found
    · rw [getElem?_singleton] at found
      split at found
      · cases found
        exact above
      · cases found
  | restore index =>
    refine ⟨?_, long, saved⟩
    simp only [Session.apply, change, getD_eq_getElem?_getD]
    cases found : s.saved[index]? with
    | none => exact above
    | some t => exact saved index t spares found

theorem Keeps.run {allowed : Session V → Action V → Prop} {actions : List (Action V)}
    (step : ∀ s a, s.Keeps outer P mark → allowed s a → (s.apply a).Keeps outer P mark)
    (keeps : s.Keeps outer P mark) (along : Along allowed s actions) :
    (s.run actions).Keeps outer P mark := by
  induction actions generalizing s with
  | nil => exact keeps
  | cons a actions ih => exact ih (step s a keeps along.1) along.2

/-- A session starts to keep its innermost scope open. -/
theorem keeps_top (holds : P s.table.top) : s.Keeps s.table.outer P s.saved.length := by
  refine ⟨⟨[], s.table.top, rfl, holds⟩, le_rfl, fun index t after found => ?_⟩
  rw [getElem?_eq_none after] at found
  cases found

variable {name : String} {e : Entry V}

theorem lookup_of_keeps {kind : Kind}
    (keeps : s.Keeps outer (fun l => l.get? name = some e ∧ l.kind = kind) mark)
    (visible : ∀ l ∈ s.table.levels.take (s.height - (outer.length + 1)), l.get? name = none) :
    ∃ depth, s.table.find? name = some (e, depth) ∧
      s.table.frames = depth + (if kind = .frame then 1 else 0) + outer.countP (·.kind = .frame) := by
  obtain ⟨⟨newer, l, shape, found, rfl⟩, -⟩ := keeps
  have newest : s.table.levels.take (s.height - (outer.length + 1)) = newer := by
    rw [height, shape]
    simp
  rw [newest] at visible
  refine ⟨_, (congrArg (Table.findIn name 0) shape).trans (Table.findIn_newer found visible 0), ?_⟩
  rw [Table.frames, shape, countP_append, countP_cons]
  simp only [decide_eq_true_eq]
  omega

/-- A name bound in the innermost scope keeps its value, its flag and its static level while that scope
is open, as long as it is not bound again there and no newer scope that is open binds it. A scope that
is opened and closed leaves the table as it was, whatever happens in between inside of it. -/
theorem scopes_balanced (s : Session V) (actions : List (Action V)) :
    (∀ name e, s.table.top.get? name = some e →
      Along (fun s' a => s'.Spares s.table.outer.length s.saved.length a ∧
        s'.Avoids s.table.outer.length name a) s actions →
      (∀ l ∈ (s.run actions).table.levels.take ((s.run actions).height - s.height),
        l.get? name = none) →
      ∃ depth, (s.run actions).table.lookupWithDepth? name = some (e.value, depth) ∧
        ((s.run actions).table.frames : Int) - 1 - depth = s.table.frames - 1 ∧
        (s.run actions).table.isConst name = e.constant) ∧
    ∀ opening : Action V, (∃ state, opening = .enterScope state) ∨ opening = .enterBlock →
      Along (Spares s.height s.saved.length) (s.apply opening) actions →
      ((s.apply opening).run actions).height = s.height + 1 →
      (((s.apply opening).run actions).apply .exit).table = s.table := by
  constructor
  · intro name e bound along visible
    let P : Level V → Prop := fun l => l.get? name = some e ∧ l.kind = s.table.top.kind
    have keeps : (s.run actions).Keeps s.table.outer P s.saved.length := by
      refine (keeps_top (P := P) ⟨bound, rfl⟩).run (fun s' a keeps allowed => ?_) along
      refine keeps.apply allowed.1 (fun l state holds => holds) fun binding binds low l holds => ?_
      have other : name ≠ binding.1 := by
        rintro rfl
        exact absurd (allowed.2 binding binds rfl) (by omega)
      exact ⟨by rw [Level.get?_insert, if_neg other]; exact holds.1, holds.2⟩
    obtain ⟨depth, found, frames⟩ := lookup_of_keeps keeps visible
    have before : s.table.frames =
        (if s.table.top.kind = .frame then 1 else 0) + s.table.outer.countP (·.kind = .frame) := by
      simp [Table.frames, Table.levels, countP_cons, Nat.add_comm]
    refine ⟨depth, by simp [Table.lookupWithDepth?, found], by omega, by simp [Table.isConst, found]⟩
  · intro opening opens along level
    have keeps : (s.apply opening).Keeps s.table.levels (fun _ => True) s.saved.length := by
      rcases opens with ⟨state, rfl⟩ | rfl
      · exact keeps_top (s := s.apply (.enterScope state)) trivial
      · exact keeps_top (s := s.apply .enterBlock) trivial
    obtain ⟨⟨newer, l, shape, -⟩, -⟩ := keeps.run (fun s' a keeps allowed =>
      keeps.apply allowed (fun _ _ _ => trivial) fun _ _ _ _ _ => trivial) along
    rw [height, shape] at level
    have none : newer = [] := by
      apply eq_nil_of_length_eq_zero
      simp only [length_append, length_cons, height] at level
      omega
    exact Table.exit_eq (by simpa [none] using shape)

/-- A block that hides a constant is opened and closed. Another exit leaves the outermost scope open,
and a frame is opened in it. -/
theorem hidden_balanced :
    (∃ depth, (run ⟨(Table.new 0).addConst "x" 7, []⟩
        [.enterBlock, .add "x" 9, .exit, .exit, .enterScope 3]).table.lookupWithDepth? "x" =
          some (7, depth) ∧
      ((2 : Nat) : Int) - 1 - depth = (1 : Nat) - 1) ∧
    ((run ⟨(Table.new 0).addConst "x" 7, []⟩ [.enterBlock, .add "x" 9]).apply .exit).table =
      (Table.new 0).addConst "x" 7 := by
  have stable := (scopes_balanced (V := Nat) ⟨(Table.new 0).addConst "x" 7, []⟩
    [.enterBlock, .add "x" 9, .exit, .exit, .enterScope 3]).1 "x" ⟨7, true⟩ rfl
    (by simp [Along, Spares, Avoids, Action.binding?]; decide)
    (forall_mem_singleton (a := (⟨.frame, 3, []⟩ : Level Nat)).mpr rfl)
  have closed := (scopes_balanced (V := Nat) ⟨(Table.new 0).addConst "x" 7, []⟩ [.add "x" 9]).2
    .enterBlock (.inr rfl) ⟨trivial, trivial⟩ rfl
  exact ⟨stable.imp fun _ found => ⟨found.1, found.2.1⟩, closed⟩

end Session
end Triangle.Scope
