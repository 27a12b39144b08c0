import Triangle.Scope
import Mathlib

/-! Lookups in nested scopes: what a binding, a block and a frame change. A binding hides what is
around it at depth zero; a frame puts every name one frame further out, and a block none. -/
namespace Triangle.Scope
open List

variable {V : Type}

theorem lookup_filter_ne (names : List (String × V)) {name x : String} (other : x ≠ name) :
    (names.filter (·.1 != name)).lookup x = names.lookup x := by
  induction names with
  | nil => rfl
  | cons entry rest ih =>
    obtain ⟨key, value⟩ := entry
    by_cases hidden : key = name
    · have differs : (x == key) = false := by simpa [hidden] using other
      simp [hidden, ih, lookup_cons, hidden ▸ differs]
    · simp [hidden, lookup_cons, ih]

theorem mem_of_lookup {names : List (String × V)} (found : names.lookup x = some v) :
    (x, v) ∈ names := by
  obtain ⟨l, r, rfl, _⟩ := lookup_eq_some_iff.mp found
  simp

theorem lookup_of_mem {names : List (String × V)} (distinct : (names.map Prod.fst).Nodup)
    (member : (x, v) ∈ names) : names.lookup x = some v := by
  induction names with
  | nil => cases member
  | cons entry rest ih =>
    obtain ⟨y, u⟩ := entry
    simp only [map_cons, nodup_cons] at distinct
    rcases mem_cons.mp member with same | later
    · cases same
      simp
    · have other : x ≠ y := by
        rintro rfl
        exact distinct.1 (mem_map_of_mem later)
      rw [lookup_cons, beq_false_of_ne other]
      exact ih distinct.2 later

/-- Where no name occurs twice the order does not matter. -/
theorem lookup_reverse {names : List (String × V)} (distinct : (names.map Prod.fst).Nodup)
    (x : String) : names.reverse.lookup x = names.lookup x := by
  have back : (names.reverse.map Prod.fst).Nodup := by simpa using distinct
  apply Option.ext
  intro v
  constructor
  · intro found
    exact lookup_of_mem distinct (mem_reverse.mp (mem_of_lookup found))
  · intro found
    exact lookup_of_mem back (mem_reverse.mpr (mem_of_lookup found))

theorem Level.get?_insert (l : Level V) (name x : String) (e : Entry V) :
    (l.insert name e).get? x = if x = name then some e else l.get? x := by
  by_cases same : x = name
  · simp [Level.get?, Level.insert, same]
  · have differs : (x == name) = false := by simpa using same
    simp [Level.get?, Level.insert, same, lookup_cons, differs, lookup_filter_ne _ same]

namespace Table

/-- Frames passed before the search starts only add to the depth. -/
theorem findIn_depth (name : String) (levels : List (Level V)) (k : Nat) :
    findIn name k levels = (findIn name 0 levels).map fun (e, depth) => (e, depth + k) := by
  induction levels generalizing k with
  | nil => rfl
  | cons l rest ih =>
    unfold findIn
    cases l.get? name with
    | some e => simp
    | none =>
      by_cases frame : l.kind = .frame
      · simp only [frame, ↓reduceIte]
        rw [ih (k + 1), ih (0 + 1)]
        cases findIn name 0 rest with
        | none => rfl
        | some found =>
          simp only [Option.map_some, Option.some.injEq, Prod.mk.injEq, true_and]
          omega
      · simp only [frame, ↓reduceIte]
        exact ih k

theorem find?_insert (t : Table V) (name x : String) (e : Entry V) :
    (t.insert name e).find? x = if x = name then some (e, 0) else t.find? x := by
  simp only [find?, levels, insert, findIn, Level.get?_insert]
  by_cases same : x = name
  · simp [same]
  · simp only [same, ↓reduceIte]
    rfl

theorem find?_enterBlock (t : Table V) (x : String) : t.enterBlock.find? x = t.find? x := by
  simp [find?, levels, enterBlock, findIn, Level.get?]

theorem find?_enterScope (t : Table V) (x : String) (state : Int) :
    (t.enterScope state).find? x = (t.find? x).map fun (e, depth) => (e, depth + 1) := by
  exact findIn_depth x (t.top :: t.outer) 1

/-- A table filled from a list has its entries at depth zero; of two for one name the later. -/
theorem find?_foldl_addConst {W : Type} (make : W → V) (entries : List (String × W)) (t : Table V)
    (x : String) :
    (entries.foldl (fun t (name, w) => t.addConst name (make w)) t).find? x =
      match entries.reverse.lookup x with
      | some w => some (⟨make w, true⟩, 0)
      | none => t.find? x := by
  induction entries generalizing t with
  | nil => rfl
  | cons entry rest ih =>
    obtain ⟨name, w⟩ := entry
    rw [foldl_cons, ih, reverse_cons, lookup_append]
    cases rest.reverse.lookup x with
    | some later => rfl
    | none =>
      simp only [addConst, find?_insert, Option.none_or, lookup_cons, lookup_nil]
      by_cases same : x = name
      · simp [same]
      · have other : (x == name) = false := by simpa using same
        simp [same, other]

/-! ## What the searches return -/

@[simp] theorem lookup?_insert (t : Table V) (name x : String) (e : Entry V) :
    (t.insert name e).lookup? x = if x = name then some e.value else t.lookup? x := by
  rw [lookup?, find?_insert]
  split <;> rfl

@[simp] theorem lookup?_enterBlock (t : Table V) (x : String) :
    t.enterBlock.lookup? x = t.lookup? x := by
  rw [lookup?, find?_enterBlock, lookup?]

@[simp] theorem lookup?_enterScope (t : Table V) (x : String) (state : Int) :
    (t.enterScope state).lookup? x = t.lookup? x := by
  rw [lookup?, find?_enterScope, lookup?]
  cases t.find? x <;> rfl

@[simp] theorem lookupWithDepth?_insert (t : Table V) (name x : String) (e : Entry V) :
    (t.insert name e).lookupWithDepth? x =
      if x = name then some (e.value, 0) else t.lookupWithDepth? x := by
  rw [lookupWithDepth?, find?_insert]
  split <;> rfl

@[simp] theorem lookupWithDepth?_enterBlock (t : Table V) (x : String) :
    t.enterBlock.lookupWithDepth? x = t.lookupWithDepth? x := by
  rw [lookupWithDepth?, find?_enterBlock, lookupWithDepth?]

@[simp] theorem lookupWithDepth?_enterScope (t : Table V) (x : String) (state : Int) :
    (t.enterScope state).lookupWithDepth? x =
      (t.lookupWithDepth? x).map fun (v, depth) => (v, depth + 1) := by
  rw [lookupWithDepth?, find?_enterScope, lookupWithDepth?]
  cases t.find? x <;> rfl

@[simp] theorem isConst_insert (t : Table V) (name x : String) (e : Entry V) :
    (t.insert name e).isConst x = if x = name then e.constant else t.isConst x := by
  rw [isConst, find?_insert]
  by_cases same : x = name
  · simp [same]
  · simp only [same, ↓reduceIte, isConst]

@[simp] theorem isConst_enterBlock (t : Table V) (x : String) :
    t.enterBlock.isConst x = t.isConst x := by
  rw [isConst, find?_enterBlock, isConst]

@[simp] theorem isConst_enterScope (t : Table V) (x : String) (state : Int) :
    (t.enterScope state).isConst x = t.isConst x := by
  rw [isConst, find?_enterScope, isConst]
  cases t.find? x <;> rfl

@[simp] theorem frames_insert (t : Table V) (name : String) (e : Entry V) :
    (t.insert name e).frames = t.frames := by
  simp [frames, levels, insert, Level.insert, countP_cons]

@[simp] theorem frames_enterBlock (t : Table V) : t.enterBlock.frames = t.frames := by
  simp [frames, levels, enterBlock]

@[simp] theorem frames_enterScope (t : Table V) (state : Int) :
    (t.enterScope state).frames = t.frames + 1 := by
  simp [frames, levels, enterScope]

/-! ## Entries, without their depth -/

/-- What a name is bound to, and whether it is constant. -/
def bound? (t : Table V) (x : String) : Option (Entry V) := (t.find? x).map Prod.fst

theorem lookup?_eq_bound? (t : Table V) (x : String) : t.lookup? x = (t.bound? x).map Entry.value := by
  rw [lookup?, bound?]
  cases t.find? x <;> rfl

theorem isConst_eq_bound? (t : Table V) (x : String) : t.isConst x = (t.bound? x).any Entry.constant := by
  rw [isConst, bound?]
  cases t.find? x <;> rfl

@[simp] theorem bound?_insert (t : Table V) (name x : String) (e : Entry V) :
    (t.insert name e).bound? x = if x = name then some e else t.bound? x := by
  rw [bound?, find?_insert]
  split <;> rfl

@[simp] theorem bound?_enterBlock (t : Table V) (x : String) :
    t.enterBlock.bound? x = t.bound? x := by
  rw [bound?, find?_enterBlock, bound?]

@[simp] theorem bound?_enterScope (t : Table V) (x : String) (state : Int) :
    (t.enterScope state).bound? x = t.bound? x := by
  rw [bound?, find?_enterScope, bound?]
  cases t.find? x <;> rfl

@[simp] theorem declaredHere_insert (t : Table V) (name x : String) (e : Entry V) :
    (t.insert name e).declaredHere x = (decide (x = name) || t.declaredHere x) := by
  simp only [declaredHere, insert, Level.get?_insert]
  by_cases same : x = name <;> simp [same]

@[simp] theorem declaredHere_enterBlock (t : Table V) (x : String) :
    t.enterBlock.declaredHere x = false := rfl

end Table
end Triangle.Scope
