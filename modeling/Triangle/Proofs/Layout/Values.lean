import Mathlib
import Triangle.Proofs.Layout.Types
import Triangle.Proofs.Semantics.Value

/-! Values laid out in words. The words of an array are those of its elements, one after the
other, and the words of a record those of its fields, so that a component stands at a place of its
own that depends on the type only. -/
namespace Triangle

namespace Word

theorem toInt_truncate {n : Int} (lower : -0x8000 ≤ n) (upper : n < 0x8000) :
    (truncate n).toInt = n :=
  Int16.toInt_ofInt_of_le (by omega) (by omega)

theorem ofInt?_eq {n : Int} (lower : -0x8000 ≤ n) (upper : n < 0x8000) :
    ofInt? n = some (.truncate n) := by
  rw [ofInt?, if_pos ⟨by simpa only [least] using lower, by simp only [greatest]; omega⟩, truncate]

theorem truncate_toInt (w : Word) : truncate w.toInt = w := Int16.ofInt_toInt w

theorem le_toInt (w : Word) : -0x8000 ≤ w.toInt := Int16.le_toInt w

theorem toInt_lt (w : Word) : w.toInt < 0x8000 := Int16.toInt_lt w

end Word

/-! ## Parts of lists -/

section
variable {α : Type}

/-- `part` stands in `whole` after `k` elements. -/
def Slice (whole : List α) (k : Nat) (part : List α) : Prop :=
  ∃ before after, whole = before ++ part ++ after ∧ before.length = k

/-- `changed` has `part` after `k` elements, and is `whole` everywhere else. -/
def Replaces (whole : List α) (k : Nat) (part changed : List α) : Prop :=
  ∃ before old after, whole = before ++ old ++ after ∧ before.length = k ∧
    old.length = part.length ∧ changed = before ++ part ++ after

theorem Slice.all (whole : List α) : Slice whole 0 whole := ⟨[], [], by simp, rfl⟩

theorem Slice.bound {whole part : List α} (slice : Slice whole k part) :
    k + part.length ≤ whole.length := by
  obtain ⟨before, after, rfl, rfl⟩ := slice
  simp

theorem Slice.inside {part inner : List α} (slice : Slice part k inner) (before after : List α) :
    Slice (before ++ part ++ after) (before.length + k) inner := by
  obtain ⟨first, last, rfl, rfl⟩ := slice
  exact ⟨before ++ first, last ++ after, by simp, by simp⟩

theorem Slice.trans {whole part inner : List α} (outer : Slice whole j part)
    (slice : Slice part k inner) : Slice whole (j + k) inner := by
  obtain ⟨before, after, rfl, rfl⟩ := outer
  exact slice.inside before after

theorem Slice.append {whole part : List α} (slice : Slice whole k part) (more : List α) :
    Slice (whole ++ more) k part := by
  simpa using slice.inside [] more

theorem Replaces.inside {part inner changed : List α} (replaces : Replaces part k inner changed)
    (before after : List α) :
    Replaces (before ++ part ++ after) (before.length + k) inner (before ++ changed ++ after) := by
  obtain ⟨first, old, last, rfl, rfl, length, rfl⟩ := replaces
  exact ⟨before ++ first, old, last ++ after, by simp, by simp, length, by simp⟩

end

namespace Semantics.Value

/-! ## Words and types of values -/

mutual
def words : Value → List Word
  | bool b => [.ofBool b]
  | int w => [w]
  | char code => [.truncate code]
  | array vs => wordsAll vs
  | record fs => wordsFields fs

def wordsAll : List Value → List Word
  | [] => []
  | v :: vs => v.words ++ wordsAll vs

def wordsFields : List (String × Value) → List Word
  | [] => []
  | (_, v) :: fs => v.words ++ wordsFields fs
end

mutual
/-- The value has the shape of the type, and its characters are words. -/
def HasTy : Value → Ty → Prop
  | bool _, .boolean | int _, .integer => True
  | char code, .char => -0x8000 ≤ code ∧ code < 0x8000
  | array vs, .array length elem => 1 ≤ length ∧ (vs.length : Int) = length ∧ AllHaveTy elem vs
  | record fs, .record types => FieldsHaveTy fs types
  | _, _ => False

def AllHaveTy (elem : Ty) : List Value → Prop
  | [] => True
  | v :: vs => v.HasTy elem ∧ AllHaveTy elem vs

def FieldsHaveTy : List (String × Value) → List (String × Ty) → Prop
  | [], [] => True
  | (x, v) :: fs, (y, t) :: ts => x = y ∧ v.HasTy t ∧ FieldsHaveTy fs ts
  | _, _ => False
end

@[simp] theorem wordsAll_append (vs ws : List Value) :
    wordsAll (vs ++ ws) = wordsAll vs ++ wordsAll ws := by
  induction vs with
  | nil => rfl
  | cons v vs ih => simp [wordsAll, ih]

@[simp] theorem wordsFields_append (fs gs : List (String × Value)) :
    wordsFields (fs ++ gs) = wordsFields fs ++ wordsFields gs := by
  induction fs with
  | nil => rfl
  | cons f fs ih => simp [wordsFields, ih]

theorem allHaveTy_iff {vs : List Value} : AllHaveTy t vs ↔ ∀ v ∈ vs, v.HasTy t := by
  induction vs with
  | nil => simp [AllHaveTy]
  | cons v vs ih => simp [AllHaveTy, ih]

theorem HasTy.bool {v : Value} (typed : v.HasTy .boolean) : ∃ b, v = .bool b := by
  cases v <;> simp_all [HasTy]

theorem HasTy.int {v : Value} (typed : v.HasTy .integer) : ∃ w, v = .int w := by
  cases v <;> simp_all [HasTy]

theorem HasTy.char {v : Value} (typed : v.HasTy .char) :
    ∃ c, v = .char c ∧ -0x8000 ≤ c ∧ c < 0x8000 := by
  cases v <;> simp_all [HasTy]

theorem HasTy.array {v : Value} (typed : v.HasTy (.array length elem)) :
    ∃ vs, v = .array vs ∧ 1 ≤ length ∧ (vs.length : Int) = length ∧ AllHaveTy elem vs := by
  cases v <;> simp_all [HasTy]

theorem HasTy.record {v : Value} (typed : v.HasTy (.record types)) :
    ∃ fs, v = .record fs ∧ FieldsHaveTy fs types := by
  cases v <;> simp_all [HasTy]

mutual
theorem HasTy.isValue : ∀ {v : Value} {t : Ty}, v.HasTy t → t.IsValue
  | bool _, .boolean, _ | int _, .integer, _ | char _, .char, _ => trivial
  | array vs, .array length elem, typed => by
    simp only [HasTy] at typed
    obtain ⟨nonempty, count, elems⟩ := typed
    exact ⟨nonempty, AllHaveTy.isValue (by omega) elems⟩
  | record fs, .record types, typed => FieldsHaveTy.areValues (by simpa only [HasTy] using typed)

theorem AllHaveTy.isValue : ∀ {vs : List Value} {t : Ty}, 1 ≤ vs.length → AllHaveTy t vs →
    t.IsValue
  | _ :: _, _, _, typed => typed.1.isValue

theorem FieldsHaveTy.areValues : ∀ {fs : List (String × Value)} {ts : List (String × Ty)},
    FieldsHaveTy fs ts → Ty.FieldsAreValues ts
  | [], [], _ => trivial
  | (_, v) :: fs, (_, t) :: ts, typed => by
    exact ⟨typed.2.1.isValue, typed.2.2.areValues⟩
end

mutual
theorem HasTy.length : ∀ {v : Value} {t : Ty}, v.HasTy t → v.words.length = t.trueSize
  | bool _, .boolean, _ | int _, .integer, _ | char _, .char, _ => rfl
  | array vs, .array length elem, typed => by
    simp only [HasTy] at typed
    have count : vs.length = length.toNat := by omega
    rw [words, Ty.trueSize, AllHaveTy.length typed.2.2, count]
  | record fs, .record types, typed => by
    simp only [HasTy] at typed
    rw [words, Ty.trueSize, FieldsHaveTy.length typed]

theorem AllHaveTy.length : ∀ {vs : List Value} {t : Ty}, AllHaveTy t vs →
    (wordsAll vs).length = vs.length * t.trueSize
  | [], _, _ => by simp [wordsAll]
  | v :: vs, t, typed => by
    rw [wordsAll, List.length_append, HasTy.length typed.1, AllHaveTy.length typed.2,
      List.length_cons]
    ring

theorem FieldsHaveTy.length : ∀ {fs : List (String × Value)} {ts : List (String × Ty)},
    FieldsHaveTy fs ts → (wordsFields fs).length = Ty.trueFieldsSize ts
  | [], [], _ => rfl
  | (_, v) :: fs, (_, t) :: ts, typed => by
    rw [wordsFields, List.length_append, HasTy.length typed.2.1, FieldsHaveTy.length typed.2.2,
      Ty.trueFieldsSize]
end

/-! ## Sameness and initial values -/

mutual
/-- Values of one type are the same when their words are. -/
theorem same_iff : ∀ {v w : Value} {t : Ty}, v.HasTy t → w.HasTy t →
    (v.same w = true ↔ v.words = w.words)
  | v, w, .boolean, left, right => by
    obtain ⟨a, rfl⟩ := left.bool
    obtain ⟨b, rfl⟩ := right.bool
    cases a <;> cases b <;> decide
  | v, w, .integer, left, right => by
    obtain ⟨a, rfl⟩ := left.int
    obtain ⟨b, rfl⟩ := right.int
    simp [same, words]
  | v, w, .char, left, right => by
    obtain ⟨a, rfl, fitsA⟩ := left.char
    obtain ⟨b, rfl, fitsB⟩ := right.char
    simp only [same, words, beq_iff_eq, List.cons.injEq, and_true]
    exact ⟨fun equal => equal ▸ rfl, fun equal => by
      rw [← Word.toInt_truncate fitsA.1 fitsA.2, equal, Word.toInt_truncate fitsB.1 fitsB.2]⟩
  | .array vs, w, .array length elem, left, right => by
    obtain ⟨ws, rfl, _, count, others⟩ := right.array
    simp only [HasTy] at left
    exact sameAll_iff left.2.2 others (by omega)
  | .record fs, w, .record types, left, right => by
    obtain ⟨gs, rfl, others⟩ := right.record
    exact sameFields_iff left others
  | _, _, .void, left, _ | _, _, .func _ _, left, _ | _, _, .ref _, left, _ => left.isValue.elim

theorem sameAll_iff : ∀ {vs ws : List Value} {t : Ty}, AllHaveTy t vs → AllHaveTy t ws →
    vs.length = ws.length → (sameAll vs ws = true ↔ wordsAll vs = wordsAll ws)
  | [], [], _, _, _, _ => by simp [sameAll]
  | v :: vs, w :: ws, t, left, right, count => by
    have first := same_iff left.1 right.1
    have rest := sameAll_iff left.2 right.2 (by simpa using count)
    rw [sameAll, Bool.and_eq_true, first, rest, wordsAll, wordsAll]
    exact ⟨fun both => by rw [both.1, both.2],
      fun same => List.append_inj same (by rw [left.1.length, right.1.length])⟩

theorem sameFields_iff : ∀ {fs gs : List (String × Value)} {ts : List (String × Ty)},
    FieldsHaveTy fs ts → FieldsHaveTy gs ts →
      (sameFields fs gs = true ↔ wordsFields fs = wordsFields gs)
  | [], gs, [], _, right => by
    cases gs with
    | nil => simp [sameFields]
    | cons => simp [FieldsHaveTy] at right
  | (x, v) :: fs, [], (z, t) :: ts, _, right => by simp [FieldsHaveTy] at right
  | (x, v) :: fs, (y, w) :: gs, (z, t) :: ts, left, right => by
    have first := same_iff left.2.1 right.2.1
    have rest := sameFields_iff left.2.2 right.2.2
    have name : x = y := left.1.trans right.1.symm
    rw [sameFields, Bool.and_eq_true, Bool.and_eq_true, first, rest, wordsFields, wordsFields]
    exact ⟨fun both => by rw [both.1.2, both.2], fun same =>
      have parts := List.append_inj same (by rw [left.2.1.length, right.2.1.length])
      ⟨⟨by simpa using name, parts.1⟩, parts.2⟩⟩
end

mutual
/-- A new variable is cleared. -/
theorem zero_layout : ∀ {t : Ty}, t.IsValue →
    (zero t).HasTy t ∧ (zero t).words = List.replicate t.trueSize 0
  | .boolean, _ | .integer, _ => ⟨trivial, rfl⟩
  | .char, _ => ⟨by simp [zero, HasTy], rfl⟩
  | .array length elem, value => by
    simp only [Ty.IsValue] at value
    obtain ⟨typed, clear⟩ := zero_layout value.2
    have all : ∀ k, wordsAll (List.replicate k (zero elem)) =
        List.replicate (k * elem.trueSize) 0 := by
      intro k
      induction k with
      | zero => simp [wordsAll]
      | succ k ih =>
        rw [List.replicate_succ, wordsAll, ih, clear, List.replicate_append_replicate]
        congr 1
        ring
    refine ⟨⟨value.1, by simp; omega, allHaveTy_iff.mpr ?_⟩, by simp only [zero, words, all, Ty.trueSize]⟩
    intro v member
    rw [List.eq_of_mem_replicate member]
    exact typed
  | .record fields, value => by
    obtain ⟨typed, clear⟩ := zeroFields_layout (by simpa only [Ty.IsValue] using value)
    exact ⟨typed, by simp only [zero, words, clear, Ty.trueSize]⟩

theorem zeroFields_layout : ∀ {ts : List (String × Ty)}, Ty.FieldsAreValues ts →
    FieldsHaveTy (zeroFields ts) ts ∧
      wordsFields (zeroFields ts) = List.replicate (Ty.trueFieldsSize ts) 0
  | [], _ => ⟨trivial, rfl⟩
  | (x, t) :: ts, values => by
    obtain ⟨typed, clear⟩ := zero_layout values.1
    obtain ⟨others, clearRest⟩ := zeroFields_layout values.2
    refine ⟨⟨rfl, typed, others⟩, ?_⟩
    rw [zeroFields, wordsFields, clear, clearRest, List.replicate_append_replicate,
      Ty.trueFieldsSize]
end

/-! ## Components -/

/-- The type of a component, and how far from the start of the whole it stands. -/
def component? : Ty → Selector → Option (Ty × Nat)
  | .array length elem, .index k =>
    if k < length.toNat then some (elem, k * elem.trueSize) else none
  | .record fields, .field name => Ty.fieldAt? name fields
  | _, _ => none

/-- The path leads from a value of type `t` to a component of type `u`, `k` words from its start. -/
def PathTo : (t : Ty) → List Selector → (u : Ty) → (k : Nat) → Prop
  | t, [], u, k => u = t ∧ k = 0
  | t, s :: path, u, k =>
    ∃ inner i j, component? t s = some (inner, i) ∧ PathTo inner path u j ∧ k = i + j

theorem PathTo.snoc {path : List Selector} {inner : Ty} (leads : PathTo t path u k)
    (next : component? u s = some (inner, j)) : PathTo t (path ++ [s]) inner (k + j) := by
  induction path generalizing t k with
  | nil =>
    obtain ⟨rfl, rfl⟩ := leads
    exact ⟨inner, j, 0, next, ⟨rfl, rfl⟩, by omega⟩
  | cons first path ih =>
    obtain ⟨middle, i, l, found, rest, rfl⟩ := leads
    exact ⟨middle, i, l + j, found, ih rest, by omega⟩

/-- An element of an array, with those before and after it. -/
theorem AllHaveTy.split {vs : List Value} (typed : AllHaveTy t vs) (bound : k < vs.length) :
    ∃ l v r, vs = l ++ v :: r ∧ l.length = k ∧ v.HasTy t ∧
      (wordsAll l).length = k * t.trueSize := by
  have all := allHaveTy_iff.mp typed
  refine ⟨vs.take k, vs[k], vs.drop (k + 1), by simp, by simp; omega,
    all _ (List.getElem_mem bound), ?_⟩
  have firsts : AllHaveTy t (vs.take k) :=
    allHaveTy_iff.mpr fun v member => all v (List.mem_of_mem_take member)
  rw [firsts.length, List.length_take, min_eq_left bound.le]

/-- A field of a record, with those before and after it; another value of its type fits there. -/
theorem FieldsHaveTy.split : ∀ {fs : List (String × Value)} {ts : List (String × Ty)} {k : Nat},
    FieldsHaveTy fs ts → Ty.fieldAt? x ts = some (t, k) →
      ∃ l v r, fs = l ++ (x, v) :: r ∧ (∀ f ∈ l, f.1 ≠ x) ∧ v.HasTy t ∧
        (wordsFields l).length = k ∧
        ∀ w : Value, w.HasTy t → FieldsHaveTy (l ++ (x, w) :: r) ts
  | [], [], _, _, found => by simp [Ty.fieldAt?] at found
  | (y, v) :: fs, (z, u) :: ts, k, typed, found => by
    obtain ⟨rfl, first, others⟩ := typed
    simp only [Ty.fieldAt?] at found
    split at found
    · rename_i same
      cases found
      subst same
      exact ⟨[], v, fs, rfl, by simp, first, rfl, fun w fits => ⟨rfl, fits, others⟩⟩
    · rename_i other
      obtain ⟨⟨t', j⟩, inner, same⟩ := Option.map_eq_some_iff.mp found
      obtain ⟨rfl, rfl⟩ := same
      obtain ⟨l, w, r, rfl, before, fits, count, replace⟩ := FieldsHaveTy.split others inner
      refine ⟨(y, v) :: l, w, r, rfl, ?_, fits, ?_, fun w' fits' => ⟨rfl, first, replace w' fits'⟩⟩
      · simpa [other] using before
      · rw [wordsFields, List.length_append, first.length, count]

theorem lookup_split {l r : List (String × α)} (before : ∀ f ∈ l, f.1 ≠ x) :
    (l ++ (x, v) :: r).lookup x = some v := by
  induction l with
  | nil => simp
  | cons f l ih =>
    obtain ⟨y, w⟩ := f
    simp only [List.mem_cons, forall_eq_or_imp] at before
    have other : (x == y) = false := by simpa using Ne.symm before.1
    simp [List.lookup_cons, other, ih before.2]

theorem modifyField_split {l r : List (String × Value)} (before : ∀ f ∈ l, f.1 ≠ x)
    (f : Value → Value) :
    modifyField x f (l ++ (x, v) :: r) = l ++ (x, f v) :: r := by
  induction l with
  | nil => simp [modifyField]
  | cons g l ih =>
    obtain ⟨y, w⟩ := g
    simp only [List.mem_cons, forall_eq_or_imp] at before
    simp [modifyField, Ne.symm before.1, ih before.2]

/-- One step into a value: the component, its words inside those of the whole, and the whole
with another component. -/
theorem HasTy.step {v : Value} (typed : v.HasTy t) (found : component? t s = some (u, k)) :
    ∃ (w : Value) (before after : List Word), w.HasTy u ∧ before.length = k ∧
      v.words = before ++ w.words ++ after ∧
      (∀ path, v.get? (s :: path) = w.get? path) ∧
      ∀ new path, (set new path w).HasTy u → (set new (s :: path) v).HasTy t ∧
        (set new (s :: path) v).words = before ++ (set new path w).words ++ after := by
  cases t with
  | array length elem =>
    cases s with
    | field => simp [component?] at found
    | index i =>
      simp only [component?, Option.ite_none_right_eq_some, Option.some.injEq,
        Prod.mk.injEq] at found
      obtain ⟨inside, rfl, rfl⟩ := found
      obtain ⟨vs, rfl, nonempty, count, all⟩ := typed.array
      obtain ⟨l, w, r, rfl, rfl, fits, distance⟩ := all.split (by omega : i < vs.length)
      refine ⟨w, wordsAll l, wordsAll r, fits, distance, by simp [words, wordsAll],
        fun path => by simp [get?], fun new path changed => ?_⟩
      have modified : (l ++ w :: r).modify l.length (set new path) = l ++ set new path w :: r := by
        simp [List.modify_eq_take_drop, List.modifyHead]
      rw [set, modified]
      refine ⟨⟨nonempty, by simpa using count, ?_⟩, by simp [words, wordsAll]⟩
      rw [allHaveTy_iff] at all ⊢
      intro x member
      rcases List.mem_append.mp member with first | rest
      · exact all x (by simp [first])
      · rcases List.mem_cons.mp rest with rfl | later
        · exact changed
        · exact all x (by simp [later])
  | record fields =>
    cases s with
    | index => simp [component?] at found
    | field x =>
      obtain ⟨fs, rfl, all⟩ := typed.record
      obtain ⟨l, w, r, rfl, before, fits, distance, replace⟩ := all.split found
      refine ⟨w, wordsFields l, wordsFields r, fits, distance, by simp [words, wordsFields],
        fun path => by simp [get?, lookup_split before], fun new path changed => ?_⟩
      rw [set, modifyField_split before]
      exact ⟨replace _ changed, by simp [words, wordsFields]⟩
  | _ => simp [component?] at found

theorem HasTy.get {v : Value} {path : List Selector} (typed : v.HasTy t)
    (leads : PathTo t path u k) :
    ∃ w, v.get? path = some w ∧ w.HasTy u ∧ Slice v.words k w.words := by
  induction path generalizing v t k with
  | nil =>
    obtain ⟨rfl, rfl⟩ := leads
    exact ⟨v, rfl, typed, .all _⟩
  | cons s path ih =>
    obtain ⟨inner, i, j, found, rest, rfl⟩ := leads
    obtain ⟨w, before, after, fits, rfl, split, get, _⟩ := typed.step found
    obtain ⟨x, same, kind, slice⟩ := ih fits rest
    refine ⟨x, (get path).trans same, kind, ?_⟩
    rw [split]
    exact slice.inside before after

theorem HasTy.set {v new : Value} {path : List Selector} (typed : v.HasTy t)
    (leads : PathTo t path u k) (fits : new.HasTy u) :
    (Value.set new path v).HasTy t ∧
      Replaces v.words k new.words (Value.set new path v).words := by
  induction path generalizing v t k with
  | nil =>
    obtain ⟨rfl, rfl⟩ := leads
    exact ⟨fits, [], v.words, [], by simp, rfl, by rw [typed.length, fits.length],
      by simp [Value.set]⟩
  | cons s path ih =>
    obtain ⟨inner, i, j, found, rest, rfl⟩ := leads
    obtain ⟨w, before, after, kind, rfl, split, _, change⟩ := typed.step found
    obtain ⟨changed, replaced⟩ := ih kind rest
    obtain ⟨whole, split'⟩ := change new path changed
    refine ⟨whole, ?_⟩
    rw [split, split']
    exact replaced.inside before after

end Semantics.Value
end Triangle
