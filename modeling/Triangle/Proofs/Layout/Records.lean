import Mathlib
import Triangle.Proofs.Layout.Types

/-! Records in their one form. The order in which fields are given does not matter: what their names
and types are decides sameness, size and the place of every field. Fields lie side by side: each word
of a record belongs to exactly one of them, if no size is negative and none wraps around. -/
namespace Triangle.Ty
open List

variable {fs gs : List (String × Ty)} {name : String} {t u : Ty} {k : Int}

/-- The type of a record's field and its offset. -/
def member? : Ty → String → Option (Ty × Int)
  | record fields, name => field? name 0 fields
  | _, _ => none

/-- Fields in the order of their names. -/
def sorted (fields : List (String × Ty)) : List (String × Ty) :=
  fields.mergeSort fun f g => !decide (g.1 < f.1)

theorem perm_sorted : (sorted fs).Perm fs := mergeSort_perm fs _

theorem pairwise_sorted (fs : List (String × Ty)) : (sorted fs).Pairwise fun f g => f.1 ≤ g.1 := by
  have below (f g : String × Ty) : (!decide (g.1 < f.1)) = true ↔ f.1 ≤ g.1 := by
    rw [Bool.not_eq_true', decide_eq_false_iff_not, String.not_lt]
  refine (pairwise_mergeSort ?_ ?_ fs).imp fun {f g} => (below f g).mp
  · intro f g h
    simpa only [below] using String.le_trans
  · intro f g
    simpa only [Bool.or_eq_true, below] using String.le_total f.1 g.1

/-- Fields with the same names and types have one order. -/
theorem sorted_eq_of_perm (distinct : (fs.map Prod.fst).Nodup) (perm : fs.Perm gs) :
    sorted fs = sorted gs := by
  refine (perm_sorted.trans (perm.trans perm_sorted.symm)).eq_of_pairwise ?_ (pairwise_sorted fs)
    (pairwise_sorted gs)
  intro f g inside inside' below above
  have same : f.1 = g.1 := String.le_antisymm below above
  exact inj_on_of_nodup_map distinct (perm_sorted.mem_iff.mp inside)
    (perm.mem_iff.mpr (perm_sorted.mem_iff.mp inside')) same

/-- Where no name occurs twice, lists with the same names and types are the same up to order. -/
theorem perm_iff (distinct : (fs.map Prod.fst).Nodup) (distinct' : (gs.map Prod.fst).Nodup) :
    fs.Perm gs ↔ (∀ name, name ∈ fs.map Prod.fst ↔ name ∈ gs.map Prod.fst) ∧
      ∀ name t u, (name, t) ∈ fs → (name, u) ∈ gs → t = u := by
  constructor
  · intro perm
    refine ⟨fun name => (perm.map Prod.fst).mem_iff, fun name t u left right => ?_⟩
    have same := inj_on_of_nodup_map distinct' (perm.mem_iff.mp left) right rfl
    exact congrArg Prod.snd same
  · rintro ⟨names, types⟩
    refine (perm_ext_iff_of_nodup distinct.of_map distinct'.of_map).mpr fun f => ?_
    constructor
    · intro inside
      obtain ⟨g, inside', same⟩ := mem_map.mp ((names f.1).mp (mem_map_of_mem inside))
      have type := types f.1 f.2 g.2 inside (by rw [← same]; exact inside')
      rwa [show f = g from Prod.ext same.symm type]
    · intro inside
      obtain ⟨g, inside', same⟩ := mem_map.mp ((names f.1).mpr (mem_map_of_mem inside))
      have type := types f.1 g.2 f.2 (by rw [← same]; exact inside') inside
      rwa [show f = g from Prod.ext same.symm type.symm]

/-! ## Offsets -/

/-- No size is negative, and those of all fields from the offset on stay below the limit. -/
structure Spaced (offset : Int) (fs : List (String × Ty)) : Prop where
  low : 0 ≤ offset
  natural : ∀ f ∈ fs, 0 ≤ f.2.size
  fits : offset + (fs.map fun f => f.2.size).sum < 0x8000000000000000

variable {offset : Int}

theorem Spaced.next (spaced : Spaced offset ((name, u) :: fs)) :
    0 ≤ u.size ∧ wrap64 (offset + u.size) = offset + u.size ∧ Spaced (offset + u.size) fs := by
  obtain ⟨low, natural, fits⟩ := spaced
  obtain ⟨first, rest⟩ := forall_mem_cons.mp natural
  simp only [map_cons, sum_cons] at first fits
  have sum : 0 ≤ (fs.map fun f => f.2.size).sum := by
    apply sum_nonneg
    intro size inside
    obtain ⟨f, member, rfl⟩ := mem_map.mp inside
    exact rest f member
  exact ⟨first, wrap64_eq (by omega) (by omega), by omega, rest, by omega⟩

theorem mem_of_field? (found : field? name offset fs = some (t, k)) : (name, t) ∈ fs := by
  induction fs generalizing offset with
  | nil => cases found
  | cons f fs ih =>
    obtain ⟨n, u⟩ := f
    rw [field?] at found
    split at found
    · cases found
      simp [*]
    · exact mem_cons_of_mem _ (ih found)

theorem Spaced.le_fieldsSize (spaced : Spaced offset fs) : offset ≤ fieldsSize offset fs := by
  induction fs generalizing offset with
  | nil => exact le_rfl
  | cons f fs ih =>
    obtain ⟨first, exact, rest⟩ := spaced.next
    rw [fieldsSize, exact]
    exact le_trans (by omega) (ih rest)

/-- A field lies between the offset from which the fields start and their end. -/
theorem Spaced.bounds (spaced : Spaced offset fs) (found : field? name offset fs = some (t, k)) :
    offset ≤ k ∧ k + t.size ≤ fieldsSize offset fs := by
  induction fs generalizing offset with
  | nil => cases found
  | cons f fs ih =>
    obtain ⟨n, u⟩ := f
    obtain ⟨first, exact, rest⟩ := spaced.next
    rw [field?, exact] at found
    rw [fieldsSize, exact]
    split at found
    · cases found
      exact ⟨le_rfl, rest.le_fieldsSize⟩
    · obtain ⟨after, before⟩ := ih rest found
      exact ⟨by omega, before⟩

/-- The field called `name` takes the word. -/
def Takes (fs : List (String × Ty)) (offset : Int) (name : String) (word : Int) : Prop :=
  ∃ t k, field? name offset fs = some (t, k) ∧ k ≤ word ∧ word < k + t.size

variable {word : Int}

theorem Spaced.taken_iff (spaced : Spaced offset fs) (distinct : (fs.map Prod.fst).Nodup) :
    (∃ name, Takes fs offset name word) ↔ offset ≤ word ∧ word < fieldsSize offset fs := by
  constructor
  · rintro ⟨name, t, k, found, after, before⟩
    obtain ⟨low, high⟩ := spaced.bounds found
    exact ⟨by omega, by omega⟩
  · rintro ⟨low, high⟩
    induction fs generalizing offset with
    | nil => exact absurd high (by simpa [fieldsSize] using low)
    | cons f fs ih =>
      obtain ⟨n, u⟩ := f
      obtain ⟨first, exact, rest⟩ := spaced.next
      obtain ⟨fresh, distinct⟩ := nodup_cons.mp distinct
      by_cases here : word < offset + u.size
      · exact ⟨n, u, offset, by simp [field?], low, here⟩
      · rw [fieldsSize, exact] at high
        obtain ⟨name, t, k, found, inside⟩ := ih rest distinct (by omega) high
        have other : n ≠ name := by
          rintro rfl
          exact fresh (mem_map.mpr ⟨_, mem_of_field? found, rfl⟩)
        exact ⟨name, t, k, by rw [field?, if_neg other, exact, found], inside⟩

theorem Spaced.apart (spaced : Spaced offset fs) {name' : String} (left : Takes fs offset name word)
    (right : Takes fs offset name' word) : name = name' := by
  induction fs generalizing offset with
  | nil =>
    obtain ⟨t, k, found, -⟩ := left
    cases found
  | cons f fs ih =>
    obtain ⟨n, u⟩ := f
    obtain ⟨first, exact, rest⟩ := spaced.next
    obtain ⟨t, k, found, after, before⟩ := left
    obtain ⟨t', k', found', after', before'⟩ := right
    rw [field?, exact] at found found'
    split at found <;> split at found'
    · simp_all
    · cases found
      have := (rest.bounds found').1
      omega
    · cases found'
      have := (rest.bounds found).1
      omega
    · exact ih rest ⟨t, k, found, after, before⟩ ⟨t', k', found', after', before'⟩

/-- Whether two records are the same, their sizes and the places of their fields depend on the names
and types of the fields alone. If no field has a negative size and the sizes do not exceed 64 bits, the
words of a record are divided among its fields. Sameness is an equivalence. -/
theorem records_canonical (distinct : (fs.map Prod.fst).Nodup) (distinct' : (gs.map Prod.fst).Nodup) :
    ((ofFields fs).identical (ofFields gs) = true ↔
      (∀ name, name ∈ fs.map Prod.fst ↔ name ∈ gs.map Prod.fst) ∧
        ∀ name t u, (name, t) ∈ fs → (name, u) ∈ gs → t.identical u = true) ∧
    ((ofFields fs).identical (ofFields gs) = true →
      (ofFields fs).size = (ofFields gs).size ∧
        ∀ name, (ofFields fs).member? name = (ofFields gs).member? name) ∧
    ((∀ f ∈ fs, 0 ≤ f.2.size) → (fs.map fun f => f.2.size).sum < 0x8000000000000000 →
      (∀ word, (∃ name t k, (ofFields fs).member? name = some (t, k) ∧ k ≤ word ∧ word < k + t.size) ↔
        0 ≤ word ∧ word < (ofFields fs).size) ∧
      ∀ word name name' t t' k k', (ofFields fs).member? name = some (t, k) →
        (ofFields fs).member? name' = some (t', k') → k ≤ word ∧ word < k + t.size →
        k' ≤ word ∧ word < k' + t'.size → name = name') ∧
    Equivalence fun t u : Ty => t.identical u = true := by
  have sort (fs : List (String × Ty)) : ofFields fs = record (sorted fs) := rfl
  refine ⟨?_, ?_, ?_, ?_⟩
  · simp only [identical_iff, sort, record.injEq, ← perm_iff distinct distinct']
    refine ⟨fun same => ?_, sorted_eq_of_perm distinct⟩
    exact (same ▸ perm_sorted.symm : fs.Perm (sorted gs)).trans perm_sorted
  · intro same
    rw [identical_iff.mp same]
    exact ⟨rfl, fun _ => rfl⟩
  · intro natural fits
    have sum : ((sorted fs).map fun f => f.2.size).sum = (fs.map fun f => f.2.size).sum :=
      (perm_sorted.map _).sum_eq
    have spaced : Spaced 0 (sorted fs) :=
      ⟨le_rfl, fun f inside => natural f (perm_sorted.mem_iff.mp inside), by simpa [sum] using fits⟩
    have once : ((sorted fs).map Prod.fst).Nodup := (perm_sorted.map _).nodup_iff.mpr distinct
    rw [sort, size]
    refine ⟨fun word => spaced.taken_iff once, ?_⟩
    intro word name name' t t' k k' found found' inside inside'
    exact spaced.apart ⟨t, k, found, inside⟩ ⟨t', k', found', inside'⟩
  · refine ⟨identical_self, fun same => ?_, fun first second => ?_⟩
    · exact identical_iff.mpr (identical_iff.mp same).symm
    · exact identical_iff.mpr ((identical_iff.mp first).trans (identical_iff.mp second))

/-- Two orders of the fields of a record that has an array in it. -/
theorem pair_canonical :
    (ofFields [("b", integer), ("a", array 3 char)]).size = 4 ∧
      (ofFields [("b", integer), ("a", array 3 char)]).member? "b" = some (integer, 3) ∧
      (ofFields [("b", integer), ("a", array 3 char)]).identical
        (ofFields [("a", array 3 char), ("b", integer)]) = true ∧
      ∀ word, (∃ name t k, (ofFields [("b", integer), ("a", array 3 char)]).member? name = some (t, k) ∧
        k ≤ word ∧ word < k + t.size) ↔ 0 ≤ word ∧ word < 4 := by
  have canonical := @records_canonical [("b", integer), ("a", array 3 char)]
    [("a", array 3 char), ("b", integer)] (by simp) (by simp)
  have size : (ofFields [("b", integer), ("a", array 3 char)]).size = 4 := by cbv
  refine ⟨size, by cbv, by cbv, ?_⟩
  rw [← size]
  exact (canonical.2.2.1 (by simp [Ty.size, wrap64]) (by simp [Ty.size, wrap64])).1

/-- A field of negative size puts the next one before the start of the record. -/
theorem negative_size_spills :
    ([("a", array (-1) integer), ("b", integer)].map Prod.fst).Nodup ∧
      (array (-1) integer).size = -1 ∧
      (ofFields [("a", array (-1) integer), ("b", integer)]).size = 0 ∧
      (ofFields [("a", array (-1) integer), ("b", integer)]).member? "b" = some (integer, -1) ∧
      ¬∀ word, (∃ name t k,
        (ofFields [("a", array (-1) integer), ("b", integer)]).member? name = some (t, k) ∧
          k ≤ word ∧ word < k + t.size) ↔
        0 ≤ word ∧ word < (ofFields [("a", array (-1) integer), ("b", integer)]).size := by
  have found : (ofFields [("a", array (-1) integer), ("b", integer)]).member? "b" =
      some (integer, -1) := by cbv
  refine ⟨by simp, by decide, by cbv, found, fun covers => ?_⟩
  have inside := (covers (-1)).mp ⟨"b", integer, -1, found, le_rfl, by decide⟩
  exact absurd inside.1 (by decide)

end Triangle.Ty
