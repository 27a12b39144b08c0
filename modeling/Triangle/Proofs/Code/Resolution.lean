import Mathlib
import Triangle.Proofs.Placement
import Triangle.Proofs.Scope

/-! When symbolic code can be resolved: its labels are distinct, it fits the code store, and each of
its instructions fits once its target has an address. -/
namespace Triangle.Code
open List

/-- The labels of the code, in order. -/
def labelNames (items : List Item) : List String :=
  items.filterMap fun
    | .label name => some name
    | .op _ _ => none

@[simp] theorem labelNames_nil : labelNames [] = [] := rfl

@[simp] theorem labelNames_label (name : String) (items : List Item) :
    labelNames (.label name :: items) = name :: labelNames items := rfl

@[simp] theorem labelNames_op (ins : Instruction) (target : Option String) (items : List Item) :
    labelNames (.op ins target :: items) = labelNames items := rfl

@[simp] theorem labelNames_append (xs ys : List Item) :
    labelNames (xs ++ ys) = labelNames xs ++ labelNames ys := filterMap_append

theorem mem_labelNames {name : String} {items : List Item} :
    name ∈ labelNames items ↔ .label name ∈ items := by
  constructor
  · intro member
    obtain ⟨item, inside, same⟩ := mem_filterMap.mp member
    cases item <;> cases same
    exact inside
  · intro member
    exact mem_filterMap.mpr ⟨_, member, rfl⟩

@[simp] theorem span_label (name : String) (items : List Item) :
    span (.label name :: items) = span items := by
  simp [span, Item.emitted]

theorem span_op {ins : Instruction} (target : Option String) (items : List Item) :
    span (.op ins target :: items) = (if redundant ins then 0 else 1) + span items := by
  by_cases idle : redundant ins
  · simp [span, Item.emitted, idle]
  · simp [span, Item.emitted, idle, Nat.add_comm]

/-- The instruction fits when its target stands near the start of the code. -/
def Fitting (ins : Instruction) : Option String → Prop
  | none => ins.validate = .ok ()
  | some _ => ({ ins with r := .CB, d := 0 } : Instruction).validate = .ok ()

/-- The item can be resolved where these labels are known. -/
def Item.Fine (names : List String) : Item → Prop
  | .label _ => True
  | .op ins target => redundant ins = false → Fitting ins target ∧ ∀ name ∈ target, name ∈ names

structure Resolvable (items : List Item) : Prop where
  distinct : (labelNames items).Nodup
  small : span items ≤ codeSize
  fine : ∀ item ∈ items, item.Fine (labelNames items)

variable {items : List Item} {code : List Instruction} {labels known : List (String × Nat)}
  {a count : Nat}

/-! ## What resolution needs -/

/-- An address in the code store is as good as any other. -/
theorem validate_aimed (ins : Instruction) {x : Nat} (small : x ≤ codeSize) :
    ({ ins with r := .CB, d := x } : Instruction).validate =
      ({ ins with r := .CB, d := 0 } : Instruction).validate := by
  have inside : ¬((x : Int) < Instruction.minDisplacement ∨ Instruction.maxDisplacement < x) := by
    simp only [codeSize, Instruction.minDisplacement, Instruction.maxDisplacement] at small ⊢
    omega
  have zero : ¬((0 : Int) < Instruction.minDisplacement ∨ Instruction.maxDisplacement < 0) := by decide
  cases ins.op <;> simp only [Instruction.validate, inside, zero, if_false]

theorem place_names (placed : place known a items = .ok (labels, count)) :
    labels.map Prod.fst = (labelNames items).reverse ++ known.map Prod.fst ∧
      ((known.map Prod.fst).Nodup → (labels.map Prod.fst).Nodup) := by
  induction items generalizing known a with
  | nil =>
    cases placed
    exact ⟨rfl, id⟩
  | cons item items ih =>
    cases item with
    | label name =>
      simp only [place] at placed
      split at placed
      · cases placed
      · rename_i fresh
        obtain ⟨names, distinct⟩ := ih placed
        refine ⟨by simp [names], fun before => distinct ?_⟩
        have missing : name ∉ known.map Prod.fst := by
          intro member
          obtain ⟨entry, inside, rfl⟩ := mem_map.mp member
          simp only [Option.not_isSome_iff_eq_none, lookup_eq_none_iff] at fresh
          simpa using fresh entry inside
        simpa [missing] using before
    | op ins target => exact ih placed

/-- A label stands before the end of the code. -/
theorem place_bound (placed : place known a items = .ok (labels, count)) {name : String} {x : Nat}
    (found : labels.lookup name = some x) : known.lookup name = some x ∨ x ≤ count := by
  induction items generalizing known a with
  | nil =>
    cases placed
    exact .inl found
  | cons item items ih =>
    have reached := (place_sound placed).1
    cases item with
    | label other =>
      simp only [place] at placed
      split at placed
      · cases placed
      · rcases ih placed with before | later
        · rw [lookup_cons] at before
          split at before
          · cases before
            exact .inr (by omega)
          · exact .inl before
        · exact .inr later
    | op ins target => exact ih placed

theorem resolve_place (resolved : resolve items = .ok code) :
    ∃ labels, place [] 0 items = .ok (labels, span items) ∧ span items ≤ codeSize ∧
      emit labels 0 items = .ok code := by
  simp only [resolve, addresses] at resolved
  cases placed : place [] 0 items with
  | error fault => simp [placed] at resolved
  | ok result =>
    obtain ⟨labels, count⟩ := result
    simp only [placed] at resolved
    obtain rfl : count = span items := by simpa using (place_sound placed).1
    by_cases large : codeSize < span items
    · simp [large] at resolved
    · exact ⟨labels, rfl, Nat.not_lt.mp large, by simpa [large] using resolved⟩

/-- Resolved code has every item in its place, and nothing else. -/
theorem resolve_laid (resolved : resolve items = .ok code) :
    code.length = span items ∧ ∃ labels, Placed labels code 0 items := by
  obtain ⟨labels, placed, _, emitted⟩ := resolve_place resolved
  exact ⟨emit_length emitted, labels, placed_of_emit placed emitted length_nil⟩

theorem resolvable_of_resolve (resolved : resolve items = .ok code) : Resolvable items := by
  obtain ⟨labels, placed, small, emitted⟩ := resolve_place resolved
  obtain ⟨names, distinct⟩ := place_names placed
  have laid : Placed labels code 0 items := placed_of_emit placed emitted length_nil
  simp only [map_nil, append_nil] at names distinct
  refine ⟨?_, small, fun item member => ?_⟩
  · rw [← nodup_reverse, ← names]
    exact distinct nodup_nil
  · cases item with
    | label name => trivial
    | op ins target =>
      intro active
      obtain ⟨before, after, rfl⟩ := append_of_mem member
      have here := (placed_append.mp laid).2
      simp only [Placed, active, Bool.false_eq_true, if_false] at here
      obtain ⟨⟨i, same, valid, _⟩, _⟩ := here
      cases target with
      | none =>
        cases same
        exact ⟨valid, by simp⟩
      | some name =>
        simp only [substitute] at same
        split at same
        · cases same
        · rename_i x found
          cases same
          have bound := (place_bound placed found).resolve_left (by simp)
          refine ⟨(validate_aimed ins (bound.trans small)).symm.trans valid, ?_⟩
          intro other isName
          cases isName
          rw [← mem_reverse, ← names]
          exact mem_map.mpr ⟨_, Scope.mem_of_lookup found, rfl⟩

/-! ## What is enough -/

theorem place_of_nodup (distinct : (labelNames items).Nodup)
    (fresh : ∀ name ∈ labelNames items, known.lookup name = none) :
    ∃ labels, place known a items = .ok (labels, a + span items) := by
  induction items generalizing known a with
  | nil => exact ⟨known, by simp [place]⟩
  | cons item items ih =>
    cases item with
    | label name =>
      obtain ⟨missing, distinct⟩ := nodup_cons.mp distinct
      have free : known.lookup name = none := fresh name (by simp)
      obtain ⟨labels, placed⟩ := @ih ((name, a) :: known) a distinct fun other member => by
        have differs : (other == name) = false := by
          rw [beq_eq_false_iff_ne]
          rintro rfl
          exact missing member
        simpa [lookup_cons, differs] using fresh other (by simp [member])
      exact ⟨labels, by simpa [place, free] using placed⟩
    | op ins target =>
      obtain ⟨labels, placed⟩ := @ih known (if redundant ins then a else a + 1) distinct fresh
      refine ⟨labels, ?_⟩
      rw [place, placed, span_op]
      cases redundant ins <;> simp [Nat.add_assoc]

theorem emit_of_fine {names : List String} {index : Nat}
    (defined : ∀ name ∈ names, ∃ x ≤ codeSize, labels.lookup name = some x)
    (fine : ∀ item ∈ items, item.Fine names) : ∃ out, emit labels index items = .ok out := by
  induction items generalizing index with
  | nil => exact ⟨[], rfl⟩
  | cons item items ih =>
    obtain ⟨first, rest⟩ := forall_mem_cons.mp fine
    cases item with
    | label name => exact ih rest
    | op ins target =>
      by_cases idle : redundant ins
      · simpa [emit, idle] using ih rest
      · obtain ⟨fits, known⟩ := first (by simpa using idle)
        obtain ⟨out, more⟩ := @ih (index + 1) rest
        obtain ⟨i, same, valid⟩ : ∃ i, substitute labels ins target = .ok i ∧ i.validate = .ok () := by
          cases target with
          | none => exact ⟨ins, rfl, fits⟩
          | some name =>
            obtain ⟨x, small, found⟩ := defined name (known name rfl)
            exact ⟨_, by simp [substitute, found], (validate_aimed ins small).trans fits⟩
        exact ⟨i :: out, by simp [emit, idle, same, valid, more]⟩

theorem Resolvable.resolves (resolvable : Resolvable items) : ∃ code, resolve items = .ok code := by
  obtain ⟨labels, placed⟩ : ∃ labels, place [] 0 items = .ok (labels, 0 + span items) :=
    place_of_nodup resolvable.distinct (by simp)
  rw [Nat.zero_add] at placed
  obtain ⟨names, -⟩ := place_names placed
  have defined : ∀ name ∈ labelNames items, ∃ x ≤ codeSize, labels.lookup name = some x := by
    intro name member
    have inside : name ∈ labels.map Prod.fst := by simpa [names] using member
    obtain ⟨x, found⟩ : ∃ x, labels.lookup name = some x := by
      cases found : labels.lookup name with
      | some x => exact ⟨x, rfl⟩
      | none =>
        obtain ⟨entry, here, rfl⟩ := mem_map.mp inside
        simpa using lookup_eq_none_iff.mp found entry here
    have bound := (place_bound placed found).resolve_left (by simp)
    exact ⟨x, bound.trans resolvable.small, found⟩
  obtain ⟨code, emitted⟩ : ∃ code, emit labels 0 items = .ok code := emit_of_fine defined resolvable.fine
  refine ⟨code, ?_⟩
  simp [resolve, addresses, placed, Nat.not_lt.mpr resolvable.small, emitted]

/-- Where a label stands. -/
theorem Placed.label {name : String} {before after : List Item}
    (placed : Placed labels code 0 (before ++ .label name :: after)) :
    labels.lookup name = some (span before) := by
  have here := (placed_append.mp placed).2
  simpa [Placed] using here.1

/-- What stands in the code where an item is. -/
theorem Placed.item {ins : Instruction} {target : Option String} {before after : List Item}
    (placed : Placed labels code 0 (before ++ .op ins target :: after))
    (active : redundant ins = false) :
    ∃ i, substitute labels ins target = .ok i ∧ i.validate = .ok () ∧
      code[span before]? = some i := by
  have here := (placed_append.mp placed).2
  simp only [Placed, active, Bool.false_eq_true, if_false, Nat.zero_add] at here
  exact here.1

end Triangle.Code
