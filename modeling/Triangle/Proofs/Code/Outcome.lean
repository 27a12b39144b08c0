import Mathlib
import Triangle.Proofs.Code.Resolution

/-! The outcome of resolution, for all symbolic code. A label that occurs again comes before code
that is too large, and that before the first instruction whose target is missing or which does not
fit. Otherwise each instruction is there, with the address of its target. -/
namespace Triangle.Code
open List

/-- The items that resolution keeps. It leaves out the labels and the instructions that move the stack
by nothing: `PUSH 0` and, for every count, `POP(n) 0`. -/
def remaining (items : List Item) : List Item :=
  items.filter fun
    | .label _ => false
    | .op ins _ => ¬((ins.op = .push ∨ ins.op = .pop) ∧ ins.d = 0)

/-- The label stands in front of the instruction with this address. -/
def Marks (items : List Item) (name : String) (address : Nat) : Prop :=
  ∃ before after, items = before ++ .label name :: after ∧ address = (remaining before).length

/-- Labels that differ, in code that fits the code store. -/
structure Orderly (items : List Item) : Prop where
  distinct : (labelNames items).Nodup
  small : (remaining items).length ≤ codeSize

/-- Why labels have no addresses. -/
inductive Disorder (items : List Item) : ResolveFault → Prop
  /-- The first label that occurs again. -/
  | duplicate {before after : List Item} {name : String}
      (split : items = before ++ .label name :: after) (distinct : (labelNames before).Nodup)
      (again : name ∈ labelNames before) : Disorder items (.duplicateLabel name)
  | tooLarge (distinct : (labelNames items).Nodup) (large : codeSize < (remaining items).length) :
      Disorder items (.tooLarge (remaining items).length)

/-- The instruction that an item stands for. -/
inductive Denotes (items : List Item) : Item → Instruction → Prop
  | plain (ins : Instruction) : Denotes items (.op ins none) ins
  | aimed {ins : Instruction} {name : String} {address : Nat} (marks : Marks items name address) :
      Denotes items (.op ins (some name)) { ins with r := .CB, d := address }

/-- The item stands for an instruction that fits. -/
def Resolves (items : List Item) (item : Item) (ins : Instruction) : Prop :=
  Denotes items item ins ∧ ins.validate = .ok ()

/-- Why an item, the one with this number, is no instruction. -/
inductive Refused (items : List Item) (index : Nat) : Item → ResolveFault → Prop
  | undefined {ins : Instruction} {name : String} (nowhere : ∀ address, ¬Marks items name address) :
      Refused items index (.op ins (some name)) (.undefinedLabel (.op ins (some name)) name)
  | invalid {item : Item} {ins : Instruction} {fault : Instruction.Fault}
      (denotes : Denotes items item ins) (misfit : ins.validate = .error fault) :
      Refused items index item (.invalid index fault)

inductive Outcome (items : List Item) : Except ResolveFault (List Instruction) → Prop
  | disorder {fault : ResolveFault} (cause : Disorder items fault) : Outcome items (.error fault)
  /-- The first item that is no instruction. -/
  | refused {before after : List Item} {item : Item} {done : List Instruction} {fault : ResolveFault}
      (orderly : Orderly items) (split : remaining items = before ++ item :: after)
      (resolve : List.Forall₂ (Resolves items) before done)
      (refused : Refused items before.length item fault) : Outcome items (.error fault)
  | resolved {code : List Instruction} (orderly : Orderly items)
      (resolve : List.Forall₂ (Resolves items) (remaining items) code) : Outcome items (.ok code)

variable {items whole : List Item} {labels known : List (String × Nat)} {a count index : Nat}
  {fault : ResolveFault} {name : String}

theorem remaining_eq (items : List Item) : remaining items = items.filter Item.emitted := by
  refine filter_congr fun item _ => ?_
  cases item with
  | label name => rfl
  | op ins target =>
    rw [Bool.eq_iff_iff]
    cases op : ins.op <;> simp [Item.emitted, redundant, op]

@[simp] theorem length_remaining (items : List Item) : (remaining items).length = span items := by
  rw [remaining_eq]
  exact countP_eq_length_filter.symm

/-! ## Labels -/

theorem place_append (xs ys : List Item) :
    place known a (xs ++ ys) = (place known a xs).bind fun (labels, next) => place labels next ys := by
  induction xs generalizing known a with
  | nil => rfl
  | cons item xs ih =>
    cases item with
    | label name =>
      simp only [cons_append, place]
      split
      · rfl
      · exact ih
    | op ins target => exact ih

/-- Labels stay distinct up to one that occurs again. -/
theorem exists_duplicate (repeated : ¬(labelNames items).Nodup) :
    ∃ before after name, items = before ++ .label name :: after ∧ (labelNames before).Nodup ∧
      name ∈ labelNames before := by
  induction items using reverseRecOn with
  | nil => simp at repeated
  | append_singleton items item ih =>
    by_cases distinct : (labelNames items).Nodup
    · cases item with
      | label name =>
        refine ⟨items, [], name, rfl, distinct, ?_⟩
        by_contra fresh
        refine repeated ?_
        rw [labelNames_append]
        exact nodup_append_comm.mp (nodup_cons.mpr ⟨fresh, distinct⟩)
      | op ins target => simp [distinct] at repeated
    · obtain ⟨before, after, name, split, rest⟩ := ih distinct
      exact ⟨before, after ++ [item], name, by simp [split], rest⟩

theorem place_of_duplicate {before after : List Item} (distinct : (labelNames before).Nodup)
    (again : name ∈ labelNames before) :
    place [] 0 (before ++ .label name :: after) = .error (.duplicateLabel name) := by
  obtain ⟨labels, placed⟩ : ∃ labels, place [] 0 before = .ok (labels, 0 + span before) :=
    place_of_nodup distinct (by simp)
  have known : name ∈ labels.map Prod.fst := by simpa [(place_names placed).1] using again
  have found : (labels.lookup name).isSome := by
    rw [lookup_isSome_iff]
    obtain ⟨entry, member, rfl⟩ := mem_map.mp known
    exact ⟨entry, member, beq_self_eq_true _⟩
  rw [place_append, placed]
  simp [Except.bind, place, found]

/-- Addresses are where the labels land. -/
theorem lookup_iff_marks (placed : place [] 0 items = .ok (labels, count)) {x : Nat} :
    labels.lookup name = some x ↔ Marks items name x := by
  have landed : ∀ before after, items = before ++ .label name :: after →
      labels.lookup name = some (span before) := by
    rintro before after rfl
    rw [place_append] at placed
    cases first : place [] 0 before with
    | error fault => simp [first, Except.bind] at placed
    | ok middle =>
      obtain ⟨before', next⟩ := middle
      simp only [first, Except.bind, place] at placed
      split at placed
      · cases placed
      · obtain rfl : next = span before := by simpa using (place_sound first).1
        exact (place_sound placed).2 name _ (by simp)
  constructor
  · intro found
    have member : name ∈ labelNames items := by
      have entry := mem_map_of_mem (f := Prod.fst) (Scope.mem_of_lookup found)
      simpa [(place_names placed).1] using entry
    obtain ⟨before, after, split⟩ := append_of_mem (mem_labelNames.mp member)
    refine ⟨before, after, split, ?_⟩
    rw [length_remaining]
    exact Option.some.inj (found.symm.trans (landed before after split))
  · rintro ⟨before, after, split, rfl⟩
    rw [length_remaining]
    exact landed before after split

theorem orderly_or_disorder (items : List Item) :
    Orderly items ∨ ∃ fault, Disorder items fault := by
  by_cases distinct : (labelNames items).Nodup
  · by_cases small : (remaining items).length ≤ codeSize
    · exact .inl ⟨distinct, small⟩
    · exact .inr ⟨_, .tooLarge distinct (Nat.lt_of_not_le small)⟩
  · obtain ⟨before, after, name, split, earlier, again⟩ := exists_duplicate distinct
    exact .inr ⟨_, .duplicate split earlier again⟩

theorem addresses_of_disorder (cause : Disorder items fault) : addresses items = .error fault := by
  cases cause with
  | duplicate split distinct again =>
    rw [addresses, split, place_of_duplicate distinct again]
  | tooLarge distinct large =>
    obtain ⟨labels, placed⟩ : ∃ labels, place [] 0 items = .ok (labels, 0 + span items) :=
      place_of_nodup distinct (by simp)
    rw [length_remaining] at large ⊢
    simp [addresses, placed, large]

theorem addresses_of_orderly (orderly : Orderly items) :
    ∃ labels, addresses items = .ok labels ∧
      ∀ name x, labels.lookup name = some x ↔ Marks items name x := by
  obtain ⟨labels, placed⟩ : ∃ labels, place [] 0 items = .ok (labels, 0 + span items) :=
    place_of_nodup orderly.distinct (by simp)
  have small := orderly.small
  rw [length_remaining, ← Nat.not_lt] at small
  exact ⟨labels, by simp [addresses, placed, small], fun _ _ => lookup_iff_marks placed⟩

theorem addresses_error_iff : addresses items = .error fault ↔ Disorder items fault := by
  refine ⟨fun failed => ?_, addresses_of_disorder⟩
  rcases orderly_or_disorder items with orderly | ⟨other, cause⟩
  · obtain ⟨labels, found, -⟩ := addresses_of_orderly orderly
    simp [found] at failed
  · cases failed.symm.trans (addresses_of_disorder cause)
    exact cause

theorem addresses_ok (found : addresses items = .ok labels) :
    Orderly items ∧ ∀ name x, labels.lookup name = some x ↔ Marks items name x := by
  rcases orderly_or_disorder items with orderly | ⟨other, cause⟩
  · obtain ⟨labels', again, agree⟩ := addresses_of_orderly orderly
    cases found.symm.trans again
    exact ⟨orderly, agree⟩
  · simp [addresses_of_disorder cause] at found

theorem Orderly.calm (orderly : Orderly items) : ¬Disorder items fault := by
  intro cause
  obtain ⟨labels, found, -⟩ := addresses_of_orderly orderly
  simp [addresses_of_disorder cause] at found

/-! ## Instructions -/

section

variable (agree : ∀ name x, labels.lookup name = some x ↔ Marks whole name x) {ins : Instruction}
  {target : Option String}
include agree

theorem substitute_ok_iff {i : Instruction} :
    substitute labels ins target = .ok i ↔ Denotes whole (.op ins target) i := by
  cases target with
  | none =>
    constructor
    · rintro ⟨⟩
      exact .plain _
    · rintro ⟨⟩
      rfl
  | some name =>
    cases found : labels.lookup name with
    | none =>
      simp only [substitute, found, reduceCtorEq, false_iff]
      rintro (_ | marks)
      simp [(agree _ _).mpr marks] at found
    | some x =>
      simp only [substitute, found, Except.ok.injEq]
      constructor
      · rintro rfl
        exact .aimed ((agree name x).mp found)
      · rintro (_ | marks)
        rw [Option.some.inj (found.symm.trans ((agree _ _).mpr marks))]

theorem substitute_error_iff : substitute labels ins target = .error fault ↔
    ∃ name, target = some name ∧ (∀ x, ¬Marks whole name x) ∧
      fault = .undefinedLabel (.op ins target) name := by
  cases target with
  | none => simp [substitute]
  | some name =>
    simp only [substitute, ← agree]
    cases found : labels.lookup name with
    | none => simp [found, eq_comm]
    | some x => simp [found]

theorem refused_iff : Refused whole index (.op ins target) fault ↔
    substitute labels ins target = .error fault ∨ ∃ i misfit, substitute labels ins target = .ok i ∧
      i.validate = .error misfit ∧ fault = .invalid index misfit := by
  simp only [substitute_ok_iff agree, substitute_error_iff agree]
  constructor
  · rintro (nowhere | ⟨denotes, misfit⟩)
    · exact .inl ⟨_, rfl, nowhere, rfl⟩
    · exact .inr ⟨_, _, denotes, misfit, rfl⟩
  · rintro (⟨name, rfl, nowhere, rfl⟩ | ⟨i, misfit, denotes, invalid, rfl⟩)
    · exact .undefined nowhere
    · exact .invalid denotes invalid

theorem emit_op_ok {rest : List Item} {out : List Instruction} (active : redundant ins = false) :
    emit labels index (.op ins target :: rest) = .ok out ↔
      ∃ i more, Resolves whole (.op ins target) i ∧ emit labels (index + 1) rest = .ok more ∧
        out = i :: more := by
  simp only [emit, active, Bool.false_eq_true, if_false, Resolves, ← substitute_ok_iff agree]
  cases substitute labels ins target with
  | error fault => simp
  | ok i =>
    cases valid : i.validate with
    | error misfit => simp [valid]
    | ok =>
      cases emit labels (index + 1) rest with
      | error fault => simp [valid]
      | ok more => simp [valid, eq_comm]

theorem emit_op_error {rest : List Item} (active : redundant ins = false) :
    emit labels index (.op ins target :: rest) = .error fault ↔
      Refused whole index (.op ins target) fault ∨
        ∃ i, Resolves whole (.op ins target) i ∧ emit labels (index + 1) rest = .error fault := by
  simp only [emit, active, Bool.false_eq_true, if_false, Resolves, refused_iff agree,
    ← substitute_ok_iff agree]
  cases substitute labels ins target with
  | error fault => simp
  | ok i =>
    cases valid : i.validate with
    | error misfit => simp [valid, eq_comm]
    | ok =>
      cases emit labels (index + 1) rest with
      | error fault | ok fault => simp [valid]

theorem emit_ok_iff {out : List Instruction} : emit labels index items = .ok out ↔
    List.Forall₂ (Resolves whole) (remaining items) out := by
  induction items generalizing index out with
  | nil => simp [emit, remaining, eq_comm]
  | cons item items ih =>
    cases item with
    | label name => exact ih
    | op ins target =>
      cases active : redundant ins with
      | true =>
        have skipped : remaining (.op ins target :: items) = remaining items := by
          simp [remaining_eq, Item.emitted, active]
        simp only [emit, active, if_true, skipped, ih]
      | false =>
        have kept : remaining (.op ins target :: items) = .op ins target :: remaining items := by
          simp [remaining_eq, Item.emitted, active]
        simp only [emit_op_ok agree active, kept, forall₂_cons_left_iff, ih]

theorem emit_error_iff : emit labels index items = .error fault ↔
    ∃ before item after done, remaining items = before ++ item :: after ∧
      List.Forall₂ (Resolves whole) before done ∧
      Refused whole (index + before.length) item fault := by
  induction items generalizing index with
  | nil => simp [emit, remaining]
  | cons item items ih =>
    cases item with
    | label name => exact ih
    | op ins target =>
      cases active : redundant ins with
      | true =>
        have skipped : remaining (.op ins target :: items) = remaining items := by
          simp [remaining_eq, Item.emitted, active]
        simp only [emit, active, if_true, skipped, ih]
      | false =>
        have kept : remaining (.op ins target :: items) = .op ins target :: remaining items := by
          simp [remaining_eq, Item.emitted, active]
        simp only [emit_op_error agree active, kept, ih]
        constructor
        · rintro (here | ⟨i, resolves, before, item, after, done, split, fine, later⟩)
          · exact ⟨[], _, _, [], rfl, .nil, here⟩
          · refine ⟨.op ins target :: before, item, after, i :: done, by simp [split],
              .cons resolves fine, ?_⟩
            rwa [Nat.add_right_comm] at later
        · rintro ⟨before, item, after, done, split, fine, refused⟩
          rcases cons_eq_append_iff.mp split with ⟨rfl, same⟩ | ⟨others, rfl, rest⟩
          · cases same
            exact .inl refused
          · cases fine with
            | cons resolves fine =>
              refine .inr ⟨_, resolves, others, item, after, _, rest, fine, ?_⟩
              rwa [Nat.add_right_comm]

end

/-! ## Resolution -/

theorem resolve_iff_outcome {r : Except ResolveFault (List Instruction)} :
    resolve items = r ↔ Outcome items r := by
  cases found : addresses items with
  | error fault =>
    have cause := addresses_error_iff.mp found
    have failed : resolve items = .error fault := by simp only [resolve, found]
    rw [failed]
    constructor
    · rintro rfl
      exact .disorder cause
    · intro outcome
      cases outcome with
      | disorder other =>
        rw [Except.error.inj (found.symm.trans (addresses_of_disorder other))]
      | refused orderly | resolved orderly => exact absurd cause orderly.calm
  | ok labels =>
    obtain ⟨orderly, agree⟩ := addresses_ok found
    have emitted : resolve items = emit labels 0 items := by simp only [resolve, found]
    rw [emitted]
    cases r with
    | ok code =>
      rw [emit_ok_iff agree]
      constructor
      · exact .resolved orderly
      · intro outcome
        cases outcome with
        | resolved _ fine => exact fine
    | error fault =>
      rw [emit_error_iff agree]
      constructor
      · rintro ⟨before, item, after, done, split, fine, refused⟩
        rw [Nat.zero_add] at refused
        exact .refused orderly split fine refused
      · rintro (cause | ⟨_, split, fine, refused⟩)
        · exact absurd cause orderly.calm
        · exact ⟨_, _, _, _, split, fine, by rwa [Nat.zero_add]⟩

theorem Marks.le_length {code : List Instruction} {x : Nat} (marks : Marks items name x)
    (resolved : resolve items = .ok code) : x ≤ code.length := by
  obtain ⟨before, after, rfl, rfl⟩ := marks
  rw [(resolve_laid resolved).1, length_remaining, span_append]
  exact Nat.le_add_right ..

/-- Resolution has its outcome and no other, for the same reasons as the addresses of labels where
these are missing. Addresses are those that instructions get, and none is behind the end. -/
theorem resolve_eq_iff (items : List Item) :
    (∀ r, resolve items = r ↔ Outcome items r) ∧
    (∀ fault, addresses items = .error fault ↔ Disorder items fault) ∧
    (∀ labels, addresses items = .ok labels →
      ∀ name x, labels.lookup name = some x ↔ Marks items name x) ∧
    ∀ code, resolve items = .ok code → ∀ name x, Marks items name x → x ≤ code.length :=
  ⟨fun _ => resolve_iff_outcome, fun _ => addresses_error_iff, fun _ found => (addresses_ok found).2,
    fun _ resolved _ _ marks => marks.le_length resolved⟩

/-- A loop around a jump to its end, with two instructions that have no effect. -/
def enclosed : List Item :=
  [.label "top", .push 0, .jump "end", .pop 1 0, .jump "top", .label "end"]

theorem enclosed_resolves :
    Outcome enclosed (.ok [⟨.jump, .CB, 0, 2⟩, ⟨.jump, .CB, 0, 0⟩]) ∧
    (∀ name x, [("end", 2), ("top", 0)].lookup name = some x ↔ Marks enclosed name x) ∧
    ∀ name x, Marks enclosed name x → x ≤ 2 := by
  obtain ⟨outcome, -, agree, bound⟩ := resolve_eq_iff enclosed
  have resolved : resolve enclosed = .ok [⟨.jump, .CB, 0, 2⟩, ⟨.jump, .CB, 0, 0⟩] := by decide
  exact ⟨(outcome _).mp resolved, agree _ (by decide), bound _ resolved⟩

end Triangle.Code
