import Mathlib
import Triangle.Code.Layout

/-! Where symbolic code stands once it is resolved. Each label has the address of the instruction
after it, and a sequence of items takes as many places as it has instructions with an effect. -/
namespace Triangle

/-- What the bounds of a valid instruction are. -/
theorem Instruction.validate_iff {i : Instruction} :
    i.validate = .ok () ↔ i.op ∈ Op.named ∧ i.r.index.toNat ≤ 15 ∧ (0 ≤ i.n ∧ i.n ≤ 255) ∧
      (-32768 ≤ i.d ∧ i.d ≤ 32767) := by
  have register : Reg.CP.index < i.r.index ↔ ¬ i.r.index.toNat ≤ 15 := by
    rw [UInt8.lt_iff_toNat_lt, Nat.not_le]
    exact Iff.rfl
  unfold validate
  split
  · rename_i code shape
    simp [shape, Op.named]
  · rename_i named
    have known : i.op ∈ Op.named := by cases shape : i.op <;> simp_all [Op.named]
    simp only [register, maxCount, minDisplacement, maxDisplacement, known, true_and]
    by_cases base : i.r.index.toNat ≤ 15
    · by_cases count : i.n < 0 ∨ 255 < i.n
      · simp only [base, count, not_true_eq_false, ↓reduceIte, reduceCtorEq, false_iff]
        omega
      · by_cases displacement : i.d < -32768 ∨ 32767 < i.d
        · simp only [base, count, displacement, not_true_eq_false, ↓reduceIte, reduceCtorEq,
            false_iff]
          omega
        · simp only [base, count, displacement, not_true_eq_false, ↓reduceIte, true_iff, true_and]
          omega
    · simp [base]

namespace Code

/-- Places that the items take in the code store. -/
def span (items : List Item) : Nat := items.countP Item.emitted

@[simp] theorem span_nil : span [] = 0 := rfl

@[simp] theorem span_append (xs ys : List Item) : span (xs ++ ys) = span xs + span ys :=
  List.countP_append

/-- The items stand in the code from address `a` on. -/
def Placed (labels : List (String × Nat)) (code : List Instruction) : Nat → List Item → Prop
  | _, [] => True
  | a, .label name :: rest => labels.lookup name = some a ∧ Placed labels code a rest
  | a, .op ins target :: rest =>
    if redundant ins then Placed labels code a rest
    else
      (∃ i, substitute labels ins target = .ok i ∧ i.validate = .ok () ∧ code[a]? = some i) ∧
        Placed labels code (a + 1) rest

attribute [local simp] Item.emitted Placed

variable {labels : List (String × Nat)} {code : List Instruction} {a : Nat}

@[simp] theorem placed_append {xs ys : List Item} :
    Placed labels code a (xs ++ ys) ↔
      Placed labels code a xs ∧ Placed labels code (a + span xs) ys := by
  induction xs generalizing a with
  | nil => simp
  | cons item xs ih =>
    cases item with
    | label name =>
      have count : span (.label name :: xs) = span xs := by simp [span]
      simp [ih, count, and_assoc]
    | op ins target =>
      by_cases idle : redundant ins
      · have count : span (.op ins target :: xs) = span xs := by simp [span, idle]
        simp [ih, count, idle]
      · have count : span (.op ins target :: xs) = span xs + 1 := by
          simp [span, idle]
        have position : a + (span xs + 1) = a + 1 + span xs := by omega
        simp [ih, count, idle, and_assoc, position]

theorem Placed.plain {ins : Instruction} (placed : Placed labels code a [.op ins none])
    (active : redundant ins = false) : code[a]? = some ins := by
  simp only [Placed, active, Bool.false_eq_true, ↓reduceIte, and_true] at placed
  obtain ⟨i, same, _, here⟩ := placed
  cases same
  exact here

theorem Placed.bounds {ins : Instruction} (placed : Placed labels code a [.op ins none])
    (active : redundant ins = false) : -0x8000 ≤ ins.d ∧ ins.d < 0x8000 := by
  simp only [Placed, active, Bool.false_eq_true, ↓reduceIte, and_true] at placed
  obtain ⟨i, same, valid, -⟩ := placed
  cases same
  obtain ⟨-, -, -, low, high⟩ := Instruction.validate_iff.mp valid
  exact ⟨low, Int.lt_add_one_of_le high⟩

/-- An instruction that aims at a label has the address of the label. -/
theorem Placed.aimed {ins : Instruction} (placed : Placed labels code a [.op ins (some name)])
    (active : redundant ins = false) :
    ∃ target, labels.lookup name = some target ∧ target < 0x8000 ∧
      code[a]? = some { ins with r := .CB, d := target } := by
  simp only [Placed, active, Bool.false_eq_true, ↓reduceIte, and_true] at placed
  obtain ⟨i, found, valid, here⟩ := placed
  simp only [substitute] at found
  split at found
  · cases found
  · rename_i target known
    cases found
    refine ⟨target, known, ?_, here⟩
    obtain ⟨-, -, -, -, high⟩ := Instruction.validate_iff.mp valid
    dsimp only at high
    omega

/-! ## Resolution -/

/-- Labels keep the addresses that they get. -/
theorem place_sound {items : List Item} {known : List (String × Nat)} {count : Nat}
    (placed : place known a items = .ok (labels, count)) :
    count = a + span items ∧
      ∀ name x, known.lookup name = some x → labels.lookup name = some x := by
  induction items generalizing known a with
  | nil =>
    obtain ⟨rfl, rfl⟩ := placed
    exact ⟨rfl, fun _ _ same => same⟩
  | cons item items ih =>
    cases item with
    | label name =>
      simp only [place] at placed
      split at placed
      · cases placed
      · rename_i fresh
        obtain ⟨same, kept⟩ := ih placed
        refine ⟨by simpa [span] using same, fun x y found => kept x y ?_⟩
        have other : (x == name) = false := by
          rw [beq_eq_false_iff_ne]
          rintro rfl
          simp [found] at fresh
        simpa [List.lookup_cons, other] using found
    | op ins target =>
      obtain ⟨same, kept⟩ := ih placed
      refine ⟨?_, kept⟩
      rw [same]
      by_cases idle : redundant ins
      · simp [idle, span]
      · simp [idle, span]
        omega

theorem emit_length {items : List Item} {out : List Instruction}
    (emitted : emit labels index items = .ok out) : out.length = span items := by
  induction items generalizing index out with
  | nil =>
    simp only [emit, Except.ok.injEq] at emitted
    simp [← emitted]
  | cons item items ih =>
    cases item with
    | label name =>
      simpa [span] using ih emitted
    | op ins target =>
      simp only [emit] at emitted
      split at emitted
      · rename_i idle
        simpa [span, idle] using ih emitted
      · rename_i active
        split at emitted <;> try cases emitted
        split at emitted <;> try cases emitted
        split at emitted <;> try cases emitted
        rename_i more rest
        simpa [span, active] using ih rest

theorem placed_of_emit {items : List Item} {known : List (String × Nat)} {count : Nat}
    {before out : List Instruction} (placed : place known a items = .ok (labels, count))
    (emitted : emit labels index items = .ok out) (position : before.length = a) :
    Placed labels (before ++ out) a items := by
  induction items generalizing known a index before out with
  | nil => trivial
  | cons item items ih =>
    cases item with
    | label name =>
      simp only [place] at placed
      split at placed
      · cases placed
      · exact ⟨(place_sound placed).2 name a (by simp), ih placed emitted position⟩
    | op ins target =>
      simp only [place] at placed
      simp only [emit] at emitted
      by_cases idle : redundant ins
      · simp only [idle, ↓reduceIte] at placed emitted
        simpa [idle] using ih placed emitted position
      · simp only [idle, Bool.false_eq_true, ↓reduceIte] at placed emitted
        split at emitted <;> try cases emitted
        rename_i resolved substituted
        split at emitted <;> try cases emitted
        rename_i valid
        split at emitted <;> try cases emitted
        rename_i more rest
        have later := ih placed rest (show (before ++ [resolved]).length = a + 1 by simp [position])
        rw [List.append_assoc, List.singleton_append] at later
        simp only [Placed, idle, Bool.false_eq_true, ↓reduceIte]
        exact ⟨⟨resolved, substituted, valid, by simp [← position]⟩, later⟩

/-- Resolved code fits the code store, and has every item in its place. -/
theorem resolve_placed {items : List Item} (resolved : resolve items = .ok code) :
    code.length ≤ codeSize ∧ ∃ labels, Placed labels code 0 items := by
  simp only [resolve, addresses] at resolved
  cases placed : place [] 0 items with
  | error fault => simp [placed] at resolved
  | ok result =>
    obtain ⟨labels, count⟩ := result
    simp only [placed] at resolved
    split at resolved
    · rename_i failed
      split at failed <;> cases failed
      cases resolved
    · rename_i found
      split at found <;> cases found
      rename_i fits
      have length := emit_length resolved
      have reached := (place_sound placed).1
      exact ⟨by omega, labels, placed_of_emit placed resolved List.length_nil⟩

end Code
end Triangle
