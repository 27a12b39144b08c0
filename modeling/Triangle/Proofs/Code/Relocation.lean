import Mathlib
import Triangle.Code.Thread
import Triangle.Proofs.Code.Resolution
import Triangle.Proofs.Machine.Alike

/-! Code that runs alike wherever its instructions stand: addresses of code occur in it only as the
targets of jumps. -/
namespace Triangle.Code
open Machine

/-- The item tells no place in the code but by a label that it jumps to. -/
def Item.Relocatable : Item → Prop
  | .label _ => True
  | .op ins target =>
    if ins.op = .jump ∨ ins.op = .jumpIf then target.isSome = true
    else target = none ∧ (ins.op = .halt ∨ ins.Sequential)

instance : (item : Item) → Decidable item.Relocatable
  | .label _ => inferInstanceAs (Decidable True)
  | .op ins target => inferInstanceAs (Decidable (if ins.op = .jump ∨ ins.op = .jumpIf then
      target.isSome = true else target = none ∧ (ins.op = .halt ∨ ins.Sequential)))

variable {code code' : List Instruction} {labels labels' : List (String × Nat)} {m n : Machine}
  {before after before' after' : List Item} {ins : Instruction} {target : Option String}
  {rename : String → String}

theorem transfers_sequential (sequential : ins.Sequential) (target : Option String) :
    transfers (.op ins target) = false := by
  unfold Instruction.Sequential at sequential
  cases op : ins.op <;> simp_all [transfers]

/-- An instruction that aims at a label holds its address. -/
theorem substitute_aimed {name : String} {i : Instruction}
    (same : substitute labels ins (some name) = .ok i) (valid : i.validate = .ok ()) :
    ∃ x, labels.lookup name = some x ∧ x < 0x8000 ∧ i = { ins with r := .CB, d := x } := by
  simp only [substitute] at same
  split at same
  · cases same
  · rename_i x found
    cases same
    obtain ⟨-, -, -, -, high⟩ := Instruction.validate_iff.mp valid
    exact ⟨x, found, by dsimp only at high; omega, rfl⟩

/-- Two machines at the same item. After it both are at the item that follows, or at its target. -/
theorem keeps_item {related : Machine → Machine → Prop}
    (placed : Placed labels code 0 (before ++ .op ins target :: after))
    (placed' : Placed labels' code' 0 (before' ++ .op ins (target.map rename) :: after'))
    (relocatable : (Item.op ins target).Relocatable) (active : redundant ins = false)
    (alike : Alike code code' (span before) (span before') m n)
    (next : transfers (.op ins target) = false → ∀ m' n',
      Alike code code' (span before + 1) (span before' + 1) m' n' → related m' n')
    (aimed : ∀ name, target = some name → ∀ x y, labels.lookup name = some x →
      labels'.lookup (rename name) = some y → ∀ m' n', Alike code code' x y m' n' →
        ∃ k m'', m'.Reaches k m'' ∧ related m'' n') : Keeps related m n := by
  obtain ⟨i, same, valid, here⟩ := placed.item active
  obtain ⟨j, same', valid', here'⟩ := placed'.item active
  have goOn {m' n' : Machine} (falls : transfers (.op ins target) = false)
      (later : Alike code code' (span before + 1) (span before' + 1) m' n') : ∀ s s', ∃ k m'',
        Reaches k { m' with steps := s } m'' ∧ related m'' { n' with steps := s' } :=
    fun s s' => ⟨0, _, .here _, next falls _ _ (later.count s s')⟩
  unfold Item.Relocatable at relocatable
  cases op : ins.op
  case jump =>
    simp only [op, true_or, if_true] at relocatable
    obtain ⟨name, rfl⟩ := Option.isSome_iff_exists.mp relocatable
    obtain ⟨x, found, small, rfl⟩ := substitute_aimed same valid
    obtain ⟨y, found', small', rfl⟩ := substitute_aimed same' valid'
    rw [op] at here here'
    refine (pairs_jump alike small small' ins.n ins.n).keeps alike here here' fun m' n' later => .inr ?_
    exact fun s s' => aimed name rfl x y found found' _ _ (later.count s s')
  case jumpIf =>
    simp only [op, or_true, if_true] at relocatable
    obtain ⟨name, rfl⟩ := Option.isSome_iff_exists.mp relocatable
    obtain ⟨x, found, small, rfl⟩ := substitute_aimed same valid
    obtain ⟨y, found', small', rfl⟩ := substitute_aimed same' valid'
    rw [op] at here here'
    refine (pairs_jumpIf alike small small').keeps alike here here' fun m' n' later => .inr ?_
    rcases later with taken | passed
    · exact fun s s' => aimed name rfl x y found found' _ _ (taken.count s s')
    · exact goOn (by simp [transfers, op]) passed
  case halt =>
    simp only [op, reduceCtorEq, or_self, if_false, true_or, and_true] at relocatable
    subst relocatable
    cases same
    cases same'
    exact (pairs_halt alike op).keeps alike here here' fun _ _ later => .inl later
  all_goals
    simp only [op, reduceCtorEq, or_self, if_false, false_or] at relocatable
    obtain ⟨rfl, sequential⟩ := relocatable
    cases same
    cases same'
    refine (pairs_sequential alike sequential valid).keeps alike here here' fun m' n' later => .inr ?_
    exact goOn (transfers_sequential sequential none) later

end Triangle.Code
