import Mathlib
import Triangle.Proofs.Code.Listing
import Triangle.Proofs.Generate.Steps
import Triangle.Proofs.StandardNames

/-! The form of generated code. Every item is as the constructors make it: fields that an operation
does not use are zero, labels are identifiers, and calls are linked through registers. What is left
to the resolution of labels is only whether counts and displacements are in range. -/
namespace Triangle
open List

open Code (Item isIdentifier redundant)

/-- An instruction that is in form as soon as its fields are in range. Resolution does not look at
the fields of one without an effect, so there they must be. -/
structure Instruction.Ready (i : Instruction) : Prop extends i.Tidy where
  idle : redundant i = true → i.validate = .ok ()

attribute [local simp] Op.counted Op.addressed Op.displaced

namespace Code.Item

abbrev Ready : Item → Prop := Shaped Instruction.Ready

theorem ready_plain {op : Op} {r : Reg} {n d : Int} (other : op ≠ .call)
    (active : redundant ⟨op, r, n, d⟩ = false) (register : op.addressed = false → r = .CB)
    (count : op.counted = false → n = 0)
    (displacement : op.addressed = false → op.displaced = false → d = 0) :
    (plain op r n d).Ready :=
  .plain ⟨⟨register, count, displacement, fun call => absurd call other,
    fun call => absurd call other⟩, by simp [active]⟩

@[simp] theorem ready_load (n : Int) (r : Reg) (d : Int) : (load n r d).Ready := by
  apply ready_plain <;> simp [redundant]

@[simp] theorem ready_loadA (r : Reg) (d : Int) : (loadA r d).Ready := by
  apply ready_plain <;> simp [redundant]

@[simp] theorem ready_loadI (n : Int) : (loadI n).Ready := by
  apply ready_plain <;> simp [redundant]

@[simp] theorem ready_loadL (d : Int) : (loadL d).Ready := by
  apply ready_plain <;> simp [redundant]

@[simp] theorem ready_store (n : Int) (r : Reg) (d : Int) : (store n r d).Ready := by
  apply ready_plain <;> simp [redundant]

@[simp] theorem ready_storeI (n : Int) : (storeI n).Ready := by
  apply ready_plain <;> simp [redundant]

@[simp] theorem ready_callI : callI.Ready := by
  apply ready_plain <;> simp [redundant]

@[simp] theorem ready_ret (n d : Int) : (ret n d).Ready := by
  apply ready_plain <;> simp [redundant]

@[simp] theorem ready_halt : halt.Ready := by
  apply ready_plain <;> simp [redundant]

/-- An instruction that moves the top of the stack by nothing has no effect. -/
@[simp] theorem ready_push (d : Int) : (push d).Ready := by
  refine .plain ⟨⟨by simp, by simp, by simp, by simp, by simp⟩, ?_⟩
  intro idle
  obtain rfl : d = 0 := by simpa [redundant] using idle
  decide

theorem ready_pop {n : Int} (least : 0 ≤ n) (greatest : n ≤ 255) (d : Int) : (pop n d).Ready := by
  refine .plain ⟨⟨by simp, by simp, by simp, by simp, by simp⟩, ?_⟩
  intro idle
  obtain rfl : d = 0 := by simpa [redundant] using idle
  simp [Instruction.validate, Instruction.maxCount, Instruction.minDisplacement,
    Instruction.maxDisplacement, Int.not_lt.mpr least, Int.not_lt.mpr greatest, Reg.CB, Reg.CP]

@[simp] theorem ready_callPrim (p : Primitive) : (callPrim p).Ready := by
  have link : ((Reg.SB.index.toNat : Nat) : Int) ≤ Reg.CP.index.toNat := by decide
  exact .plain ⟨⟨by simp, by simp, by simp,
    fun _ => link, fun _ _ => rfl⟩, by simp [redundant]⟩

theorem ready_aimed {op : Op} {n : Int} {target : String} (aims : op.aims = true)
    (other : op ≠ .call ∨ n ≤ 15) (count : op.counted = false → n = 0)
    (identifier : isIdentifier target.toList = true) : (aimed op n target).Ready := by
  have active : redundant ⟨op, .CB, n, 0⟩ = false := by cases op <;> simp_all [Op.aims, redundant]
  refine .aimed ⟨⟨by simp, count, by simp, ?_, ?_⟩, by simp [active]⟩ aims rfl rfl identifier
  · intro call
    exact other.resolve_left (absurd call)
  · intro call primitive
    simp [Instruction.primitive?, Reg.CB, Reg.PB] at primitive

end Code.Item

namespace Generate

/-- Code whose items are all in form, up to the range of their fields, if the values that it moves
fit. -/
def Tidy (fits : Prop) (code : Code) : Prop := fits → ∀ item ∈ code, item.Ready

variable {fits : Prop}

@[simp] theorem tidy_nil : Tidy fits [] := by simp [Tidy]

@[simp] theorem tidy_append {first second : Code} :
    Tidy fits (first ++ second) ↔ Tidy fits first ∧ Tidy fits second := by
  simp only [Tidy, forall_mem_append, imp_and]

theorem tidy_single {item : Item} (ready : fits → item.Ready) : Tidy fits [item] := by
  simpa [Tidy] using ready

/-! ## Labels -/

/-- A numbered stem is an identifier if the stem is one. -/
theorem isIdentifier_numbered {stem : String} (identifier : isIdentifier stem.toList = true)
    (n : Nat) : isIdentifier (s!"{stem}.{n}").toList = true := by
  have text : (s!"{stem}.{n}").toList = stem.toList ++ '.' :: Nat.toDigits 10 n := by
    simp [Code.toString_string]
  rw [text]
  cases start : stem.toList with
  | nil =>
    rw [start] at identifier
    cases identifier
  | cons c cs =>
    rw [start] at identifier
    simp only [isIdentifier, Bool.and_eq_true, cons_append, all_append, List.all_cons,
      all_eq_true] at identifier ⊢
    refine ⟨identifier.1, identifier.2, by decide, fun d member => ?_⟩
    have digit := Text.Numeral.isDigit_toDigits member
    have bound : d.toNat ≤ 57 := (Text.Numeral.isDigit_bounds digit).2
    simp [Text.isDecimal, digit, show d.toNat < 128 by omega]

theorem isAlpha_lt {c : Char} (letter : c.isAlpha = true) : c.toNat < 128 := by
  simp only [Char.isAlpha, Char.isUpper, Char.isLower, Bool.or_eq_true, Bool.and_eq_true,
    decide_eq_true_eq] at letter
  rcases letter with ⟨_, upper⟩ | ⟨_, lower⟩
  · have bound : c.toNat ≤ 90 := upper
    omega
  · have bound : c.toNat ≤ 122 := lower
    omega

theorem isLetter_of_isLabelStart {c : Char} (starts : isLabelStart c = true) :
    (Text.isLetter c || c == '_') = true := by
  simp only [isLabelStart, Bool.or_eq_true] at starts ⊢
  rcases starts with underscore | letter
  · exact .inr underscore
  · simp [Text.isLetter, isAlpha_lt letter, letter]

/-- The entry of a routine is named after an identifier. -/
theorem routineLabel_eq (name : String) :
    ∃ stem : String, isIdentifier stem.toList = true ∧ routineLabel name = newLabel stem := by
  unfold routineLabel
  split
  · rename_i c rest text
    split
    · rename_i plain
      refine ⟨name, ?_, rfl⟩
      simp only [Bool.and_eq_true, all_eq_true] at plain
      simp only [text, isIdentifier, isLetter_of_isLabelStart plain.1, Bool.true_and,
        all_eq_true]
      intro d member
      have named := plain.2 d member
      rw [Bool.or_eq_true] at named
      rcases named with starts | digit
      · have letter := isLetter_of_isLabelStart starts
        rw [Bool.or_eq_true] at letter
        rcases letter with letter | underscore
        · simp [letter]
        · simp [underscore]
      · have bound : d.toNat ≤ 57 := (Text.Numeral.isDigit_bounds digit).2
        simp [Text.isDecimal, digit, show d.toNat < 128 by omega]
    · exact ⟨"op", by decide, rfl⟩
  · exact ⟨"op", by decide, rfl⟩

/-! ## Names -/

/-- A routine in reach is entered at the label. -/
def Env.Enters (env : Env) (label : String) : Prop :=
  ∃ x depth, env.callables.lookupWithDepth? x = some (.routine label, depth)

section

variable {env : Env} {label : String}

@[simp] theorem Env.enters_enterBlock : env.enterBlock.Enters label ↔ env.Enters label := by
  simp [Enters, Env.enterBlock]

@[simp] theorem Env.enters_enterFrame : env.enterFrame.Enters label ↔ env.Enters label := by
  simp [Enters, Env.enterFrame]

theorem Env.enters_addCallable {name : String} {c : Callable}
    (enters : (env.addCallable name c).Enters label) : c = .routine label ∨ env.Enters label := by
  obtain ⟨x, depth, found⟩ := enters
  simp only [Env.addCallable, Scope.Table.addConst, Scope.Table.lookupWithDepth?_insert] at found
  split at found
  · cases found
    exact .inl rfl
  · exact .inr ⟨x, depth, found⟩

theorem Env.not_enters_standard : ¬Env.standard.Enters label := by
  rintro ⟨x, depth, found⟩
  rw [callables_standard, Option.map_eq_some_iff] at found
  obtain ⟨c, found, same⟩ := found
  cases same
  have table : ∀ row ∈ standardCallables, ∀ label, row.2 ≠ .routine label := by
    rintro ⟨key, c⟩ member label rfl
    simp [standardCallables] at member
  exact absurd rfl (table _ (Scope.mem_of_lookup found) label)

end

/-- The routines in reach have entries with identifiers for names. -/
def Env.Labelled (env : Env) : Prop :=
  ∀ x label depth, env.callables.lookupWithDepth? x = some (.routine label, depth) →
    isIdentifier label.toList = true

namespace Env.Labelled

variable {env : Env}

theorem of_enters {inner : Env} (labelled : env.Labelled)
    (named : ∀ label, inner.Enters label → env.Enters label ∨ isIdentifier label.toList = true) :
    inner.Labelled := by
  intro x label depth found
  rcases named label ⟨x, depth, found⟩ with ⟨y, depth', outer⟩ | identifier
  · exact labelled y label depth' outer
  · exact identifier

theorem enterBlock (labelled : env.Labelled) : env.enterBlock.Labelled :=
  labelled.of_enters fun _ enters => .inl (enters_enterBlock.mp enters)

theorem enterFrame (labelled : env.Labelled) : env.enterFrame.Labelled :=
  labelled.of_enters fun _ enters => .inl (enters_enterFrame.mp enters)

theorem addCallable {c : Callable} (labelled : env.Labelled) (name : String)
    (named : ∀ label, c = .routine label → isIdentifier label.toList = true) :
    (env.addCallable name c).Labelled :=
  labelled.of_enters fun label enters => (enters_addCallable enters).symm.imp_right (named label)

theorem initial : Env.Labelled .standard :=
  fun x _ depth found => (not_enters_standard ⟨x, depth, found⟩).elim

end Env.Labelled

end Generate
end Triangle
