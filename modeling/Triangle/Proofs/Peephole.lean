import Mathlib
import Triangle.Proofs.Code.Combining
import Triangle.Proofs.Code.Threading

/-! Code that is threaded and combined runs like the code it was. -/
namespace Triangle.Code
open Machine

/-- Code whose addresses occur only as targets of jumps can be resolved after jumps are threaded and
literals combined. It then runs on every input as before, as long as that did not run out of stack. -/
theorem combine_thread_imitates {items : List Item} {code : List Instruction}
    (resolved : resolve items = .ok code) (relocatable : ∀ item ∈ items, item.Relocatable) :
    ∃ code', resolve (combine (thread items)) = .ok code' ∧
      ∀ input, (start code' input).Imitates (start code input) := by
  obtain ⟨threaded, first, alike⟩ := thread_imitates resolved relocatable
  obtain ⟨code', second, alike'⟩ := combine_imitates first (relocatable_thread relocatable)
  exact ⟨code', second, fun input => (alike' input).trans (alike input)⟩

/-- A chain of jumps to the end, and two jumps in a circle where there is no input. -/
def wandering : List Item :=
  [.callPrim .eof, .jumpIf 1 "spin", .loadL 2, .loadL 3, .loadL 4, .callPrim .mult, .callPrim .add,
    .callPrim .putint, .jump "far", .label "near", .jump "end", .label "far", .jump "near",
    .label "spin", .jump "turn", .label "turn", .jump "spin", .label "end", .halt]

/-- The code of `wandering` once it is shorter. -/
def straight : List Instruction :=
  [⟨.call, .PB, 4, 20⟩, ⟨.jumpIf, .CB, 1, 5⟩, ⟨.loadL, .CB, 0, 14⟩, ⟨.call, .PB, 4, 26⟩,
    ⟨.jump, .CB, 0, 7⟩, ⟨.jump, .CB, 0, 6⟩, ⟨.jump, .CB, 0, 5⟩, ⟨.halt, .CB, 0, 0⟩]

theorem straight_imitates : ∃ code, resolve wandering = .ok code ∧ code.length = 14 ∧
    resolve (combine (thread wandering)) = .ok straight ∧
      ∀ input, (start straight input).Imitates (start code input) := by
  obtain ⟨code, resolved, length⟩ : ∃ code, resolve wandering = .ok code ∧ code.length = 14 :=
    ⟨_, rfl, rfl⟩
  have shorter : resolve (combine (thread wandering)) = .ok straight := rfl
  obtain ⟨code', resolved', imitates⟩ := combine_thread_imitates resolved (by decide)
  cases shorter.symm.trans resolved'
  exact ⟨code, resolved, length, shorter, imitates⟩

end Triangle.Code
