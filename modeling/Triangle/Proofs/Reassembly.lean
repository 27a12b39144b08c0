import Mathlib
import Triangle.Proofs.Compilation
import Triangle.Proofs.Generate.Progress

/-! A listing is read back as the code that it lists, and the listing of a generated program
assembles to the program's own machine code. -/
namespace Triangle

open Code

variable {items : List Item}

namespace Code

/-- What is emitted has been found valid, with its label resolved. -/
theorem emit_valid {labels : List (String × Nat)} {index : Nat}
    {code : List Instruction} (emitted : emit labels index items = .ok code) {i : Instruction}
    {target : Option String} (member : Item.op i target ∈ items) (active : redundant i = false) :
    ∃ final, substitute labels i target = .ok final ∧ final.validate = .ok () := by
  induction items generalizing index code with
  | nil => cases member
  | cons item items ih =>
    cases item with
    | label name =>
      simp only [emit] at emitted
      exact ih emitted (by simpa using member)
    | op ins aim =>
      simp only [emit] at emitted
      split at emitted
      · rename_i idle
        rcases List.mem_cons.mp member with same | later
        · cases same
          rw [idle] at active
          cases active
        · exact ih emitted later
      · split at emitted
        · cases emitted
        · rename_i final substituted
          split at emitted
          · cases emitted
          · rename_i valid
            split at emitted
            · cases emitted
            · rename_i rest
              rcases List.mem_cons.mp member with same | later
              · cases same
                exact ⟨final, substituted, valid⟩
              · exact ih rest later

/-- A label stands in for an address without changing the rest of its instruction. -/
theorem valid_of_substitute {labels : List (String × Nat)} {i final : Instruction}
    {target : String} (substituted : substitute labels i (some target) = .ok final)
    (valid : final.validate = .ok ()) (register : i.r = .CB) (displacement : i.d = 0) :
    i.validate = .ok () := by
  simp only [substitute] at substituted
  split at substituted
  · cases substituted
  · cases substituted
    obtain ⟨named, base, count, _⟩ := Instruction.validate_iff.mp valid
    refine Instruction.validate_iff.mpr ⟨named, ?_, count, by omega⟩
    rw [register]
    exact base

/-- Resolution checks what the form of an item leaves open. -/
theorem formed_of_resolve {code : List Instruction}
    (ready : ∀ item ∈ items, item.Ready) (resolved : resolve items = .ok code) :
    ∀ item ∈ items, item.Formed := by
  unfold resolve at resolved
  split at resolved
  · cases resolved
  · rename_i labels placed
    intro item member
    cases ready item member with
    | label identifier => exact .label identifier
    | @plain i shape =>
      refine .plain ⟨shape.toTidy, ?_⟩
      cases active : redundant i with
      | true => exact shape.idle active
      | false =>
        obtain ⟨final, substituted, valid⟩ := emit_valid resolved member active
        cases substituted
        exact valid
    | @aimed i target shape aims register displacement identifier =>
      refine .aimed ⟨shape.toTidy, ?_⟩ aims register displacement identifier
      cases active : redundant i with
      | true => exact shape.idle active
      | false =>
        obtain ⟨final, substituted, valid⟩ := emit_valid resolved member active
        exact valid_of_substitute substituted valid register displacement

theorem read_listing (formed : ∀ item ∈ items, item.Formed) : read (listing items) = .ok items := by
  have numbers : (items.zipIdx 1).map Prod.fst = items := by simp
  rw [read, readNumbered_listing formed]
  simp only [numbers]

theorem assemble_listing {code : List Instruction}
    (formed : ∀ item ∈ items, item.Formed) (resolved : resolve items = .ok code) :
    assemble (listing items) = .ok (code, sourceLines (items.zipIdx 1)) := by
  have numbers : (items.zipIdx 1).map Prod.fst = items := by simp
  rw [assemble, readNumbered_listing formed]
  simp only [numbers, resolved]

end Code

theorem Program.generate_ready {p q : Program} (accepted : p.check = (q, []))
    (fit : q.TypesFit) (generated : q.generate = .ok items) : ∀ item ∈ items, item.Ready := by
  have covers : Generate.Covers (fun _ => True) True q.body.nodes :=
    fun node member => ⟨fun _ _ _ => trivial, fun _ => fit node member⟩
  rcases generate_makes accepted (fun _ _ => trivial) covers with
    ⟨code, made, -, tidy⟩ | ⟨fault, failed, -⟩
  · cases generated.symm.trans made
    exact tidy trivial
  · cases generated.symm.trans failed

/-- The listing of any code in form is read back as the code, and the listing of what is generated
for an accepted program assembles to the same instructions as the code itself, each with the number
of its line. -/
theorem Program.listing_reads_back :
    (∀ items : List Item, (∀ item ∈ items, item.Formed) → read (listing items) = .ok items) ∧
    ∀ (p q : Program) (items : List Item) (code : List Instruction), p.check = (q, []) →
      q.TypesFit → q.generate = .ok items → resolve items = .ok code →
      assemble (listing items) = .ok (code, sourceLines (items.zipIdx 1)) := by
  constructor
  · intro items formed
    exact read_listing formed
  · intro p q items code accepted fit generated resolved
    have ready := Program.generate_ready accepted fit generated
    exact assemble_listing (formed_of_resolve ready resolved) resolved

/-- Code with a label outside ASCII, calls of each kind, and an instruction without an effect. -/
def Code.samples : List Item :=
  [.label "été.1", .load 2 .LB (-3), .pop 3 0, .callPrim .putint, .call ⟨9⟩ "été.1",
    .plain .call .CB 15 32767, .jumpIf 255 "_x", .loadLabel "_x", .label "_x", .halt]

/-- Prints a square from within a procedure. -/
def Program.square : Program :=
  let k : Expr := .ident {} none "k"
  ⟨.letIn {} [.proc {} "show" [.value {} "n" (.named {} "Integer")]
      (.call {} none "putint" [.value {} (.ident {} none "n")])]
    (.call {} none "show" [.value {} (.letIn {} [.const {} "k" (.int {} 12)]
      (.binary {} none "*" k k))])⟩

theorem Program.square_reassembles : read (listing samples) = .ok samples ∧
    ∃ items code, square.check.1.generate = .ok items ∧ resolve items = .ok code ∧
      assemble (listing items) = .ok (code, sourceLines (items.zipIdx 1)) :=
  have accepted : square.check = (square.check.1, []) := rfl
  ⟨listing_reads_back.1 samples (by decide), _, _, rfl, rfl,
    listing_reads_back.2 square _ _ _ accepted (by decide) rfl rfl⟩

end Triangle
