import Mathlib
import Triangle.Proofs.Code.Lines
import Triangle.Proofs.Placement

/-! A listing reads back as the items it lists. The items are those that the constructors build:
every field within its range, and the fields that an operation does not use left at zero. -/
namespace Triangle
open List

namespace Op

/-- Whether an instruction's register and displacement form an address. -/
def addressed : Op → Bool
  | load | loadA | store | call | jump | jumpIf => true
  | _ => false

def counted : Op → Bool
  | load | loadI | store | storeI | call | ret | pop | jumpIf => true
  | _ => false

/-- Whether the displacement of an instruction without an address counts. -/
def displaced : Op → Bool
  | loadL | ret | push | pop => true
  | _ => false

/-- Whether a label may stand for the address. -/
def aims : Op → Bool
  | loadA | call | jump | jumpIf => true
  | _ => false

end Op

/-- The fields that an operation does not use are zero, and a call's count is the number of a
register: the stack base where the call is to a primitive. -/
structure Instruction.Tidy (i : Instruction) : Prop where
  register : i.op.addressed = false → i.r = .CB
  count : i.op.counted = false → i.n = 0
  displacement : i.op.addressed = false → i.op.displaced = false → i.d = 0
  link : i.op = .call → i.n ≤ Reg.CP.index.toNat
  primitiveLink : i.op = .call → i.primitive?.isSome → i.n = Reg.SB.index.toNat

/-- An instruction in the form that the constructors give it, with fields in range. -/
structure Instruction.Formed (i : Instruction) : Prop extends i.Tidy where
  valid : i.validate = .ok ()

instance (i : Instruction) : Decidable i.Formed :=
  decidable_of_iff (((i.op.addressed = false → i.r = .CB) ∧ (i.op.counted = false → i.n = 0) ∧
      (i.op.addressed = false → i.op.displaced = false → i.d = 0) ∧
      (i.op = .call → i.n ≤ Reg.CP.index.toNat) ∧
      (i.op = .call → i.primitive?.isSome → i.n = Reg.SB.index.toNat)) ∧ i.validate = .ok ())
    ⟨fun fine => ⟨⟨fine.1.1, fine.1.2.1, fine.1.2.2.1, fine.1.2.2.2.1, fine.1.2.2.2.2⟩, fine.2⟩,
      fun formed => ⟨⟨formed.register, formed.count, formed.displacement, formed.link,
        formed.primitiveLink⟩, formed.valid⟩⟩

variable {i : Instruction}

variable {target : Option String}

namespace Code

open Text

/-- An item whose names are identifiers and whose instruction is of a kind. A label stands in
place of an address that is all zero. -/
inductive Item.Shaped (kind : Instruction → Prop) : Item → Prop
  | label {name : String} (identifier : isIdentifier name.toList = true) : Shaped kind (.label name)
  | plain {i : Instruction} (shape : kind i) : Shaped kind (.op i none)
  | aimed {i : Instruction} {target : String} (shape : kind i) (aims : i.op.aims = true)
      (register : i.r = .CB) (displacement : i.d = 0)
      (identifier : isIdentifier target.toList = true) : Shaped kind (.op i (some target))

abbrev Item.Formed : Item → Prop := Item.Shaped Instruction.Formed

theorem Item.shaped_label {kind : Instruction → Prop} {name : String} :
    (Item.label name).Shaped kind ↔ isIdentifier name.toList = true := by
  constructor
  · intro shaped
    cases shaped with
    | label identifier => exact identifier
  · exact .label

theorem Item.shaped_plain {kind : Instruction → Prop} :
    (Item.op i none).Shaped kind ↔ kind i := by
  constructor
  · intro shaped
    cases shaped with
    | plain shape => exact shape
  · exact .plain

theorem Item.shaped_aimed {kind : Instruction → Prop} {target : String} :
    (Item.op i (some target)).Shaped kind ↔ kind i ∧ i.op.aims = true ∧ i.r = .CB ∧ i.d = 0 ∧
      isIdentifier target.toList = true := by
  constructor
  · intro shaped
    cases shaped with
    | aimed shape aims register displacement identifier =>
      exact ⟨shape, aims, register, displacement, identifier⟩
  · rintro ⟨shape, aims, register, displacement, identifier⟩
    exact .aimed shape aims register displacement identifier

instance : DecidablePred Item.Formed
  | .label _ => decidable_of_iff _ Item.shaped_label.symm
  | .op _ none => decidable_of_iff _ Item.shaped_plain.symm
  | .op _ (some _) => decidable_of_iff _ Item.shaped_aimed.symm

/-- The count of an instruction as it is written: for a call, the register of the link. -/
def countText (i : Instruction) : List Char :=
  if i.op = .call then (Reg.mk (UInt8.ofInt i.n)).name.toList
  else if i.op.counted then decimal i.n else []

def operandTexts (i : Instruction) : List (List Char) :=
  if i.op.addressed then [decimal i.d, i.r.name.toList]
  else if i.op.displaced then [decimal i.d] else []

/-- The primitive that an instruction is written with in place of its fields. -/
def calledPrimitive? (i : Instruction) : Option Primitive :=
  if i.op = .call then i.primitive? else none

/-- The parts that an instruction is written from. -/
def partsOf (i : Instruction) (target : Option String) : Parts :=
  match target, calledPrimitive? i with
  | some target, _ => ⟨i.op.name.toList, countText i, [target.toList]⟩
  | none, some p => ⟨i.op.name.toList, [], [p.name.toList]⟩
  | none, none => ⟨i.op.name.toList, countText i, operandTexts i⟩

theorem bare_op_name : ∀ op ∈ Op.named,
    Bare op.name.toList ∧ op.name.toList.map toUpper = op.name.toList := by
  decide

theorem bare_primitive_name : ∀ p ∈ Primitive.all, Bare p.name.toList := by
  decide

theorem Primitive.mem_all (p : Primitive) : p ∈ Primitive.all := by
  cases p <;> decide

theorem Reg.eq_ofNat {r : Reg} (bound : r.index.toNat ≤ 15) :
    ∃ k < 16, r = ⟨UInt8.ofNat k⟩ :=
  ⟨r.index.toNat, by omega, by simp⟩

theorem bare_reg_name {r : Reg} (bound : r.index.toNat ≤ 15) : Bare r.name.toList := by
  have all : ∀ k < 16, Bare (Reg.mk (UInt8.ofNat k)).name.toList := by decide
  obtain ⟨k, small, rfl⟩ := Reg.eq_ofNat bound
  exact all k small

theorem readRegister_name {r : Reg} (bound : r.index.toNat ≤ 15) :
    readRegister r.name.toList = .ok r := by
  have all : ∀ k < 16, readRegister (Reg.mk (UInt8.ofNat k)).name.toList =
      .ok (Reg.mk (UInt8.ofNat k)) := by decide
  obtain ⟨k, small, rfl⟩ := Reg.eq_ofNat bound
  exact all k small

theorem readCount_decimal {n : Int} (least : 0 ≤ n) (greatest : n ≤ 255) :
    readCount (decimal n) = .ok n := by
  have fits : Numeral.Fits 64 n := ⟨by omega, by omega⟩
  rw [readCount, Numeral.ofDecimal_decimal (by decide) fits]
  simp [least, greatest, Instruction.maxCount]

theorem readImmediate_decimal {d : Int} (least : -32768 ≤ d) (greatest : d ≤ 32767) :
    readImmediate (decimal d) = .ok d := by
  have fits : Numeral.Fits 32 d := ⟨by omega, by omega⟩
  rw [readImmediate, Numeral.literal_decimal (by decide) fits]
  simp [least, greatest, Instruction.minDisplacement, Instruction.maxDisplacement]

/-- The register of a call's link, which the count of the call numbers. -/
theorem link_index {n : Int} (least : 0 ≤ n) (bound : n ≤ 15) :
    ((Reg.mk (UInt8.ofInt n)).index.toNat : Int) = n := by
  obtain ⟨n, rfl⟩ := Int.eq_ofNat_of_zero_le least
  have small : n < 256 := by omega
  simp [Int.emod_eq_of_lt least (by omega : (n : Int) < 256), UInt8.ofInt]

theorem countText_plain (formed : i.Formed) :
    countText i = [] ∨ Bare (countText i) := by
  obtain ⟨_, _, ⟨least, _⟩, _⟩ := Instruction.validate_iff.mp formed.valid
  unfold countText
  split
  · rename_i call
    have link := link_index least (formed.link call)
    have bound := formed.link call
    right
    apply bare_reg_name
    have top : Reg.CP.index.toNat = 15 := rfl
    omega
  · split
    · exact .inr (bare_decimal i.n)
    · exact .inl rfl

theorem operandTexts_plain (formed : i.Formed) :
    (∀ word ∈ operandTexts i, Bare word) ∧ (operandTexts i).length ≤ 2 := by
  obtain ⟨_, register, _, _⟩ := Instruction.validate_iff.mp formed.valid
  unfold operandTexts
  split
  · constructor
    · intro word member
      simp only [mem_cons, not_mem_nil, or_false] at member
      rcases member with rfl | rfl
      · exact bare_decimal i.d
      · exact bare_reg_name register
    · exact Nat.le_refl 2
  · split
    · simp [bare_decimal]
    · simp

theorem Item.Formed.instruction (formed : (Item.op i target).Formed) : i.Formed := by
  cases formed with
  | plain formed | aimed formed => exact formed

theorem plain_partsOf (formed : (Item.op i target).Formed) : (partsOf i target).Plain := by
  obtain ⟨named, _⟩ := Instruction.validate_iff.mp formed.instruction.valid
  obtain ⟨bare, upper⟩ := bare_op_name i.op named
  have counted := countText_plain formed.instruction
  cases formed with
  | aimed instruction aims register displacement identifier =>
    refine ⟨upper, bare, counted, ?_, by simp [partsOf]⟩
    intro word member
    rw [mem_singleton.mp member]
    exact bare_of_isIdentifier identifier
  | plain instruction =>
    unfold partsOf
    cases calledPrimitive? i with
    | some p =>
      refine ⟨upper, bare, .inl rfl, ?_, by simp⟩
      intro word member
      rw [mem_singleton.mp member]
      exact bare_primitive_name p (Primitive.mem_all p)
    | none =>
      obtain ⟨operands, atMostTwo⟩ := operandTexts_plain instruction
      exact ⟨upper, bare, counted, operands, atMostTwo⟩

theorem toString_string (s : String) : toString s = s := rfl

/-- A call's count is never empty: it names a register. -/
theorem writeCount_link {n : Int} (least : 0 ≤ n) (bound : n ≤ 15) :
    writeCount (Reg.mk (UInt8.ofInt n)).name.toList =
      '(' :: (Reg.mk (UInt8.ofInt n)).name.toList ++ [')'] := by
  have index := link_index least bound
  exact writeCount_of_bare (bare_reg_name (by omega))

theorem text_eq_write (formed : (Item.op i target).Formed) :
    (Item.op i target).text.toList = (partsOf i target).write := by
  obtain ⟨named, _, ⟨least, _⟩, _⟩ := Instruction.validate_iff.mp formed.instruction.valid
  have link := fun call => writeCount_link least (formed.instruction.link call)
  have decimalCount := writeCount_of_bare (bare_decimal i.n)
  have blank : writeCount [] = [] := rfl
  cases formed with
  | plain formed =>
    cases primitive : i.primitive? <;> cases shape : i.op <;>
      simp_all [Item.text, Instruction.text, partsOf, calledPrimitive?, countText, operandTexts,
        Parts.write, writeOperands, Op.addressed, Op.counted, Op.displaced, Op.name, toList_repr,
        toString_string, Op.named]
  | aimed formed aims register displacement identifier =>
    cases shape : i.op <;>
      simp_all [Item.text, partsOf, countText, Parts.write, writeOperands,
        Op.aims, Op.counted, Op.name, toList_repr, toString_string]

theorem Op.ofName?_name : ∀ op ∈ Op.named, Op.ofName? op.name = some op := by decide

theorem Primitive.ofName?_name : ∀ p ∈ Primitive.all, Primitive.ofName? p.name = some p := by
  decide

theorem Primitive.displacement_ofDisplacement? {d : Int} {p : Primitive}
    (found : Primitive.ofDisplacement? d = some p) : p.displacement = d := by
  simpa using find?_some found

theorem readAddressed_numeric {op : Op} {n d : Int} {r : Reg} (register : r.index.toNat ≤ 15)
    (least : -32768 ≤ d) (greatest : d ≤ 32767) :
    readAddressed op n [decimal d, r.name.toList] = .ok (.plain op r n d) := by
  simp [readAddressed, readImmediate_decimal least greatest, readRegister_name register, bind,
    Except.bind, pure, Except.pure]

theorem readAddressed_label {op : Op} {n : Int} {target : String}
    (identifier : isIdentifier target.toList = true) :
    readAddressed op n [target.toList] = .ok (.aimed op n target) := by
  simp [readAddressed, identifier]

theorem item_callPrim (p : Primitive) :
    Parts.item ⟨Op.call.name.toList, [], [p.name.toList]⟩ = .ok (.callPrim p) := by
  have known := Op.ofName?_name .call (by decide)
  have primitive := Primitive.ofName?_name p (Primitive.mem_all p)
  simp [Parts.item, Parts.expect, known, primitive, bind, Except.bind, pure, Except.pure]

theorem item_call {n : Int} {operands : List (List Char)} (least : 0 ≤ n) (bound : n ≤ 15)
    (oneOrTwo : operands.length = 1 ∨ operands.length = 2) :
    Parts.item ⟨Op.call.name.toList, (Reg.mk (UInt8.ofInt n)).name.toList, operands⟩ =
      readAddressed .call n operands := by
  have known := Op.ofName?_name .call (by decide)
  have index := link_index least bound
  have register : (Reg.mk (UInt8.ofInt n)).index.toNat ≤ 15 := by omega
  have filled : (Reg.mk (UInt8.ofInt n)).name.toList.isEmpty = false := by
    simpa using (bare_reg_name register).nonempty
  have link := readRegister_name register
  simp only [Parts.item, Parts.expect, String.ofList_toList, known, filled]
  simp [link, index, oneOrTwo, bind, Except.bind]

/-- What a call of a primitive is made of, given that the primitive is found at its address. -/
theorem eq_callPrim {p : Primitive} (formed : i.Formed) (call : i.op = .call)
    (primitive : i.primitive? = some p) : Item.op i none = .callPrim p := by
  have link := formed.primitiveLink call (by simp [primitive])
  obtain ⟨op, r, n, d⟩ := i
  simp only [Instruction.primitive?] at primitive
  split at primitive
  · rename_i base
    have address := Primitive.displacement_ofDisplacement? primitive
    simp_all [Item.callPrim, Item.plain]
  · cases primitive

/-- The parts of an instruction other than a call read as the instruction, operation by
operation. -/
theorem item_plain (formed : i.Formed) (other : i.op ≠ .call) :
    (partsOf i none).item = .ok (.op i none) := by
  obtain ⟨named, register, ⟨least, greatest⟩, lowest, highest⟩ := Instruction.validate_iff.mp
    formed.valid
  have known := Op.ofName?_name i.op named
  have counted := readCount_decimal least greatest
  have immediate := readImmediate_decimal lowest highest
  have filled : (decimal i.n).isEmpty = false := by simpa using (bare_decimal i.n).nonempty
  have address := fun op n => @readAddressed_numeric op n i.d i.r register lowest highest
  obtain ⟨⟨unregistered, uncounted, undisplaced, _, _⟩, _⟩ := formed
  obtain ⟨op, r, n, d⟩ := i
  cases op <;>
    simp_all [partsOf, calledPrimitive?, countText, operandTexts, Op.addressed, Op.counted,
      Op.displaced, Op.named, Parts.item, Parts.expect, readFirstImmediate, Item.plain, bind,
      Except.bind, pure, Except.pure]

theorem item_partsOf
    (formed : (Item.op i target).Formed) : (partsOf i target).item = .ok (.op i target) := by
  obtain ⟨named, register, ⟨least, greatest⟩, lowest, highest⟩ :=
    Instruction.validate_iff.mp formed.instruction.valid
  have known := Op.ofName?_name i.op named
  have counted := readCount_decimal least greatest
  cases formed with
  | plain formed =>
    by_cases call : i.op = .call
    · have bound := formed.link call
      cases primitive : i.primitive? with
      | some p =>
        simp only [partsOf, calledPrimitive?, call, ↓reduceIte, primitive]
        rw [item_callPrim, eq_callPrim formed call primitive]
      | none =>
        simp only [partsOf, calledPrimitive?, call, ↓reduceIte, primitive, countText, operandTexts,
          Op.addressed]
        rw [item_call least bound (.inr rfl), readAddressed_numeric register lowest highest]
        rw [Item.plain, ← call]
    · exact item_plain formed call
  | aimed formed aims atBase zero identifier =>
    have aim := fun op n => @readAddressed_label op n _ identifier
    have link := formed.link
    have uncounted := formed.count
    have filled : (decimal i.n).isEmpty = false := by simpa using (bare_decimal i.n).nonempty
    obtain ⟨op, r, n, d⟩ := i
    cases op with
    | call =>
      simp only [partsOf, countText, ↓reduceIte]
      rw [item_call least (link rfl) (.inl rfl), aim]
      simp_all [Item.aimed]
    | loadA | jump | jumpIf =>
      simp_all [partsOf, countText, Op.counted, Parts.item, Parts.expect, Item.aimed, bind,
        Except.bind]
    | _ => cases aims

theorem blank_indent : ∀ c ∈ "    ".toList, c = ' ' := by
  simp

theorem line_op (formed : (Item.op i target).Formed) :
    (Item.op i target).line.toList = "    ".toList ++ (partsOf i target).write := by
  simp only [Item.line, String.toList_append, text_eq_write formed]

theorem readLine_line {item : Item} (formed : item.Formed) :
    readLine item.line.toList = .ok [item] := by
  cases item with
  | label name =>
    cases formed with
    | label identifier =>
      have read := readLine_label identifier
      rw [String.ofList_toList] at read
      rwa [Item.line, Item.text, String.toList_append]
  | op i target =>
    rw [line_op formed, readLine_write (plain_partsOf formed) blank_indent, item_partsOf formed]
    rfl

/-- An item takes up no more than one line. -/
theorem line_solid {item : Item} (formed : item.Formed) :
    ∀ c ∈ item.line.toList, (c == '\n') = false := by
  have word : ∀ c, isBare c = true → (c == '\n') = false := by
    intro c bare
    have visible := not_isBlank_of_isBare bare
    rw [beq_eq_false_iff_ne]
    rintro rfl
    exact absurd visible (by decide)
  cases item with
  | label name =>
    cases formed with
    | label identifier =>
      intro c member
      rw [Item.line, Item.text, String.toList_append] at member
      rcases mem_append.mp member with inside | colon
      · exact word c ((bare_of_isIdentifier identifier).bare c inside)
      · rw [mem_singleton.mp colon]
        rfl
  | op i target =>
    intro c member
    rw [line_op formed] at member
    rcases mem_append.mp member with space | written
    · rw [blank_indent c space]
      rfl
    · exact write_forall (plain_partsOf formed) word (by simp) c written

theorem lines_listing {items : List Item} (formed : ∀ item ∈ items, item.Formed) :
    lines (listing items).toList = items.map (·.line.toList) ++ [[]] := by
  induction items with
  | nil => rfl
  | cons item items ih =>
    have rest := ih fun other member => formed other (mem_cons_of_mem item member)
    have text : (listing (item :: items)).toList =
        item.line.toList ++ '\n' :: (listing items).toList := by
      simp [listing]
    rw [text, lines, parts_append (line_solid (formed item mem_cons_self)) (by rfl)]
    rw [lines] at rest
    rw [rest]
    rfl

/-- The lines of a listing, numbered from `number`, hold one item each. -/
theorem readLines_listing {items : List Item} (formed : ∀ item ∈ items, item.Formed)
    (number : Nat) :
    readLines number (items.map (·.line.toList) ++ [[]]) = .ok (items.zipIdx number) := by
  induction items generalizing number with
  | nil => rfl
  | cons item items ih =>
    have rest := ih (fun other member => formed other (mem_cons_of_mem item member))
      (number + 1)
    rw [map_cons, cons_append, readLines, readLine_line (formed item mem_cons_self)]
    simp only [rest]
    rfl

theorem readNumbered_listing {items : List Item} (formed : ∀ item ∈ items, item.Formed) :
    readNumbered (listing items) = .ok (items.zipIdx 1) := by
  rw [readNumbered, lines_listing formed, readLines_listing formed]

end Code
end Triangle
