import Mathlib
import Triangle.Proofs.Code.Lines
import Triangle.Proofs.Code.Outcome

/-! The lines that assembled code comes from. A line of a text has its labels and then at most one
instruction, so lines grow with addresses; and a line is read alone as it is read in the text. -/
namespace Triangle.Text

theorem not_sep_of_mem_parts {sep : Char → Bool} {cs body : List Char} (member : body ∈ parts sep cs) :
    ∀ c ∈ body, sep c = false := by
  induction cs generalizing body with
  | nil =>
    rw [parts, List.mem_singleton] at member
    simp [member]
  | cons c cs ih =>
    rw [parts] at member
    split at member
    · rcases List.mem_cons.mp member with rfl | later
      · simp
      · exact ih later
    · rename_i inside
      split at member
      · rw [List.mem_singleton] at member
        simpa [member] using inside
      · rename_i part others split
        rw [split] at ih
        rcases List.mem_cons.mp member with rfl | later
        · intro d place
          rcases List.mem_cons.mp place with rfl | behind
          · simpa using inside
          · exact ih List.mem_cons_self d behind
        · exact ih (List.mem_cons_of_mem _ later)

/-- A line of a text is the only line of itself. -/
theorem lines_line {cs body : List Char} (member : body ∈ lines cs) : lines body = [body] :=
  parts_single (not_sep_of_mem_parts member)

end Triangle.Text

namespace Triangle.Code
open List

/-! ## One line -/

/-- The item is an instruction, relative to the code base if it has a target. -/
def Item.Instructs : Item → Prop
  | .label _ => False
  | .op ins target => target.isSome → ins.r = .CB

/-- What is read, if anything, is an instruction. -/
def Instructs (result : Except SyntaxCause Item) : Prop := ∀ item, result = .ok item → item.Instructs

theorem instructs_error (cause : SyntaxCause) : Instructs (.error cause) := nofun

theorem instructs_plain (op : Op) (r : Reg) (n d : Int) : Instructs (.ok (.plain op r n d)) := by
  rintro _ ⟨⟩
  exact nofun

theorem instructs_bind {α : Type} {x : Except SyntaxCause α} {f : α → Except SyntaxCause Item}
    (each : ∀ a, Instructs (f a)) : Instructs (x >>= f) := by
  cases x with
  | error cause => exact instructs_error cause
  | ok a => exact each a

theorem instructs_readAddressed (op : Op) (n : Int) (operands : List (List Char)) :
    Instructs (readAddressed op n operands) := by
  unfold readAddressed
  split
  · split
    · rintro _ ⟨⟩
      exact fun _ => rfl
    · exact instructs_error _
  · exact instructs_bind fun _ => instructs_bind fun _ => instructs_plain _ _ _ _
  · exact instructs_plain _ _ _ _

theorem Parts.item_instructs (p : Parts) : Instructs p.item := by
  unfold Parts.item
  extract_lets mnemonic
  cases Op.ofName? mnemonic with
  | none => exact instructs_error _
  | some op =>
    cases op with
    | callI | jumpI | halt => exact instructs_bind fun _ => instructs_plain _ _ _ _
    | loadI | storeI | loadL | push =>
      exact instructs_bind fun _ => instructs_bind fun _ => instructs_plain _ _ _ _
    | ret | pop =>
      exact instructs_bind fun _ => instructs_bind fun _ => instructs_bind fun _ =>
        instructs_plain _ _ _ _
    | load | store | jumpIf =>
      exact instructs_bind fun _ => instructs_bind fun _ => instructs_readAddressed _ _ _
    | loadA | jump => exact instructs_bind fun _ => instructs_readAddressed _ _ _
    | call =>
      dsimp only
      split
      · refine instructs_bind fun _ => ?_
        split
        · exact instructs_plain _ _ _ _
        · exact instructs_error _
      · exact instructs_bind fun _ => instructs_bind fun _ => instructs_readAddressed _ _ _
    | undefined code => exact instructs_error _

theorem of_bind_ok {α β : Type} {x : Except SyntaxCause α} {f : α → Except SyntaxCause β} {b : β}
    (done : x >>= f = .ok b) : ∃ a, x = .ok a ∧ f a = .ok b := by
  cases x with
  | error cause => cases done
  | ok a => exact ⟨a, rfl, done⟩

/-- A line has its labels, and then an instruction or nothing. -/
theorem readLine_ok {raw : List Char} {items : List Item} (done : readLine raw = .ok items) :
    ∃ labels : List String, ∃ last : Option Item, (∀ item ∈ last, item.Instructs) ∧
      items = labels.map .label ++ last.toList := by
  unfold readLine at done
  obtain ⟨⟨labels, rest⟩, -, done⟩ := of_bind_ok done
  refine ⟨labels, ?_⟩
  dsimp only at done
  split at done
  · cases done
    exact ⟨none, nofun, (append_nil _).symm⟩
  · obtain ⟨parts, -, done⟩ := of_bind_ok done
    split at done
    · cases done
      exact ⟨none, nofun, (append_nil _).symm⟩
    · obtain ⟨item, found, done⟩ := of_bind_ok done
      cases done
      refine ⟨some item, ?_, rfl⟩
      rintro _ ⟨⟩
      exact parts.item_instructs item found

/-! ## All lines -/

/-- The item is the instruction of line `n`, where the first of the lines has this number. -/
def OfLine (number : Nat) (raws : List (List Char)) (item : Item) (n : Nat) : Prop :=
  ∃ k raw, ∃ labels : List String, n = number + k ∧ raws[k]? = some raw ∧ item.Instructs ∧
    readLine raw = .ok (labels.map .label ++ [item])

theorem OfLine.later {number n : Nat} {raws : List (List Char)} {raw : List Char} {item : Item}
    (origin : OfLine (number + 1) raws item n) : OfLine number (raw :: raws) item n := by
  obtain ⟨k, other, labels, rfl, line, rest⟩ := origin
  exact ⟨k + 1, other, labels, by omega, line, rest⟩

theorem sourceLines_line (labels : List String) (last : Option Item) (number : Nat)
    (more : List (Item × Nat)) :
    sourceLines ((labels.map Item.label ++ last.toList).map (·, number) ++ more) =
      ((last.filter Item.emitted).map fun _ => number).toList ++ sourceLines more := by
  have silent : (labels.map Item.label).filter Item.emitted = [] := by simp [Item.emitted]
  have kept : ((labels.map Item.label ++ last.toList).map (·, number)).filter (·.1.emitted) =
      ((last.filter Item.emitted).toList).map (·, number) := by
    rw [filter_map, filter_append, Option.toList_filter]
    simpa [Function.comp_def] using silent
  rw [sourceLines, filter_append, map_append, kept]
  cases last.filter Item.emitted <;> rfl

theorem readLines_ok {number : Nat} {raws : List (List Char)} {items : List (Item × Nat)}
    (done : readLines number raws = .ok items) :
    (sourceLines items).Pairwise (· < ·) ∧
      ∀ item n, (item, n) ∈ items → item.emitted → OfLine number raws item n := by
  induction raws generalizing number items with
  | nil =>
    cases done
    simp [sourceLines]
  | cons raw raws ih =>
    rw [readLines] at done
    split at done
    · cases done
    rename_i first read
    split at done
    · cases done
    rename_i more later
    cases done
    obtain ⟨sorted, origin⟩ := ih later
    obtain ⟨labels, last, instructs, rfl⟩ := readLine_ok read
    constructor
    · rw [sourceLines_line]
      refine pairwise_append.mpr ⟨by cases last.filter Item.emitted <;> simp, sorted, ?_⟩
      intro n here m behind
      obtain ⟨_, -, rfl⟩ := Option.map_eq_some_iff.mp (Option.mem_toList.mp here)
      obtain ⟨⟨item, _⟩, kept, rfl⟩ := mem_map.mp behind
      obtain ⟨k, _, _, same, _⟩ := origin item _ (mem_filter.mp kept).1 (mem_filter.mp kept).2
      omega
    · intro item n member emitted
      rcases mem_append.mp member with here | behind
      · obtain ⟨_, place, same⟩ := mem_map.mp here
        cases same
        rcases mem_append.mp place with label | single
        · obtain ⟨name, -, rfl⟩ := mem_map.mp label
          cases emitted
        · cases Option.mem_toList.mp single
          exact ⟨0, raw, labels, rfl, rfl, instructs item rfl, read⟩
      · exact (origin item n behind emitted).later

/-- A line that stands in a text is read as it is read there. -/
theorem read_line {text : String} {raw : List Char} {items : List Item}
    (member : raw ∈ Text.lines text.toList) (done : readLine raw = .ok items) :
    read (String.ofList raw) = .ok items := by
  have single : readNumbered (String.ofList raw) = .ok (items.map (·, 1)) := by
    rw [readNumbered, String.toList_ofList, Text.lines_line member]
    simp [readLines, done]
  simp [read, single, Function.comp_def]

theorem Item.Instructs.denotes {items : List Item} {made ins : Instruction} {target : Option String}
    (instructs : (Item.op made target).Instructs) (denotes : Denotes items (.op made target) ins) :
    ins = { made with d := ins.d } := by
  cases denotes with
  | plain => rfl
  | aimed marks => rw [← instructs rfl]

/-- Every code address has a line, later addresses have later lines, and the line read alone has, after
its labels, the instruction that stands at the address, but for the address of its target. -/
theorem assemble_lines {text : String} {code : List Instruction} {lines : List Nat}
    (done : assemble text = .ok (code, lines)) :
    lines.length = code.length ∧ lines.Pairwise (· < ·) ∧ ∃ items, read text = .ok items ∧
      ∀ (k : Nat) (ins : Instruction), code[k]? = some ins →
        ∃ (n : Nat) (raw : List Char) (labels : List String) (made : Instruction) (target : Option String),
        lines[k]? = some (n + 1) ∧ (Text.lines text.toList)[n]? = some raw ∧
          read (String.ofList raw) = .ok (labels.map .label ++ [.op made target]) ∧
          Denotes items (.op made target) ins ∧ ins = { made with d := ins.d } := by
  unfold assemble at done
  split at done
  · cases done
  rename_i numbered found
  split at done
  · cases done
  rename_i resolved
  cases done
  obtain ⟨sorted, origin⟩ := readLines_ok found
  -- addresses, lines and items are all numbered by the items that are kept
  have kept : remaining (numbered.map Prod.fst) = (numbered.filter (·.1.emitted)).map Prod.fst :=
    (remaining_eq _).trans filter_map
  cases resolve_iff_outcome.mp resolved with
  | resolved orderly fine =>
    rw [kept] at fine
    refine ⟨by simpa [sourceLines] using fine.length_eq, sorted, numbered.map Prod.fst,
      by simp [read, found], fun k ins here => ?_⟩
    obtain ⟨⟨item, n⟩, place, resolves⟩ :
        ∃ entry, (numbered.filter (·.1.emitted))[k]? = some entry ∧
          Resolves (numbered.map Prod.fst) entry.1 ins := by
      obtain ⟨same, each⟩ := forall₂_iff_get.mp fine
      obtain ⟨less, rfl⟩ := List.getElem?_eq_some_iff.mp here
      rw [length_map] at same
      exact ⟨_, getElem?_eq_getElem (same ▸ less), by simpa using each k (by simpa [same]) less⟩
    obtain ⟨inside, emitted⟩ := mem_filter.mp (mem_of_getElem? place)
    obtain ⟨x, raw, labels, rfl, line, instructs, alone⟩ := origin item n inside emitted
    cases item with
    | label name => cases emitted
    | op made target =>
      refine ⟨x, raw, labels, made, target, ?_, line, read_line (mem_of_getElem? line) alone,
        resolves.1, instructs.denotes resolves.1⟩
      rw [sourceLines, getElem?_map, place, Nat.add_comm]
      rfl

/-- Labels, a comment, an empty line and an instruction without effect, around two instructions. -/
def annotated : String := "; start\nloop: LOADL 1\n\n push 0\nagain: JUMP loop // back"

theorem annotated_lines :
    assemble annotated = .ok ([⟨.loadL, .CB, 0, 1⟩, ⟨.jump, .CB, 0, 0⟩], [2, 5]) ∧
    ∃ (n : Nat) (raw : List Char) (labels : List String) (made : Instruction) (target : Option String),
      [2, 5][1]? = some (n + 1) ∧ (Text.lines annotated.toList)[n]? = some raw ∧
        read (String.ofList raw) = .ok (labels.map .label ++ [.op made target]) ∧
        ⟨.jump, .CB, 0, 0⟩ = { made with d := 0 } := by
  have done : assemble annotated = .ok ([⟨.loadL, .CB, 0, 1⟩, ⟨.jump, .CB, 0, 0⟩], [2, 5]) := rfl
  obtain ⟨-, -, items, -, each⟩ := assemble_lines done
  obtain ⟨n, raw, labels, made, target, line, there, alone, -, same⟩ := each 1 _ rfl
  exact ⟨done, n, raw, labels, made, target, line, there, alone, same⟩

end Triangle.Code
