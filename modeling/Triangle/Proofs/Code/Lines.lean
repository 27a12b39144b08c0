import Mathlib
import Triangle.Proofs.Text.Bare

/-! Lines of a listing, taken apart. A line's instruction has a mnemonic, perhaps a count in
parentheses, and operands; the reader finds the parts that the line was written from. -/
namespace Triangle.Text

theorem parts_append {sep : Char → Bool} {body rest : List Char} {c : Char}
    (inside : ∀ d ∈ body, sep d = false) (ends : sep c = true) :
    parts sep (body ++ c :: rest) = body :: parts sep rest := by
  induction body with
  | nil => simp [parts, ends]
  | cons d body ih =>
    have split := ih fun e member => inside e (List.mem_cons_of_mem d member)
    simp [parts, inside d List.mem_cons_self, split]

theorem parts_single {sep : Char → Bool} {body : List Char}
    (inside : ∀ d ∈ body, sep d = false) : parts sep body = [body] := by
  induction body with
  | nil => rfl
  | cons d body ih =>
    have split := ih fun e member => inside e (List.mem_cons_of_mem d member)
    simp [parts, inside d List.mem_cons_self, split]

/-- Trimming takes the blanks in front off a text whose first and last characters show. -/
theorem trim_eq {front : List Char} {c d : Char} {body line : List Char}
    (blank : ∀ b ∈ front, isBlank b = true) (starts : line = c :: body)
    (visible : isBlank c = false) (ends : line.getLast? = some d) (shows : isBlank d = false) :
    trim (front ++ line) = line := by
  have start : trimStart (front ++ line) = line := by
    rw [trimStart, List.dropWhile_append_of_pos blank, starts]
    simp [visible]
  rw [trim, start, trimEnd]
  have last : line.reverse.head? = some d := by rw [List.head?_reverse, ends]
  cases backward : line.reverse with
  | nil => rw [backward] at last; cases last
  | cons e others =>
    rw [backward] at last
    have same : e = d := Option.some.inj last
    rw [List.dropWhile_cons_of_neg (by simp [same, shows]), ← backward, List.reverse_reverse]

theorem Bare.not_blank {cs : List Char} (bare : Bare cs) : ∀ c ∈ cs, isBlank c = false :=
  fun c member => not_isBlank_of_isBare (bare.bare c member)

theorem Bare.ne_mark {cs : List Char} (bare : Bare cs) {mark : Char}
    (member : mark ∈ marks) : ∀ c ∈ cs, c ≠ mark :=
  fun c inside => ne_of_isBare (bare.bare c inside) member

theorem not_isSpaceOrTab_of_isBare {c : Char} (bare : isBare c = true) :
    Code.isSpaceOrTab c = false := by
  have visible := not_isBlank_of_isBare bare
  rw [Bool.eq_false_iff]
  intro space
  simp only [Code.isSpaceOrTab, Bool.or_eq_true, beq_iff_eq] at space
  rcases space with rfl | rfl <;> exact absurd visible (by decide)

theorem Bare.not_space {cs : List Char} (bare : Bare cs) :
    ∀ c ∈ cs, Code.isSpaceOrTab c = false :=
  fun c member => not_isSpaceOrTab_of_isBare (bare.bare c member)

theorem trim_bare {cs : List Char} (bare : Bare cs) : trim cs = cs := by
  obtain ⟨first, others, starts⟩ := List.exists_cons_of_ne_nil bare.nonempty
  have last := List.getLast?_eq_some_getLast bare.nonempty
  exact @trim_eq [] _ _ _ _ (by simp) starts (bare.not_blank first (by simp [starts])) last
    (bare.not_blank _ (List.getLast_mem _))

end Triangle.Text

namespace Triangle.Code

open Text

theorem stripComment_eq {line : List Char} (plain : ∀ c ∈ line, c ≠ ';' ∧ c ≠ '/') :
    stripComment line = line := by
  induction line with
  | nil => rfl
  | cons c line ih =>
    obtain ⟨semicolon, slash⟩ := plain c List.mem_cons_self
    have rest := ih fun d member => plain d (List.mem_cons_of_mem c member)
    simp [stripComment, slash, rest]

/-- How a line writes operands: a word, or a displacement with a register in brackets. -/
def writeOperands : List (List Char) → List Char
  | [] => []
  | [word] => ' ' :: word
  | d :: r :: _ => ' ' :: d ++ '[' :: r ++ [']']

def writeCount (count : List Char) : List Char :=
  if count.isEmpty then [] else '(' :: count ++ [')']

/-- The instruction of a line, written from its parts. -/
def Parts.write (p : Parts) : List Char :=
  p.mnemonic ++ writeCount p.count ++ writeOperands p.operands

/-- Parts whose words the reader takes whole. -/
structure Parts.Plain (p : Parts) : Prop where
  upper : p.mnemonic.map toUpper = p.mnemonic
  mnemonic : Bare p.mnemonic
  count : p.count = [] ∨ Bare p.count
  operands : ∀ word ∈ p.operands, Bare word
  atMostTwo : p.operands.length ≤ 2

theorem map_brackets_bare {word : List Char} (bare : Bare word) :
    word.map (fun c => if isBracketOrComma c then ' ' else c) = word := by
  have kept : ∀ c ∈ word, (if isBracketOrComma c then ' ' else c) = c := by
    intro c inside
    have comma := bare.ne_mark (show ',' ∈ marks by decide) c inside
    have opening := bare.ne_mark (show '[' ∈ marks by decide) c inside
    have closing := bare.ne_mark (show ']' ∈ marks by decide) c inside
    simp [isBracketOrComma, comma, opening, closing]
  exact (List.map_congr_left kept).trans (List.map_id' word)

theorem readOperands_write {operands : List (List Char)}
    (bare : ∀ word ∈ operands, Bare word) (atMostTwo : operands.length ≤ 2) :
    readOperands (writeOperands operands) = operands := by
  have space : isBlank ' ' = true := rfl
  have gap : isBracketOrComma ' ' = false := rfl
  have opening : isBracketOrComma '[' = true := rfl
  have closing : isBracketOrComma ']' = true := rfl
  cases operands with
  | nil => rfl
  | cons d others =>
    have first := bare d List.mem_cons_self
    cases others with
    | nil =>
      simp [readOperands, writeOperands, words, map_brackets_bare first, gap, parts,
        space, parts_single first.not_blank, first.nonempty]
    | cons r others =>
      have second := bare r (by simp)
      obtain rfl : others = [] := List.length_eq_zero_iff.mp (by simpa using atMostTwo)
      simp [readOperands, writeOperands, words, map_brackets_bare first, map_brackets_bare second,
        gap, opening, closing, parts, space, parts_append first.not_blank space,
        parts_append second.not_blank space, first.nonempty, second.nonempty]

theorem span_bare {p : Char → Bool} {word rest : List Char}
    (inside : ∀ c ∈ word, p c = true) (boundary : ∀ c, rest.head? = some c → p c = false) :
    (word ++ rest).span p = (word, rest) := by
  rw [List.span_eq_takeWhile_dropWhile, List.takeWhile_append_of_pos inside,
    List.dropWhile_append_of_pos inside]
  cases rest with
  | nil => simp
  | cons c rest => simp [boundary c rfl]

theorem writeCount_of_bare {count : List Char} (counted : Bare count) :
    writeCount count = '(' :: count ++ [')'] := by
  have filled : count.isEmpty = false := by simpa using counted.nonempty
  simp [writeCount, filled]

/-- What holds of the characters of words and of parentheses holds along a written count. -/
theorem writeCount_forall {holds : Char → Prop} {count : List Char}
    (bare : count = [] ∨ Bare count) (word : ∀ c, isBare c = true → holds c)
    (opening : holds '(') (closing : holds ')') : ∀ c ∈ writeCount count, holds c := by
  rcases bare with rfl | counted
  · simp [writeCount]
  · intro c member
    rw [writeCount_of_bare counted] at member
    simp only [List.cons_append, List.mem_cons, List.mem_append, List.not_mem_nil,
      or_false] at member
    rcases member with rfl | inside | rfl
    · exact opening
    · exact word c (counted.bare c inside)
    · exact closing

theorem writeOperands_forall {holds : Char → Prop} {operands : List (List Char)}
    (bare : ∀ word ∈ operands, Bare word) (word : ∀ c, isBare c = true → holds c)
    (space : holds ' ') (opening : holds '[') (closing : holds ']') :
    ∀ c ∈ writeOperands operands, holds c := by
  intro c member
  unfold writeOperands at member
  split at member
  · cases member
  · rename_i single
    rcases List.mem_cons.mp member with rfl | inside
    · exact space
    · exact word c ((bare single (by simp)).bare c inside)
  · rename_i d r others
    simp only [List.cons_append, List.mem_cons, List.mem_append, List.not_mem_nil,
      or_false] at member
    rcases member with rfl | (inside | rfl | inside) | rfl
    · exact space
    · exact word c ((bare d (by simp)).bare c inside)
    · exact opening
    · exact word c ((bare r (by simp)).bare c inside)
    · exact closing

theorem writeOperands_head (operands : List (List Char)) :
    ∀ c, (writeOperands operands).head? = some c → c = ' ' := by
  intro c head
  unfold writeOperands at head
  split at head <;> simp_all [eq_comm]

theorem readParts_write {p : Parts} (plain : p.Plain) : readParts p.write = .ok p := by
  obtain ⟨mnemonic, count, operands⟩ := p
  have operandsRead := readOperands_write plain.operands plain.atMostTwo
  have ends : ∀ c, (writeOperands operands).head? = some c → (!isSpaceOrTab c) = false := by
    intro c head
    rw [writeOperands_head operands c head]
    rfl
  have unmarked : ∀ c ∈ mnemonic, (c != '(') = true := by
    intro c member
    simpa using plain.mnemonic.ne_mark (show '(' ∈ marks by decide) c member
  have solid : ∀ c ∈ mnemonic ++ writeCount count, (!isSpaceOrTab c) = true := by
    intro c member
    rcases List.mem_append.mp member with named | counting
    · simp [plain.mnemonic.not_space c named]
    · have tight : isSpaceOrTab c = false :=
        writeCount_forall plain.count (fun _ => not_isSpaceOrTab_of_isBare) rfl rfl c counting
      simp [tight]
  have headTail := span_bare solid ends
  unfold readParts
  rw [Parts.write, headTail]
  simp only [operandsRead]
  rcases plain.count with rfl | counted
  · have whole := @span_bare _ _ [] unmarked (by simp)
    simp only [writeCount, List.isEmpty_nil, ↓reduceIte]
    rw [whole]
    simp [plain.upper]
  · have whole := @span_bare _ _ ('(' :: count ++ [')']) unmarked (by simp)
    rw [writeCount_of_bare counted, whole]
    simp [plain.upper]

/-- What holds of the characters of words, of the space and of the marks in use holds along a
written instruction. -/
theorem write_forall {holds : Char → Prop} {p : Parts} (plain : p.Plain)
    (word : ∀ c, isBare c = true → holds c) (others : ∀ c ∈ [' ', '(', ')', '[', ']'], holds c) :
    ∀ c ∈ p.write, holds c := by
  intro c member
  simp only [Parts.write, List.mem_append] at member
  rcases member with (named | counting) | operand
  · exact word c (plain.mnemonic.bare c named)
  · exact writeCount_forall plain.count word (others _ (by decide)) (others _ (by decide)) c
      counting
  · exact writeOperands_forall plain.operands word (others _ (by decide)) (others _ (by decide))
      (others _ (by decide)) c operand

/-- A written instruction has no colon and starts no comment. -/
theorem mem_write {p : Parts} (plain : p.Plain) :
    ∀ c ∈ p.write, c ≠ ':' ∧ c ≠ ';' ∧ c ≠ '/' := by
  refine write_forall plain ?_ (by simp)
  intro c bare
  exact ⟨ne_of_isBare bare (by decide), ne_of_isBare bare (by decide),
    ne_of_isBare bare (by decide)⟩

/-- The last character of a written instruction shows. -/
theorem write_ends {p : Parts} (plain : p.Plain) :
    ∃ c, p.write.getLast? = some c ∧ isBlank c = false := by
  obtain ⟨mnemonic, count, operands⟩ := p
  cases operands with
  | nil =>
    rcases plain.count with rfl | counted
    · have last := List.getLast?_eq_some_getLast plain.mnemonic.nonempty
      refine ⟨_, by simpa [Parts.write, writeCount, writeOperands] using last, ?_⟩
      exact plain.mnemonic.not_blank _ (List.getLast_mem _)
    · refine ⟨')', ?_, rfl⟩
      simp [Parts.write, writeCount_of_bare counted, writeOperands, List.getLast?_cons]
  | cons d others =>
    cases others with
    | nil =>
      have bare := plain.operands d (by simp)
      have last := List.getLast?_eq_some_getLast bare.nonempty
      refine ⟨d.getLast bare.nonempty, ?_, bare.not_blank _ (List.getLast_mem _)⟩
      simp [Parts.write, writeOperands, List.getLast?_append, List.getLast?_cons, last]
    | cons r others =>
      refine ⟨']', ?_, rfl⟩
      simp [Parts.write, writeOperands, List.getLast?_cons]

/-- The line of an instruction reads as the item of the parts it was written from. -/
theorem readLine_write {p : Parts} (plain : p.Plain) {front : List Char}
    (blank : ∀ c ∈ front, c = ' ') :
    readLine (front ++ p.write) = p.item.map ([·]) := by
  have quiet : ∀ c ∈ front ++ p.write, c ≠ ';' ∧ c ≠ '/' := by
    intro c member
    rcases List.mem_append.mp member with space | written
    · rw [blank c space]
      decide
    · exact (mem_write plain c written).2
  obtain ⟨first, others, starts⟩ := List.exists_cons_of_ne_nil plain.mnemonic.nonempty
  have begins : p.write = first :: (others ++ writeCount p.count ++ writeOperands p.operands) := by
    simp [Parts.write, starts]
  obtain ⟨last, ends, shows⟩ := write_ends plain
  have trimmed : trim (front ++ p.write) = p.write := by
    refine trim_eq ?_ begins ?_ ends shows
    · intro c space
      rw [blank c space]
      rfl
    · exact plain.mnemonic.not_blank first (by simp [starts])
  have unlabelled : ∀ fuel, takeLabels fuel p.write = .ok ([], p.write) := by
    intro fuel
    cases fuel with
    | zero => rfl
    | succ fuel =>
      have colonless : ∀ c ∈ p.write, (c != ':') = true := by
        intro c member
        simpa using (mem_write plain c member).1
      have whole := @span_bare _ _ [] colonless (by simp)
      rw [List.append_nil] at whole
      rw [takeLabels, whole]
      rw [begins]
  have filled : p.mnemonic.isEmpty = false := by simpa using plain.mnemonic.nonempty
  have written : p.write.isEmpty = false := by rw [begins]; rfl
  unfold readLine
  simp only [stripComment_eq quiet, trimmed, unlabelled]
  simp only [bind, Except.bind, pure, Except.pure, written, Bool.false_eq_true, ↓reduceIte,
    readParts_write plain, filled, List.map_nil, List.nil_append]
  cases p.item with
  | error cause | ok cause => rfl

/-- A line with a label and nothing else. -/
theorem takeLabels_label {name : List Char} (identifier : isIdentifier name = true) (fuel : Nat) :
    takeLabels (fuel + 1) (name ++ [':']) = .ok ([String.ofList name], []) := by
  have bare := bare_of_isIdentifier identifier
  obtain ⟨first, others, starts⟩ := List.exists_cons_of_ne_nil bare.nonempty
  have lone : trim name = name := trim_bare bare
  have colonless : ∀ c ∈ name, (c != ':') = true := by
    intro c member
    simpa using bare.ne_mark (show ':' ∈ marks by decide) c member
  have cut := @span_bare _ _ [':'] colonless (by simp)
  have tight : name.any isSpaceOrTab = false := by simpa using bare.not_space
  have ended : takeLabels fuel (trim []) = .ok ([], []) := by cases fuel <;> rfl
  rw [takeLabels, cut]
  rw [starts] at lone tight identifier ⊢
  simp only [lone, tight, identifier, ended, Bool.false_eq_true, ↓reduceIte, Bool.not_true]

theorem readLine_label {name : List Char} (identifier : isIdentifier name = true) :
    readLine (name ++ [':']) = .ok [.label (String.ofList name)] := by
  have bare := bare_of_isIdentifier identifier
  obtain ⟨first, others, starts⟩ := List.exists_cons_of_ne_nil bare.nonempty
  have quiet : ∀ c ∈ name ++ [':'], c ≠ ';' ∧ c ≠ '/' := by
    intro c member
    rcases List.mem_append.mp member with inside | colon
    · exact ⟨bare.ne_mark (by decide) c inside, bare.ne_mark (by decide) c inside⟩
    · rw [List.mem_singleton.mp colon]
      decide
  have trimmed : trim (name ++ [':']) = name ++ [':'] :=
    @trim_eq [] _ ':' _ _ (by simp) (by rw [starts]; rfl)
      (bare.not_blank first (by simp [starts])) (by simp) rfl
  have labelled := takeLabels_label identifier name.length
  unfold readLine
  simp only [stripComment_eq quiet, trimmed, List.length_append, List.length_singleton, labelled]
  rfl

end Triangle.Code
