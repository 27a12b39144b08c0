import Mathlib
import Triangle.Proofs.Json.Scalars

/-! Printed JSON reads back. A value whose members have the shapes that go with their keys is
printed as a text from which the reader gets the value again, as long as it nests within the
limit. -/
namespace Triangle.Json

open List (mem_cons_self cons_append append_assoc nil_append length_cons cons_ne_nil length_append)

/-! ## Shapes and depth -/

/-- The values that the text of a tree can hold: each has the shape that its place asks for. -/
inductive Shaped : Shape → Json → Prop where
  | text (s : String) : Shaped .text (.str s)
  | character (s : String) : Shaped .character (.str s)
  | coordinate {n : Int} (fits : Text.Numeral.Fits 64 n) : Shaped .coordinate (.int n)
  | int {n : Int} (fits : Text.Numeral.Fits 64 n) : Shaped .int (.int n)
  | bool (b : Bool) : Shaped .bool (.bool b)
  | object {part : Part} {ms : List (String × Json)}
      (known : ∀ m ∈ ms, (part.shape? m.1).isSome = true)
      (each : ∀ m ∈ ms, ∀ shape, part.shape? m.1 = some shape → Shaped shape m.2)
      (distinct : (ms.map Prod.fst).Nodup) : Shaped (.object part) (.obj ms)
  | list {part : Part} {xs : List Json} (each : ∀ x ∈ xs, Shaped (.object part) x) :
    Shaped (.list part) (.arr xs)

mutual
/-- How deep brackets nest in a value. -/
def nesting : Json → Nat
  | .arr xs => elemsNesting xs + 1
  | .obj ms => membersNesting ms + 1
  | .null | .bool _ | .int _ | .str _ => 0

def elemsNesting : List Json → Nat
  | [] => 0
  | x :: xs => max x.nesting (elemsNesting xs)

def membersNesting : List (String × Json) → Nat
  | [] => 0
  | (_, x) :: rest => max x.nesting (membersNesting rest)
end

theorem Limit.admits_iff {limit : Limit} {n : Nat} :
    limit.admits n = true ↔ ∀ most ∈ limit, n ≤ most := by
  cases limit <;> simp [admits]

theorem Limit.admits_max {limit : Limit} {depth m n : Nat} :
    limit.admits ((depth + max m n : Nat) : Int) = true ↔
      limit.admits ((depth + m : Nat) : Int) = true ∧
        limit.admits ((depth + n : Nat) : Int) = true := by
  simp only [admits_iff, ← forall_and]
  refine forall₂_congr fun most _ => ?_
  omega

theorem Limit.admits_of_le {limit : Limit} {m n : Nat} (le : m ≤ n)
    (deep : limit.admits n = true) : limit.admits m = true := by
  rw [admits_iff] at deep ⊢
  exact fun most is => le.trans (deep most is)

theorem readCharacter_quoted (text : String) (rest : List Char) :
    Shape.readCharacter .given (text.toList.flatMap escape ++ '"' :: rest) =
      some (.str text, rest) := by
  simp only [Shape.readCharacter, readString_quoted]
  split
  · rename_i c single
    have only : text.toList = [c] := by
      unfold Text.Form.single? at single
      split at single <;> simp_all
    rw [← String.ofList_toList (s := text), only]
    rfl
  · rw [String.ofList_toList]

theorem skip_skip (cs : List Char) : skip (skip cs) = skip cs := by
  induction cs with
  | nil => rfl
  | cons c cs ih =>
    cases blank : isBlank c
    · rw [skip_visible blank, skip_visible blank]
    · simpa [skip, blank] using ih

section
variable {limit : Limit} {depth fuel level outer : Nat} {shape : Shape} {part : Part} {old : Json}
  {rest : List Char}

/-- Blanks in front of a value do not matter. -/
theorem readValue_congr {cs cs' : List Char} (same : skip cs = skip cs') :
    Shape.readValue .given limit depth fuel shape old cs =
      Shape.readValue .given limit depth fuel shape old cs' := by
  cases fuel with
  | zero => rfl
  | succ fuel => rw [Shape.readValue.eq_def, Shape.readValue.eq_def]; simp only [same]

theorem readElems_skip {olds : List Json} (cs : List Char) :
    Shape.readElems .given limit depth fuel part olds (skip cs) =
      Shape.readElems .given limit depth fuel part olds cs := by
  cases fuel with
  | zero => rfl
  | succ fuel =>
    rw [Shape.readElems.eq_def, Shape.readElems.eq_def]
    simp only [readValue_congr (skip_skip cs)]

theorem readMembers_skip {done : List (String × Json)} (cs : List Char) :
    Shape.readMembers .given limit depth fuel part done (skip cs) =
      Shape.readMembers .given limit depth fuel part done cs := by
  have same : part.readKey .given (skip cs) = part.readKey .given cs := by
    rw [Part.readKey.eq_def, Part.readKey.eq_def, skip_skip]
  cases fuel with
  | zero => rfl
  | succ fuel =>
    rw [Shape.readMembers.eq_def, Shape.readMembers.eq_def]
    simp only [same]

/-- An object is read if its bracket and those inside are within the limit. -/
theorem readValue_object {members : List (String × Json)} {cs : List Char}
    (start : ∃ tail, skip cs = '"' :: tail)
    (read : limit.admits ((depth + 1 : Nat) : Int) = true →
      Shape.readMembers .given limit (depth + 1) fuel part [] cs =
        if limit.admits ((depth + 1 + membersNesting members : Nat) : Int) then some (members, rest)
        else none) :
    Shape.readValue .given limit depth (fuel + 1) (.object part) .null ('\x7b' :: cs) =
      if limit.admits ((depth + (Json.obj members).nesting : Nat) : Int) then
        some (.obj members, rest)
      else none := by
  have total : depth + (Json.obj members).nesting = depth + 1 + membersNesting members := by
    rw [nesting]
    omega
  have opens : limit.admits ((depth + 1 + membersNesting members : Nat) : Int) = true →
      limit.admits ((depth + 1 : Nat) : Int) = true := Limit.admits_of_le (by omega)
  obtain ⟨tail, start⟩ := start
  rw [← readMembers_skip, start, Nat.cast_succ] at read
  rw [Nat.cast_succ] at opens
  rw [Shape.readValue.eq_def, total]
  simp only [skip_visible (show isBlank '\x7b' = false from rfl), start, Json.members]
  generalize limit.admits ((depth + 1 + membersNesting members : Nat) : Int) = deep at read opens ⊢
  generalize limit.admits ((depth : Int) + 1) = opened at read opens ⊢
  cases opened <;> cases deep <;> simp_all

theorem readValue_list {elems : List Json} {cs : List Char}
    (start : ∃ tail, skip cs = '\x7b' :: tail)
    (read : limit.admits ((depth + 1 : Nat) : Int) = true →
      Shape.readElems .given limit (depth + 1) fuel part [] cs =
        if limit.admits ((depth + 1 + elemsNesting elems : Nat) : Int) then some (elems, rest)
        else none) :
    Shape.readValue .given limit depth (fuel + 1) (.list part) .null ('[' :: cs) =
      if limit.admits ((depth + (Json.arr elems).nesting : Nat) : Int) then some (.arr elems, rest)
      else none := by
  have total : depth + (Json.arr elems).nesting = depth + 1 + elemsNesting elems := by
    rw [nesting]
    omega
  have opens : limit.admits ((depth + 1 + elemsNesting elems : Nat) : Int) = true →
      limit.admits ((depth + 1 : Nat) : Int) = true := Limit.admits_of_le (by omega)
  obtain ⟨tail, start⟩ := start
  rw [← readElems_skip, start, Nat.cast_succ] at read
  rw [Nat.cast_succ] at opens
  rw [Shape.readValue.eq_def, total]
  simp only [skip_visible (show isBlank '[' = false from rfl), start, Json.elems]
  generalize limit.admits ((depth + 1 + elemsNesting elems : Nat) : Int) = deep at read opens ⊢
  generalize limit.admits ((depth : Int) + 1) = opened at read opens ⊢
  cases opened <;> cases deep <;> simp_all [Shape.isNested]

/-- Members are separated by commas, which end a number. -/
theorem boundary_elems (level outer : Nat) (xs : List Json) (rest : List Char) :
    ∀ c ∈ (elemChars level true xs ++ (newline outer ++ rest)).head?, c.isDigit = false := by
  cases xs with
  | nil => simp [elemChars, newline]
  | cons x xs => simp [elemChars, comma]

theorem boundary_members (level outer : Nat) (ms : List (String × Json)) (rest : List Char) :
    ∀ c ∈ (memberChars level true ms ++ (newline outer ++ rest)).head?, c.isDigit = false := by
  cases ms with
  | nil => simp [memberChars, newline]
  | cons m ms => simp [memberChars, comma]

theorem chars_object {j : Json} (shaped : Shaped (.object part) j) (level : Nat) :
    ∃ tail, chars level j = '\x7b' :: tail := by
  cases shaped with
  | @object _ ms _ _ _ => cases ms <;> exact ⟨_, rfl⟩

theorem setMember_new {key : String} {done : List (String × Json)} (x : Json)
    (fresh : key ∉ done.map Prod.fst) : setMember key x done = done ++ [(key, x)] := by
  induction done with
  | nil => rfl
  | cons m done ih =>
    rw [List.map_cons, List.mem_cons, not_or] at fresh
    obtain ⟨other, y⟩ := m
    rw [setMember, if_neg (Ne.symm fresh.1), ih fresh.2]
    rfl

theorem lookup_new {key : String} {done : List (String × Json)} (fresh : key ∉ done.map Prod.fst) :
    done.lookup key = none := by
  rw [List.lookup_eq_none_iff]
  intro m member
  simp only [bne_iff_ne, ne_eq]
  exact fun same => fresh (same ▸ List.mem_map_of_mem member)

/-- A number begins with a digit or a minus sign. -/
theorem decimal_start (n : Int) (rest : List Char) :
    ∃ c cs, Text.decimal n ++ rest = c :: cs ∧ isBlank c = false ∧ c ≠ 'n' := by
  unfold Text.decimal
  split
  · exact ⟨'-', _, rfl, rfl, by decide⟩
  · obtain ⟨c, cs, shape⟩ := List.exists_cons_of_ne_nil (@Nat.toDigits_ne_nil n.natAbs 10)
    have digit : c.isDigit = true := Text.Numeral.isDigit_toDigits (n := n.natAbs) (by simp [shape])
    refine ⟨c, cs ++ rest, by rw [shape]; rfl, ?_, ?_⟩
    · by_contra blank
      simp only [isBlank, Bool.not_eq_false, Bool.or_eq_true, beq_iff_eq] at blank
      rcases blank with ((rfl | rfl) | rfl) | rfl <;> cases digit
    · rintro rfl
      cases digit

mutual
theorem readValue_chars : ∀ (j : Json) {shape : Shape} {depth fuel level : Nat} {rest : List Char},
    Shaped shape j → limit.admits depth = true → (∀ c ∈ rest.head?, c.isDigit = false) →
    2 * (chars level j ++ rest).length < fuel →
    Shape.readValue .given limit depth fuel shape .null (chars level j ++ rest) =
      if limit.admits ((depth + j.nesting : Nat) : Int) then some (j, rest) else none
  | _, _, _, 0, _, _, _, _, _, enough => by omega
  | .null, shape, depth, fuel + 1, level, rest, shaped, admitted, boundary,
    enough => by cases shaped
  | .bool b, shape, depth, fuel + 1, level, rest, shaped, admitted, boundary, enough => by
    cases shaped
    rw [nesting, if_pos (show limit.admits ((depth + 0 : Nat) : Int) = true from admitted),
      Shape.readValue.eq_def]
    cases b <;> simp [chars, Shape.isNested, skip, isBlank]
  | .int n, shape, depth, fuel + 1, level, rest, shaped, admitted, boundary, enough => by
    obtain ⟨c, cs, start, visible, other⟩ := decimal_start n rest
    rw [nesting, if_pos (show limit.admits ((depth + 0 : Nat) : Int) = true from admitted),
      Shape.readValue.eq_def]
    simp only [chars]
    cases shaped with
    | coordinate fits | int fits =>
      have read := readInt_decimal fits boundary
      rw [start] at read
      simp [Shape.isNested, start, skip_visible visible, Shape.readNumber, read, other]
  | .str text, shape, depth, fuel + 1, level, rest, shaped, admitted, boundary, enough => by
    have start := quoted_append text rest
    have visible : isBlank '"' = false := rfl
    rw [nesting, if_pos (show limit.admits ((depth + 0 : Nat) : Int) = true from admitted),
      Shape.readValue.eq_def]
    cases shaped with
    | text => simp [chars, Shape.isNested, start, skip_visible visible, Shape.readText,
      readString_quoted]
    | character => simp [chars, Shape.isNested, start, skip_visible visible, readCharacter_quoted]
  | .arr [], shape, depth, fuel + 1, level, rest, shaped, admitted, boundary, enough => by
    cases shaped
    rw [Shape.readValue.eq_def]
    cases opened : limit.admits ((depth : Int) + 1) <;>
      simp [chars, nesting, elemsNesting, Shape.isNested, skip, isBlank, opened]
  | .arr (x :: xs), shape, depth, fuel + 1, level, rest, shaped, admitted, boundary, enough => by
    cases shaped with
    | list each =>
      obtain ⟨tail, start⟩ := chars_object (each x mem_cons_self) (level + 1)
      simp only [chars, cons_append, append_assoc, nil_append, length_cons] at enough ⊢
      refine readValue_list ?_ fun opened =>
        readElems_chars (x :: xs) (cons_ne_nil x xs) each opened (by omega)
      simp only [elemChars, start, comma, Bool.false_eq_true, ↓reduceIte, nil_append,
        append_assoc, cons_append, skip_front (blank_newline _)]
      exact ⟨_, skip_visible rfl _⟩
  | .obj [], shape, depth, fuel + 1, level, rest, shaped, admitted, boundary, enough => by
    cases shaped
    rw [Shape.readValue.eq_def]
    cases opened : limit.admits ((depth : Int) + 1) <;>
      simp [chars, nesting, membersNesting, Shape.isNested, skip, isBlank, opened, Json.members]
  | .obj (m :: ms), shape, depth, fuel + 1, level, rest, shaped, admitted, boundary, enough => by
    cases shaped with
    | object known each distinct =>
      obtain ⟨key, x⟩ := m
      simp only [chars, cons_append, append_assoc, nil_append, length_cons] at enough ⊢
      refine readValue_object ?_ fun opened =>
        readMembers_chars ((key, x) :: ms) (cons_ne_nil _ ms) known each distinct opened
          (by omega)
      simp only [memberChars, comma, Bool.false_eq_true, ↓reduceIte, nil_append,
        append_assoc, quoted_append, skip_front (blank_newline _)]
      exact ⟨_, skip_visible rfl _⟩

theorem readElems_chars : ∀ (xs : List Json) {part : Part} {depth fuel level outer : Nat}
    {rest : List Char}, xs ≠ [] → (∀ x ∈ xs, Shaped (.object part) x) → limit.admits depth = true →
    2 * (elemChars level false xs ++ (newline outer ++ ']' :: rest)).length + 1 < fuel →
    Shape.readElems .given limit depth fuel part []
        (elemChars level false xs ++ (newline outer ++ ']' :: rest)) =
      if limit.admits ((depth + elemsNesting xs : Nat) : Int) then some (xs, rest) else none
  | _, _, _, 0, _, _, _, _, _, _, enough => by omega
  | [], _, _, _, _, _, _, nonempty, _, _, _ => absurd rfl nonempty
  | x :: xs, part, depth, fuel + 1, level, outer, rest, _, each, admitted, enough => by
    simp only [elemChars, comma, Bool.false_eq_true, ↓reduceIte, nil_append,
      append_assoc] at enough ⊢
    have read := readValue_chars x (each x mem_cons_self) admitted
      (boundary_elems level outer xs (']' :: rest))
      (show 2 * (chars level x ++ (elemChars level true xs ++ (newline outer ++ ']' ::
        rest))).length
        < fuel by simp only [length_append] at enough ⊢; omega)
    rw [← readValue_congr (skip_front (blank_newline level) _)] at read
    rw [Shape.readElems.eq_def]
    simp only [List.headD_nil, read, List.tail_nil, elemsNesting, Limit.admits_max]
    by_cases inside : limit.admits ((depth + x.nesting : Nat) : Int) = true
    · rw [if_pos inside]
      cases xs with
      | nil =>
        have flat : limit.admits ((depth + elemsNesting [] : Nat) : Int) = true := admitted
        simp only [elemChars, nil_append, skip_front (blank_newline outer),
          skip_visible (show isBlank ']' = false from rfl), inside, flat, and_self, ↓reduceIte]
      | cons y ys =>
        have tail : elemChars level true (y :: ys) = ',' :: elemChars level false (y :: ys) := rfl
        have others := readElems_chars (y :: ys) (cons_ne_nil y ys)
          (fun z member => each z (List.mem_cons_of_mem x member)) admitted
          (show 2 * (elemChars level false (y :: ys) ++ (newline outer ++ ']' :: rest)).length + 1
            < fuel by
              simp only [tail, length_append, length_cons] at enough ⊢
              omega)
        simp only [tail, cons_append, skip_visible (show isBlank ',' = false from rfl), others,
          inside, true_and]
        cases limit.admits ((depth + elemsNesting (y :: ys) : Nat) : Int) <;> rfl
    · rw [if_neg inside, if_neg fun both => inside both.1]

theorem readMembers_chars : ∀ (ms : List (String × Json)) {part : Part} {done : List (String ×
    Json)}
    {depth fuel level outer : Nat} {rest : List Char}, ms ≠ [] →
    (∀ m ∈ ms, (part.shape? m.1).isSome = true) →
    (∀ m ∈ ms, ∀ shape, part.shape? m.1 = some shape → Shaped shape m.2) →
    ((done ++ ms).map Prod.fst).Nodup → limit.admits depth = true →
    2 * (memberChars level false ms ++ (newline outer ++ '\x7d' :: rest)).length + 1 < fuel →
    Shape.readMembers .given limit depth fuel part done
        (memberChars level false ms ++ (newline outer ++ '\x7d' :: rest)) =
      if limit.admits ((depth + membersNesting ms : Nat) : Int) then some (done ++ ms,
        rest) else none
  | _, _, _, _, 0, _, _, _, _, _, _, _, _, enough => by omega
  | [], _, _, _, _, _, _, _, nonempty, _, _, _, _, _ => absurd rfl nonempty
  | (key, x) :: ms, part, done, depth, fuel + 1, level, outer, rest, _, known, each, distinct,
      admitted, enough => by
    have own : (part.shape? key).isSome = true := known (key, x) mem_cons_self
    obtain ⟨shape, shaped⟩ := Option.isSome_iff_exists.mp own
    have fresh : key ∉ done.map Prod.fst := by
      rw [List.map_append, List.nodup_append] at distinct
      exact fun member => distinct.2.2 key member key mem_cons_self rfl
    simp only [memberChars, comma, Bool.false_eq_true, ↓reduceIte, nil_append,
      append_assoc] at enough ⊢
    have read := readValue_chars x (each (key, x) mem_cons_self shape shaped) admitted
      (boundary_members level outer ms ('\x7d' :: rest))
      (show 2 * (chars level x ++ (memberChars level true ms ++ (newline outer ++ '\x7d' ::
        rest))).length
        < fuel by simp only [length_append] at enough ⊢; omega)
    rw [← readValue_congr (@skip_front [' '] (by simp [isBlank]) _)] at read
    rw [← readMembers_skip, skip_front (blank_newline level), readMembers_skip,
      Shape.readMembers.eq_def]
    simp only [readKey_quoted own, cons_append, nil_append,
      skip_visible (show isBlank ':' = false from rfl), shaped, lookup_new fresh, Option.getD_none,
      membersNesting, Limit.admits_max]
    rw [List.singleton_append] at read
    rw [read]
    by_cases inside : limit.admits ((depth + x.nesting : Nat) : Int) = true
    · simp only [inside, ↓reduceIte, setMember_new x fresh, true_and]
      cases ms with
      | nil =>
        have flat : limit.admits ((depth + membersNesting [] : Nat) : Int) = true := admitted
        simp only [memberChars, nil_append, skip_front (blank_newline outer),
          skip_visible (show isBlank '\x7d' = false from rfl), flat, ↓reduceIte]
      | cons m ms =>
        have tail : memberChars level true (m :: ms) = ',' :: memberChars level false (m :: ms) :=
          rfl
        have others := readMembers_chars (m :: ms) (cons_ne_nil m ms)
          (fun n member => known n (List.mem_cons_of_mem _ member))
          (fun n member => each n (List.mem_cons_of_mem _ member))
          (show ((done ++ [(key, x)] ++ m :: ms).map Prod.fst).Nodup by simpa using distinct)
          admitted
          (show 2 * (memberChars level false (m :: ms) ++ (newline outer ++ '\x7d' :: rest)).length
            + 1
            < fuel by
              simp only [tail, length_append, length_cons] at enough ⊢
              omega)
        simp only [tail, cons_append, skip_visible (show isBlank ',' = false from rfl), others,
          append_assoc, nil_append]
    · simp only [inside, Bool.false_eq_true, ↓reduceIte, false_and]
end

/-- What is printed reads back if it nests within the limit, and is refused otherwise. -/
theorem parseTree_print {j : Json} (shaped : Shaped (.object .node) j) (limit : Limit) :
    parseTree .given limit j.print = if limit.admits j.nesting then some j else none := by
  have admitted : limit.admits ((0 : Nat) : Int) = true := by
    rw [Limit.admits_iff]
    exact fun most _ => Nat.zero_le most
  have read := @readValue_chars limit j _ 0 (2 * (chars 0 j).length + 2) 0 [] shaped admitted
    (by simp) (by simp)
  rw [List.append_nil, Nat.zero_add] at read
  simp only [parseTree, print, String.toList_ofList, read]
  cases limit.admits j.nesting <;> rfl

end

end Triangle.Json
