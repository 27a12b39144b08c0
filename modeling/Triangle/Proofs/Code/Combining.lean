import Mathlib
import Triangle.Code.Combine
import Triangle.Proofs.Code.Relocation
import Triangle.Proofs.Machine.Primitives

/-! Combining of literals keeps what code does: a literal in place of two and an operation on them
leaves the same word on the stack, and needs less of it. -/
namespace Triangle.Code
open Machine

/-! ## Literals -/

theorem literal?_eq_some {item : Item} {x : Int} (literal : literal? item = some x) :
    ∃ ins target, item = .op ins target ∧ ins.op = .loadL ∧ ins.d = x := by
  cases item with
  | label name => cases literal
  | op ins target =>
    simp only [literal?, Option.ite_none_right_eq_some, Option.some.injEq] at literal
    exact ⟨ins, target, rfl, literal.1.1, literal.2⟩

theorem literal?_loadL (w : Word) : literal? (.loadL w.toInt) = some w.toInt := by
  have low := w.le_toInt
  have high := w.toInt_lt
  simp only [literal?, Item.loadL, Item.plain, Instruction.minDisplacement,
    Instruction.maxDisplacement, true_and]
  rw [if_pos (by omega)]

theorem combiner?_eq_some {item : Item} {f : Word → Word → Option Word}
    (combiner : combiner? item = some f) :
    ∃ ins p, item = .op ins none ∧ ins.op = .call ∧ ins.entered? = some p ∧
      primitive p = arithmetic f := by
  unfold combiner? at combiner
  split at combiner
  · rename_i ins
    split at combiner
    · rename_i call
      have entered {p : Primitive} (named : ins.primitive? = some p) : ins.entered? = some p := by
        simp only [Instruction.primitive?, Option.ite_none_right_eq_some] at named
        simp [Instruction.entered?, Reg.fixed?, named.1, named.2]
      split at combiner
      · rename_i named
        cases combiner
        exact ⟨ins, .add, rfl, call, entered named, rfl⟩
      · rename_i named
        cases combiner
        exact ⟨ins, .mult, rfl, call, entered named, rfl⟩
      · cases combiner
    · cases combiner
  · cases combiner

theorem combined?_eq_some {a b call c : Item} (combined : combined? a b call = some c) :
    ∃ x y f w, literal? a = some x ∧ literal? b = some y ∧ combiner? call = some f ∧
      f (Word.truncate x) (Word.truncate y) = some w ∧ c = .loadL w.toInt := by
  unfold combined? at combined
  split at combined
  · rename_i x y f first second operation
    obtain ⟨w, result, rfl⟩ := Option.map_eq_some_iff.mp combined
    exact ⟨x, y, f, w, first, second, operation, result, rfl⟩
  · cases combined

/-! ## What becomes of each item -/

/-- The items come together in one. -/
inductive Folds : List Item → Item → Prop where
  | item (x : Item) : Folds [x] x
  | join {as bs : List Item} {a b call c : Item} (first : Folds as a) (second : Folds bs b)
      (combined : combined? a b call = some c) : Folds (as ++ bs ++ [call]) c

/-- The items come together in those of the second list, in order. -/
inductive Covers : List Item → List Item → Prop where
  | nil : Covers [] []
  | cons {part items out : List Item} {x : Item} (folds : Folds part x) (rest : Covers items out) :
      Covers (part ++ items) (x :: out)

variable {items out part : List Item} {x : Item}

theorem Covers.append {items' out' : List Item} (first : Covers items out) (second : Covers items' out') :
    Covers (items ++ items') (out ++ out') := by
  induction first with
  | nil => exact second
  | cons folds _ ih =>
    rw [List.append_assoc]
    exact .cons folds ih

theorem Folds.covers (folds : Folds part x) : Covers part [x] := by
  simpa using Covers.cons folds .nil

theorem Covers.split {out' : List Item} (covers : Covers items (out ++ out')) :
    ∃ first second, items = first ++ second ∧ Covers first out ∧ Covers second out' := by
  induction out generalizing items with
  | nil => exact ⟨[], items, rfl, .nil, covers⟩
  | cons y out ih =>
    cases covers with
    | cons folds rest =>
      obtain ⟨first, second, rfl, left, right⟩ := ih rest
      exact ⟨_, second, (List.append_assoc ..).symm, .cons folds left, right⟩

theorem Covers.last (covers : Covers items [x]) : Folds items x := by
  cases covers with
  | cons folds rest =>
    cases rest
    simpa using folds

theorem covers_combineOnto {done : List Item} (covers : Covers items done.reverse) (item : Item) :
    Covers (items ++ [item]) (combineOnto done item).reverse := by
  have kept : Covers (items ++ [item]) (item :: done).reverse := by
    rw [List.reverse_cons]
    exact covers.append (Folds.item item).covers
  unfold combineOnto
  split
  · rename_i b a rest
    split
    · rename_i c combined
      simp only [List.reverse_cons] at covers ⊢
      obtain ⟨front, bs, rfl, covers, second⟩ := covers.split
      obtain ⟨front, as, rfl, covers, first⟩ := covers.split
      rw [List.append_assoc front, List.append_assoc front]
      exact covers.append (Folds.join first.last second.last combined).covers
    · exact kept
  · exact kept

theorem covers_combine (items : List Item) : Covers items (combine items) := by
  have onto (before done after : List Item) (covers : Covers before done.reverse) :
      Covers (before ++ after) (after.foldl combineOnto done).reverse := by
    induction after generalizing before done with
    | nil => simpa using covers
    | cons item after ih =>
      rw [List.foldl_cons, ← List.singleton_append, ← List.append_assoc]
      exact ih _ _ (covers_combineOnto covers item)
  simpa [combine] using onto [] [] items .nil

/-! ## The combined code -/

theorem Folds.labelNames (folds : Folds part x) : labelNames part = labelNames [x] := by
  induction folds with
  | item => rfl
  | join _ _ combined first second =>
    obtain ⟨_, _, _, _, literal, literal', operation, _, rfl⟩ := combined?_eq_some combined
    obtain ⟨_, _, rfl, _⟩ := literal?_eq_some literal
    obtain ⟨_, _, rfl, _⟩ := literal?_eq_some literal'
    obtain ⟨_, _, rfl, _⟩ := combiner?_eq_some operation
    simp [first, second, Item.loadL, Item.plain]

theorem Folds.span_le (folds : Folds part x) : span [x] ≤ span part := by
  cases folds with
  | item => exact Nat.le_refl _
  | join _ _ combined =>
    obtain ⟨_, _, _, _, _, _, operation, _, rfl⟩ := combined?_eq_some combined
    obtain ⟨ins, _, rfl, call, _⟩ := combiner?_eq_some operation
    have active : redundant ins = false := by simp [redundant, call]
    have one : span [.op ins none] = 1 := by simp [span_op, active]
    rw [span_append, one]
    exact Nat.le_add_left _ _

theorem Covers.labelNames (covers : Covers items out) : labelNames items = labelNames out := by
  induction covers with
  | nil => rfl
  | @cons part items out x folds _ ih =>
    rw [labelNames_append, folds.labelNames, ih, ← labelNames_append, List.singleton_append]

theorem Covers.span_le (covers : Covers items out) : span out ≤ span items := by
  induction covers with
  | nil => exact Nat.le_refl _
  | @cons part items out x folds _ ih =>
    have first := folds.span_le
    rw [← List.singleton_append, span_append, span_append]
    omega

/-- An item of the combined code is one of the code or a literal. -/
theorem Covers.mem {item : Item} (covers : Covers items out) (member : item ∈ out) :
    item ∈ items ∨ ∃ w : Word, item = .loadL w.toInt := by
  induction covers with
  | nil => cases member
  | @cons part items out x folds _ ih =>
    rcases List.mem_cons.mp member with rfl | later
    · cases folds with
      | item => exact .inl (by simp)
      | join _ _ combined =>
        obtain ⟨_, _, _, w, _, _, _, _, rfl⟩ := combined?_eq_some combined
        exact .inr ⟨w, rfl⟩
    · exact (ih later).imp (List.mem_append_right _) id

theorem validate_loadL (w : Word) :
    (⟨.loadL, .CB, 0, w.toInt⟩ : Instruction).validate = .ok () := by
  have low := w.le_toInt
  have high := w.toInt_lt
  have inside : ¬(w.toInt < Instruction.minDisplacement ∨ Instruction.maxDisplacement < w.toInt) := by
    simp only [Instruction.minDisplacement, Instruction.maxDisplacement]
    omega
  simp only [Instruction.validate, inside]
  rfl

theorem resolvable_combine (resolvable : Resolvable items) : Resolvable (combine items) where
  distinct := (covers_combine items).labelNames ▸ resolvable.distinct
  small := (covers_combine items).span_le.trans resolvable.small
  fine item member := by
    rw [← (covers_combine items).labelNames]
    rcases (covers_combine items).mem member with inside | ⟨w, rfl⟩
    · exact resolvable.fine item inside
    · exact fun _ => ⟨validate_loadL w, by simp⟩

/-! ## Runs -/

variable {code code' : List Instruction} {labels labels' : List (String × Nat)} {m n : Machine}
  {v : View}

/-- An operation on the two words on top leaves its result. -/
theorem advances_call {ins : Instruction} {p : Primitive} {f : Word → Word → Option Word}
    {below : List Word} {a b w : Word} (here : code[v.cp]? = some ins) (valid : ins.validate = .ok ())
    (call : ins.op = .call) (entered : ins.entered? = some p) (linked : ins.n = Reg.SB.index.toNat)
    (operation : primitive p = arithmetic f) (top : v.stack = below ++ [a, b])
    (result : f a b = some w) :
    Advances code v { v with cp := v.cp + 1, stack := below ++ [w] } := by
  obtain ⟨-, -, -, low, high⟩ := Instruction.validate_iff.mp valid
  refine .of_safely here fun m shows => ?_
  unfold Safely
  rw [exec_call call entered linked low (Int.lt_add_one_of_le high), operation]
  have computed : Safely (arithmetic f) m fun _ m' =>
      m'.Shows code { v with stack := below ++ [w] } := by
    refine Safely.bind (Safely.popPair shows top) ?_
    rintro _ m' ⟨rfl, later⟩
    simp only [result, pushResult]
    exact Safely.push later [w]
  exact computed.bind fun _ _ later => Safely.next later

theorem Advances.reaches {v' : View} (advances : Advances code v v') (shows : m.Shows code v) :
    m.Overflows ∨ ∃ m', m.Reaches 1 m' ∧ m'.Shows code v' := by
  rcases advances m shows with overflows | ⟨m', step, later⟩
  · exact .inl overflows
  · exact .inr ⟨m', .next shows.running step (.here m'), later⟩

/-- Items that come together in a literal leave it on the stack. -/
theorem Folds.runs {value : Int} (folds : Folds part x) (literal : literal? x = some value)
    (relocatable : ∀ item ∈ part, item.Relocatable) {before after : List Item}
    (placed : Placed labels code 0 (before ++ part ++ after)) (shows : m.Shows code v)
    (place : v.cp = span before) :
    m.Overflows ∨ ∃ k m', m.Reaches (k + 1) m' ∧ m'.Shows code
      { v with cp := span (before ++ part), stack := v.stack ++ [.truncate value] } := by
  induction folds generalizing before after m v value with
  | item x =>
    obtain ⟨ins, target, rfl, loadL, rfl⟩ := literal?_eq_some literal
    have active : redundant ins = false := by simp [redundant, loadL]
    obtain rfl : target = none := by
      have plain := relocatable (.op ins target) (by simp)
      simp only [Item.Relocatable, loadL, reduceCtorEq, or_self, if_false] at plain
      exact plain.1
    rw [List.append_assoc, List.singleton_append] at placed
    obtain ⟨i, same, _, here⟩ := placed.item active
    cases same
    obtain ⟨op, r, count, d⟩ := ins
    simp only at loadL
    subst loadL
    rw [← place] at here
    have moved : span (before ++ [.op ⟨.loadL, r, count, d⟩ none]) = v.cp + 1 := by
      simp [span_op, active, place]
    rw [moved]
    rcases Advances.reaches (Advances.loadL here) shows with overflows | ⟨m', one, later⟩
    · exact .inl overflows
    · exact .inr ⟨0, m', one, later⟩
  | @join as bs a b call c _ _ combined first second =>
    obtain ⟨x, y, f, w, literalA, literalB, operation, result, rfl⟩ := combined?_eq_some combined
    obtain ⟨ins, p, rfl, isCall, entered, computes⟩ := combiner?_eq_some operation
    obtain ⟨_, _, same, _, isValue⟩ := literal?_eq_some literal
    cases same
    subst isValue
    have active : redundant ins = false := by simp [redundant, isCall]
    have linked : ins.n = Reg.SB.index.toNat := by
      have plain := relocatable (.op ins none) (by simp)
      simp only [Item.Relocatable, isCall, Instruction.Sequential, reduceCtorEq, or_self, if_false,
        false_or] at plain
      exact plain.2.2
    have placedA : Placed labels code 0 (before ++ as ++ (bs ++ [.op ins none] ++ after)) := by
      simpa using placed
    have placedB : Placed labels code 0 (before ++ as ++ bs ++ ([.op ins none] ++ after)) := by
      simpa using placed
    obtain ⟨i, same, valid, here⟩ := placedB.item active
    cases same
    rcases first literalA (fun item member => relocatable item (by simp [member])) placedA shows place
      with overflows | ⟨j, m', reaches, shows⟩
    · exact .inl overflows
    rcases second literalB (fun item member => relocatable item (by simp [member])) placedB shows rfl
      with overflows | ⟨k, m'', reaches', shows⟩
    · exact .inl (reaches.overflows overflows)
    have adds := advances_call (v := { v with
        cp := span (before ++ as ++ bs)
        stack := v.stack ++ [.truncate x] ++ [.truncate y] }) here valid isCall entered linked computes
      (List.append_assoc ..) result
    rcases Advances.reaches adds shows with overflows | ⟨final, one, shows⟩
    · exact .inl (reaches.overflows (reaches'.overflows overflows))
    · refine .inr ⟨j + 1 + (k + 1), final, (reaches.trans reaches').trans one, ?_⟩
      have moved : span (before ++ (as ++ bs ++ [.op ins none])) = span (before ++ as ++ bs) + 1 := by
        have one : span [.op ins none] = 1 := by simp [span_op, active]
        rw [← List.append_assoc, ← List.append_assoc, span_append, one]
      have word : Word.truncate w.toInt = w := Int16.ofInt_toInt w
      rw [moved, word]
      exact shows

/-- The address in the code where the combined code is at its own address. -/
def Levels (items : List Item) (a b : Nat) : Prop :=
  ∃ before after out rest, items = before ++ after ∧ combine items = out ++ rest ∧
    Covers after rest ∧ a = span before ∧ b = span out

/-- Both codes have come to their end, or go on with the same item, or with a literal and what has
come together in it. -/
inductive AtPart (items : List Item) (a b : Nat) : Prop where
  | done (all : a = span items) (all' : b = span (combine items))
  | op {before after out rest : List Item} {ins : Instruction} {target : Option String}
      (whole : items = before ++ .op ins target :: after)
      (whole' : combine items = out ++ .op ins target :: rest) (covers : Covers after rest)
      (active : redundant ins = false) (place : a = span before) (place' : b = span out)
  | literal {before part after out rest : List Item} {w : Word}
      (whole : items = before ++ part ++ after)
      (whole' : combine items = out ++ .loadL w.toInt :: rest) (covers : Covers after rest)
      (folds : Folds part (.loadL w.toInt)) (place : a = span before) (place' : b = span out)

theorem Levels.atPart {a b : Nat} (levels : Levels items a b) : AtPart items a b := by
  obtain ⟨before, after, out, rest, whole, whole', covers, place, place'⟩ := levels
  induction covers generalizing before out with
  | nil =>
    refine .done ?_ ?_
    · rw [whole, place, List.append_nil]
    · rw [whole', place', List.append_nil]
  | @cons part after rest x folds covers ih =>
    cases folds with
    | item =>
      have skip (silent : span [x] = 0) : AtPart items a b := by
        refine ih (before ++ [x]) (out ++ [x]) (by simpa using whole) (by simpa using whole') ?_ ?_
        · simpa [silent] using place
        · simpa [silent] using place'
      cases x with
      | label name => exact skip (by simp)
      | op ins target =>
        by_cases active : redundant ins = false
        · exact .op whole whole' covers active place place'
        · exact skip (by simp [span_op, Bool.not_eq_false _ ▸ active])
    | join first second combined =>
      obtain ⟨_, _, _, w, _, _, _, _, rfl⟩ := combined?_eq_some combined
      exact .literal (by simpa using whole) whole' covers (.join first second combined) place place'

theorem levels_label {name : String} (known : name ∈ labelNames items)
    (placed : Placed labels code 0 items) (placed' : Placed labels' code' 0 (combine items)) {x y : Nat}
    (found : labels.lookup name = some x) (found' : labels'.lookup name = some y) :
    Levels items x y := by
  have covers := covers_combine items
  rw [covers.labelNames] at known
  obtain ⟨out, rest, whole'⟩ := List.append_of_mem (mem_labelNames.mp known)
  rw [whole'] at covers placed'
  obtain ⟨before, after, whole, _, later⟩ := covers.split
  generalize label : Item.label name :: rest = tail at later
  cases later with
  | nil => cases label
  | @cons part after rest' x folds rest =>
    cases label
    cases folds with
    | item =>
      rw [whole] at placed
      have here : Placed labels code 0 (before ++ .label name :: after) := by simpa using placed
      cases here.label.symm.trans found
      cases placed'.label.symm.trans found'
      exact ⟨before ++ [.label name], after, out ++ [.label name], _, by simpa using whole,
        by simpa using whole', rest, by simp, by simp⟩
    | join _ _ combined =>
      obtain ⟨_, _, _, _, _, _, _, _, same⟩ := combined?_eq_some combined
      cases same

theorem Shows.push_room (shows : m.Shows code v) (ws : List Word)
    (room : v.stack.length + ws.length ≤ dataSize) :
    ∃ m', push ws m = .ok () m' ∧ m'.Shows code { v with stack := v.stack ++ ws } := by
  rcases Safely.push shows ws with ⟨m', overflow⟩ | ⟨_, m', done, later⟩
  · have free : ¬(dataSize : Int) < m.st + ws.length := by
      rw [shows.st]
      omega
    simp [push, free] at overflow
  · exact ⟨m', done, later⟩

/-- The combined code does in each step what the code does in one or more. -/
theorem combine_keeps (resolvable : Resolvable items) (relocatable : ∀ item ∈ items, item.Relocatable)
    (placed : Placed labels code 0 items) (placed' : Placed labels' code' 0 (combine items))
    (length : code.length = span items) (length' : code'.length = span (combine items))
    {m n : Machine} (start : ∃ a b, Levels items a b ∧ Alike code code' a b m n) :
    Keeps (fun m n => ∃ a b, Levels items a b ∧ Alike code code' a b m n) m n := by
  obtain ⟨a, b, levels, alike⟩ := start
  cases levels.atPart with
  | done all all' =>
    exact alike.keeps_end (List.getElem?_eq_none (by omega)) (List.getElem?_eq_none (by omega))
  | @op before after out rest ins target whole whole' covers active place place' =>
    subst place place'
    have member : .op ins target ∈ items := by rw [whole]; simp
    have here := placed
    have here' := placed'
    rw [whole] at here
    have unchanged : target.map id = target := by simp
    rw [whole', ← unchanged] at here'
    refine keeps_item here here' (relocatable _ member) active alike ?_ ?_
    · intro _ m' n' later
      refine ⟨_, _, ⟨before ++ [.op ins target], after, out ++ [.op ins target], rest,
        by simpa using whole, by simpa using whole', covers, ?_, ?_⟩, later⟩
      · simp [span_op, active]
      · simp [span_op, active]
    · rintro name rfl x y found found' m' n' later
      have known : name ∈ labelNames items := (resolvable.fine _ member active).2 name rfl
      exact ⟨0, m', .here m', x, y, levels_label known placed placed' found found', later⟩
  | @literal before part after out rest w whole whole' covers folds place place' =>
    subst place place'
    have here := placed
    have here' := placed'
    rw [whole] at here
    rw [whole'] at here'
    obtain ⟨i, same, _, there⟩ := here'.item rfl
    cases same
    obtain ⟨v, atPlace, outermost, shows, shows'⟩ := alike.shows
    rcases folds.runs (literal?_loadL w)
      (fun item member => relocatable item (by rw [whole]; simp [member])) here shows atPlace with overflows | ⟨k, m', reaches, later⟩
    · exact .overflow overflows
    have room : v.stack.length + [Word.truncate w.toInt].length ≤ dataSize := by
      simpa using later.fits
    obtain ⟨n', pushed, later'⟩ := Shows.push_room shows' [Word.truncate w.toInt] room
    have step := shows'.step there
    have done : exec ⟨.loadL, .CB, 0, w.toInt⟩ n = .ok () { n' with cp := n'.cp + 1 } :=
      Result.bind_ok pushed
    rw [done] at step
    refine .step reaches alike.running' step (.inl ⟨span (before ++ part), span out + 1, ?_, ?_⟩)
    · exact ⟨before ++ part, after, out ++ [.loadL w.toInt], rest, whole, by simpa using whole', covers,
        rfl, by simp [span_op, Item.loadL, Item.plain, redundant]⟩
    · exact Shows.alike (v := { v with
        cp := span (before ++ part)
        stack := v.stack ++ [Word.truncate w.toInt] }) later
        { later' with cp := by simp [later'.cp] } outermost

/-- Combined code can be resolved and runs like the code. -/
theorem combine_imitates (resolved : resolve items = .ok code)
    (relocatable : ∀ item ∈ items, item.Relocatable) :
    ∃ code', resolve (combine items) = .ok code' ∧
      ∀ input, (start code' input).Imitates (start code input) := by
  have resolvable := resolvable_of_resolve resolved
  obtain ⟨code', resolved'⟩ := (resolvable_combine resolvable).resolves
  obtain ⟨length, labels, placed⟩ := resolve_laid resolved
  obtain ⟨length', labels', placed'⟩ := resolve_laid resolved'
  refine ⟨code', resolved', fun input => ?_⟩
  have keeps {m n : Machine} (related : ∃ a b, Levels items a b ∧ Alike code code' a b m n) :=
    combine_keeps resolvable relocatable placed placed' length length' related
  exact Keeps.imitates keeps
    ⟨0, 0, ⟨[], items, [], _, rfl, rfl, covers_combine items, rfl, rfl⟩, alike_start code code' input⟩
    rfl rfl

end Triangle.Code
