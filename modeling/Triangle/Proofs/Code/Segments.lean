import Mathlib
import Triangle.Proofs.Code.Combining
import Triangle.Proofs.Machine.Calculation

/-! What combining leaves. Each item of the combined code is one of the code, or the literal that a
stretch of literals and operations comes to; and nothing is left that could be combined. -/
namespace Triangle.Code
open Machine List

/-! ## Stretches of operands -/

/-- The instructions of code, without its labels and the names of its targets. -/
def instructions (items : List Item) : List Instruction :=
  items.filterMap fun
    | .label _ => none
    | .op ins _ => some ins

@[simp] theorem instructions_append (items more : List Item) :
    instructions (items ++ more) = instructions items ++ instructions more :=
  filterMap_append

/-- No label is pushed as a literal, and primitives are called with the outermost frame as their
link. -/
def Item.Direct : Item → Prop
  | .label _ => True
  | .op ins target => (ins.op = .loadL → target = none) ∧
      (ins.op = .call → target = none → ins.primitive? ≠ none → ins.n = Reg.SB.index.toNat)

/-- A literal that an instruction can hold, or a call of `add` or `mult`. -/
def Item.IsOperand : Item → Prop
  | .op ins none =>
    (ins.op = .loadL ∧ Instruction.minDisplacement ≤ ins.d ∧ ins.d ≤ Instruction.maxDisplacement) ∨
      (ins.op = .call ∧ (ins.primitive? = some .add ∨ ins.primitive? = some .mult))
  | _ => False

variable {item : Item}

theorem isOperand_of_literal? {x : Int} (literal : literal? item = some x)
    (direct : item.Direct) : item.IsOperand := by
  obtain ⟨ins, target, rfl, loadL, rfl⟩ := literal?_eq_some literal
  obtain rfl := direct.1 loadL
  simp only [literal?, Option.ite_none_right_eq_some] at literal
  exact .inl literal.1

theorem isOperand_of_combiner? {f : Word → Word → Option Word}
    (combiner : combiner? item = some f) : item.IsOperand := by
  obtain ⟨ins, p, rfl, call, -, -⟩ := combiner?_eq_some combiner
  simp only [combiner?, call, if_true] at combiner
  split at combiner
  · rename_i named
    exact .inr ⟨call, .inl named⟩
  · rename_i named
    exact .inr ⟨call, .inr named⟩
  · cases combiner

/-- A call of `add` or `mult` computes with the two words on top. -/
theorem combiner?_exec {f : Word → Word → Option Word}
    (combiner : combiner? item = some f) (direct : item.Direct) :
    ∃ ins, item = .op ins none ∧ ∀ m, exec ins m = (do arithmetic f; next : Exec Unit) m := by
  have operand := isOperand_of_combiner? combiner
  obtain ⟨ins, p, rfl, call, entered, computes⟩ := combiner?_eq_some combiner
  obtain ⟨q, named⟩ : ∃ q, ins.primitive? = some q := by
    rcases operand with ⟨loadL, -⟩ | ⟨-, named | named⟩
    · simp [call] at loadL
    · exact ⟨_, named⟩
    · exact ⟨_, named⟩
  have linked := direct.2 call rfl (by simp [named])
  simp only [Instruction.primitive?, Option.ite_none_right_eq_some] at named
  have same := find?_some named.2
  have range : 1 ≤ q.displacement ∧ q.displacement ≤ 26 := by cases q <;> decide
  simp only [beq_iff_eq] at same
  refine ⟨ins, rfl, fun m => ?_⟩
  rw [exec_call call entered linked (by omega) (by omega), computes]

/-! ## Running them -/

/-- The instructions stand in the code of the machine from `a` on. -/
def Stands (m : Machine) (a : Nat) (code : List Instruction) : Prop :=
  ∃ before after, m.code.toList = before ++ code ++ after ∧ before.length = a

theorem Stands.split {m : Machine} {a : Nat} {code more : List Instruction}
    (stands : Stands m a (code ++ more)) : Stands m a code ∧ Stands m (a + code.length) more := by
  obtain ⟨before, after, whole, rfl⟩ := stands
  constructor
  · exact ⟨before, more ++ after, by simp [whole], rfl⟩
  · exact ⟨before ++ code, after, by simp [whole], by simp⟩

theorem Stands.here {m : Machine} {a : Nat} {ins : Instruction} (stands : Stands m a [ins]) :
    m.code[a]? = some ins := by
  obtain ⟨before, after, whole, rfl⟩ := stands
  rw [← Array.getElem?_toList, whole]
  simp

/-- Items that come together in a literal push it. -/
theorem Folds.holds {part : List Item} {x : Item} {value : Int} (folds : Folds part x)
    (literal : literal? x = some value) (direct : ∀ item ∈ part, item.Direct) {base m : Machine}
    {a : Nat} {below : List Word} (running : base.halted = false)
    (stands : Stands base a (instructions part)) (holds : Holds base a below m)
    (room : below.length + (instructions part).length ≤ dataSize) :
    Becomes base (a + (instructions part).length) below m (.ok (.truncate value)) := by
  induction folds generalizing a below m value with
  | item x =>
    obtain ⟨⟨op, r, n, d⟩, target, rfl, loadL, rfl⟩ := literal?_eq_some literal
    simp only at loadL
    subst loadL
    obtain ⟨m', pushed, later⟩ := holds.push (by simpa [instructions] using room) (.truncate d)
    exact holds.becomes running stands.here ⟨_, Result.bind_ok pushed, later.next⟩
  | @join as bs _ _ call _ _ _ combined first second =>
    obtain ⟨x, y, f, w, literalA, literalB, operation, result, rfl⟩ := combined?_eq_some combined
    obtain ⟨_, _, same, _, rfl⟩ := literal?_eq_some literal
    cases same
    obtain ⟨ins, rfl, calls⟩ := combiner?_exec operation (direct call (by simp))
    have one : instructions [.op ins none] = [ins] := rfl
    rw [instructions_append, instructions_append, one] at stands room ⊢
    obtain ⟨standsBoth, standsCall⟩ := stands.split
    obtain ⟨standsA, standsB⟩ := standsBoth.split
    simp only [length_append, length_singleton, ← Nat.add_assoc] at room standsCall ⊢
    obtain ⟨j, m₁, reaches₁, holds₁⟩ := first literalA
      (fun item member => direct item (by simp [member])) standsA holds (by omega)
    obtain ⟨k, m₂, reaches₂, holds₂⟩ := second literalB
      (fun item member => direct item (by simp [member])) standsB holds₁ (by
        simp only [length_append, length_singleton]
        omega)
    rw [append_assoc, singleton_append] at holds₂
    have computed := Leaves.arithmetic f holds₂
    rw [result] at computed
    obtain ⟨m₃, done, later⟩ := computed
    have word : Word.truncate w.toInt = w := Int16.ofInt_toInt w
    have called : Replies base _ below (exec ins m₂) (.ok w) :=
      ⟨_, (calls m₂).trans (Result.bind_ok done), later.next⟩
    obtain ⟨i, m₄, reaches₃, holds₃⟩ := holds₂.becomes running standsCall.here called
    exact ⟨j + k + i, m₄, (reaches₁.trans reaches₂).trans reaches₃, by rwa [word]⟩

/-- Wherever the instructions stand, a machine with a free word for each of them runs through them,
and then has the word on top of its stack and has kept what lies below. -/
def Pushes (code : List Instruction) (w : Word) : Prop :=
  ∀ (m : Machine) (a : Nat), Stands m a code → m.cp = a → m.halted = false → 0 ≤ m.st →
    m.st + code.length ≤ dataSize → ∃ k m', m.Reaches k m' ∧ m.Pushed (a + code.length) w.toInt m'

/-- An item of combined code and what it stands for: itself, or operands that push its word. -/
inductive Item.Replaces : Item → List Item → Prop where
  | itself (item : Item) : Replaces item [item]
  | operands {part : List Item} {w : Word} (operands : ∀ item ∈ part, item.IsOperand)
      (pushes : Pushes (instructions part) w) : Replaces (.loadL w.toInt) part

theorem Folds.operands {part : List Item} {x : Item} {value : Int} (folds : Folds part x)
    (literal : literal? x = some value) (direct : ∀ item ∈ part, item.Direct) :
    ∀ item ∈ part, item.IsOperand := by
  induction folds generalizing value with
  | item x => simpa using isOperand_of_literal? literal (direct x (by simp))
  | @join as bs _ _ call _ _ _ combined first second =>
    obtain ⟨x, y, f, w, literalA, literalB, operation, -, rfl⟩ := combined?_eq_some combined
    intro item member
    simp only [mem_append, mem_singleton] at member
    rcases member with (inside | inside) | rfl
    · exact first literalA (fun item member => direct item (by simp [member])) item inside
    · exact second literalB (fun item member => direct item (by simp [member])) item inside
    · exact isOperand_of_combiner? operation

theorem Folds.replaces {part : List Item} {x : Item} (folds : Folds part x)
    (direct : ∀ item ∈ part, item.Direct) : x.Replaces part := by
  cases folds with
  | item => exact .itself x
  | join first second combined =>
    have folds := Folds.join first second combined
    obtain ⟨_, _, _, w, -, -, -, -, rfl⟩ := combined?_eq_some combined
    refine .operands (folds.operands (literal?_loadL w) direct) fun m a stands here running least room => ?_
    obtain ⟨stack, before⟩ := holds_self here least (by omega)
    have height := before.st
    obtain ⟨k, m', reaches, after⟩ := folds.holds (literal?_loadL w) direct running stands before (by omega)
    have word : Word.truncate w.toInt = w := Int16.ofInt_toInt w
    rw [word] at after
    exact ⟨k, m', reaches, by exact_mod_cast before.pushed after⟩

variable {items : List Item}

theorem Covers.replaces {out : List Item} (covers : Covers items out)
    (direct : ∀ item ∈ items, item.Direct) :
    ∃ parts, parts.flatten = items ∧ List.Forall₂ Item.Replaces out parts := by
  induction covers with
  | nil => exact ⟨[], rfl, .nil⟩
  | @cons part items out x folds _ ih =>
    obtain ⟨parts, rfl, replaces⟩ := ih fun item member => direct item (by simp [member])
    exact ⟨part :: parts, rfl,
      .cons (folds.replaces fun item member => direct item (by simp [member])) replaces⟩

/-! ## Nothing is left to combine -/

/-- Code kept in reverse, in which no three items in a row can be combined. -/
def Exhausted : List Item → Prop
  | call :: b :: a :: rest => combined? a b call = none ∧ Exhausted (b :: a :: rest)
  | _ => True

variable {done : List Item}

theorem Exhausted.tail (exhausted : Exhausted (item :: done)) : Exhausted done := by
  match done, exhausted with
  | [], _ | [_], _ => trivial
  | _ :: _ :: _, exhausted => exact exhausted.2

theorem Exhausted.suffix (exhausted : Exhausted (items ++ done)) : Exhausted done := by
  induction items with
  | nil => exact exhausted
  | cons item items ih => exact ih exhausted.tail

/-- A literal calls nothing, so it ends no three items that can be combined. -/
theorem Exhausted.literal (exhausted : Exhausted done) (value : Int) :
    Exhausted (.loadL value :: done) := by
  match done, exhausted with
  | [], _ | [_], _ => trivial
  | b :: a :: rest, exhausted =>
    refine ⟨?_, exhausted⟩
    have none : combiner? (.loadL value) = none := rfl
    simp [combined?, none]

theorem exhausted_combineOnto (exhausted : Exhausted done) (item : Item) :
    Exhausted (combineOnto done item) := by
  match done, exhausted with
  | [], _ | [_], _ => trivial
  | b :: a :: rest, exhausted =>
    simp only [combineOnto]
    cases combined : combined? a b item with
    | some c =>
      obtain ⟨_, _, _, w, -, -, -, -, rfl⟩ := combined?_eq_some combined
      exact exhausted.tail.tail.literal w.toInt
    | none => exact ⟨combined, exhausted⟩

theorem exhausted_combine (items : List Item) : Exhausted (combine items).reverse := by
  have onto (done : List Item) (exhausted : Exhausted done) :
      Exhausted (items.foldl combineOnto done) := by
    induction items generalizing done with
    | nil => exact exhausted
    | cons item items ih => exact ih _ (exhausted_combineOnto exhausted item)
  rw [combine, reverse_reverse]
  exact onto [] trivial

theorem combineOnto_of_exhausted
    (exhausted : Exhausted (item :: done)) : combineOnto done item = item :: done := by
  match done, exhausted with
  | [], _ | [_], _ => rfl
  | b :: a :: rest, exhausted => simp only [combineOnto, exhausted.1]

theorem foldl_combineOnto (exhausted : Exhausted (items.reverse ++ done)) :
    items.foldl combineOnto done = items.reverse ++ done := by
  induction items generalizing done with
  | nil => rfl
  | cons item items ih =>
    rw [reverse_cons, append_assoc, singleton_append] at exhausted ⊢
    rw [foldl_cons, combineOnto_of_exhausted exhausted.suffix]
    exact ih exhausted

theorem combine_of_exhausted (exhausted : Exhausted items.reverse) : combine items = items := by
  rw [combine, foldl_combineOnto (by simpa using exhausted), append_nil, reverse_reverse]

/-- The number is the value of a word. -/
def IsWord (n : Int) : Prop := -0x8000 ≤ n ∧ n < 0x8000

/-- Two literals that instructions can hold, and a call of `add` or `mult` with a word as its result. -/
inductive Combinable : Item → Item → Item → Prop where
  | operation {i j call : Instruction} {s t : Option String} {x : Int}
      (first : i.op = .loadL ∧ IsWord i.d) (second : j.op = .loadL ∧ IsWord j.d)
      (called : call.op = .call) (result : (call.primitive? = some .add ∧ x = i.d + j.d) ∨
        (call.primitive? = some .mult ∧ x = i.d * j.d)) (word : IsWord x) :
      Combinable (.op i s) (.op j t) (.op call none)

theorem literal?_of_isWord {i : Instruction} {s : Option String} (loads : i.op = .loadL ∧ IsWord i.d) :
    literal? (.op i s) = some i.d := by
  obtain ⟨loadL, low, high⟩ := loads
  exact if_pos ⟨loadL, low, Int.le_of_lt_add_one high⟩

theorem Combinable.combined {a b call : Item} (combinable : Combinable a b call) :
    combined? a b call ≠ none := by
  obtain ⟨first, second, called, result, word⟩ := combinable
  have left := Word.toInt_truncate first.2.1 first.2.2
  have right := Word.toInt_truncate second.2.1 second.2.2
  have fits := Word.ofInt?_eq word.1 word.2
  rw [combined?, literal?_of_isWord first, literal?_of_isWord second]
  rcases result with ⟨named, rfl⟩ | ⟨named, rfl⟩
  · simp [combiner?, called, named, Word.add?, left, right, fits]
  · simp [combiner?, called, named, Word.mul?, left, right, fits]

/-- Code can be cut so that combining leaves an item for each part: the part itself, or the literal
that its operands push. Nothing that can be combined is left, and combining again changes nothing. -/
theorem combine_cuts (items : List Item) (direct : ∀ item ∈ items, item.Direct) :
    (∃ parts, parts.flatten = items ∧ List.Forall₂ Item.Replaces (combine items) parts) ∧
      (∀ before a b call after, combine items = before ++ a :: b :: call :: after →
        combined? a b call = none ∧ ¬Combinable a b call) ∧
      combine (combine items) = combine items := by
  have exhausted := exhausted_combine items
  refine ⟨(covers_combine items).replaces direct, ?_, combine_of_exhausted exhausted⟩
  intro before a b call after whole
  have reversed : (combine items).reverse = after.reverse ++ call :: b :: a :: before.reverse := by
    simp [whole]
  rw [reversed] at exhausted
  have none : combined? a b call = none := exhausted.suffix.1
  exact ⟨none, fun combinable => combinable.combined none⟩

/-- Prints a number that is written as a product and a sum, between two labels. -/
def product : List Item :=
  [.label "l.1", .loadL 2, .loadL 3, .callPrim .mult, .loadL 4, .callPrim .add, .callPrim .putint,
    .label "l.2", .halt]

theorem product_cuts :
    combine product = [.label "l.1", .loadL 10, .callPrim .putint, .label "l.2", .halt] ∧
      (∃ parts, parts.flatten = product ∧ List.Forall₂ Item.Replaces (combine product) parts) ∧
      combine (combine product) = combine product := by
  have cuts := combine_cuts product (by
    simp [product, Item.Direct, Item.loadL, Item.callPrim, Item.halt, Item.plain])
  exact ⟨rfl, cuts.1, cuts.2.2⟩

end Triangle.Code
