import Mathlib
import Triangle.Proofs.Simulation.Standard
import Triangle.Proofs.Simulation.Trees
import Triangle.Proofs.Typing.Accepted

/-! Compiled programs do what the programs say. The code of an accepted program, run on a fresh
machine, ends where the evaluation of the program ends, unless the stack overflows; and it fails in
no other way than programs can. -/
namespace Triangle
open Machine Semantics Code

/-! ## Runs of the machine -/

namespace Machine

variable {m middle final : Machine} {k : Nat} {trap : Option Trap}

/-- The run of a machine ends like this as soon as the limit on instructions is high enough, and
until then the limit is exceeded. -/
def Ends (m : Machine) (trap : Option Trap) (final : Machine) : Prop :=
  ∃ enough, ∀ limit, (enough ≤ limit → m.run limit = (final, trap)) ∧
    (limit < enough → ∃ stopped address, m.run limit = (stopped, some ⟨address, .stepLimit⟩))

theorem Reaches.ends (fresh : m.steps = 0) (reaches : m.Reaches k middle)
    (running : middle.halted = false) (last : ∀ budget, middle.runFor (budget + 1) = (final, trap)) :
    m.Ends trap final := by
  refine ⟨k + 1, fun limit => ?_⟩
  have before := reaches.runFor limit
  rw [Machine.run, fresh, Nat.sub_zero]
  refine ⟨fun enough => ?_, fun less => ?_⟩
  · obtain ⟨budget, same⟩ : ∃ budget, limit - k = budget + 1 := ⟨limit - k - 1, by omega⟩
    rw [before.1 (by omega), same, last]
  · rcases Nat.lt_or_ge limit k with earlier | reached
    · exact before.2 earlier
    · have none : limit - k = 0 := by omega
      rw [before.1 reached, none]
      exact ⟨middle, middle.cp, by simp [Machine.runFor, running]⟩

theorem Fails.ends {bytes : List UInt8} (fresh : m.steps = 0) (fails : m.Fails cause bytes) :
    ∃ final address, m.Ends (some ⟨address, cause⟩) final ∧ final.output.toList = bytes := by
  obtain ⟨k, before, after, address, reaches, step, same⟩ := fails
  have running : before.halted = false := by
    cases halted : before.halted with
    | false => rfl
    | true => simp [Machine.step, halted] at step
  refine ⟨after, address, reaches.ends fresh running fun budget => ?_, same⟩
  simp [Machine.runFor, running, step]

theorem Ends.run (ends : m.Ends trap final) (limit : Nat) :
    m.run limit = (final, trap) ∨
      ∃ stopped address, m.run limit = (stopped, some ⟨address, .stepLimit⟩) := by
  obtain ⟨enough, ends⟩ := ends
  rcases Nat.lt_or_ge limit enough with less | reached
  · exact .inr ((ends limit).2 less)
  · exact .inl ((ends limit).1 reached)

end Machine

/-! ## Programs -/

/-- A routine is declared here. -/
def Node.isRoutine : Node → Bool
  | .decl (.func _ _ _ _ _) | .decl (.proc _ _ _ _) => true
  | _ => false

def Node.isSubscript : Node → Bool
  | .expr (.subscript _ _ _) => true
  | _ => false

/-- The operator is one that the program declares. -/
def Node.isOwnOperator : Node → Bool
  | .expr (.unary _ (some b) _ _) | .expr (.binary _ (some b) _ _ _) => !b.isStandard
  | _ => false

/-- No type that is noted in the tree takes more words than a word can count. -/
def Program.TypesFit (p : Program) : Prop :=
  ∀ node ∈ p.nodes, ∀ t ∈ node.info.ty, t.deref.trueSize < 2 ^ 15

instance (p : Program) : Decidable p.TypesFit :=
  inferInstanceAs (Decidable (∀ node ∈ p.nodes, ∀ t ∈ node.info.ty, t.deref.trueSize < 2 ^ 15))

/-- The run ends because the stack is full. -/
def Machine.EndsInOverflow (m : Machine) : Prop :=
  ∃ final address, m.Ends (some ⟨address, .stackOverflow⟩) final

theorem shows_start (code : List Instruction) (input : List UInt8) :
    (start code input).Shows code (({ input } : Semantics.State).view 0 0 []) where
  code := rfl
  running := rfl
  cp := rfl
  lb := rfl
  st := rfl
  fits := by simp [State.view]
  data := by simp [State.view, Store.Begins]
  input := rfl
  output := rfl

/-- The code of a program, up to its end. -/
theorem Program.follows {S : Setting} {p q : Program} {items : List Item}
    (accepted : p.check = (q, [])) (generated : q.generate = .ok items) (placed : S.At 0 items)
    (clean : S.Clean q.nodes) (n : Nat) (input : List UInt8) :
    S.Follows n (({ input } : Semantics.State).view 0 0 []) (q.evaluate n input)
      fun _ s v => S.code[v.cp]? = some ⟨.halt, .CB, 0, 0⟩ ∧ v = s.view v.cp 0 [] := by
  simp only [Program.generate, EStateM.run] at generated
  split at generated
  · rename_i whole st done
    cases generated
    simp only [Generate.bind_ok, Generate.pure_ok] at done
    obtain ⟨code, _, body, last, _, halts, rfl, -⟩ := done
    obtain ⟨rfl, -⟩ := Generate.emit_ok halts
    obtain ⟨bodyPlaced, haltPlaced⟩ := placed_append.mp placed
    have aligned : (Scene.standard S n).Aligned {} := by
      rw [Scene.Aligned, wrap64_eq] <;> simp [Scene.standard, World.size]
    have stored : (Scene.standard S n).world.Stored ({ input } : Semantics.State).store := .nil
    refine (Setting.stmt_runs q.body (Scene.standard S n) (Program.check_typed accepted) clean
      aligned body bodyPlaced stored).mono ?_
    rintro _ s _ ⟨-, rfl⟩
    exact ⟨haltPlaced.plain rfl, rfl⟩
  · cases generated

/-- Where the evaluation of a program ends, its code ends in the same way, unless it runs out of
stack. -/
theorem Program.ends {p q : Program} {items : List Item} {code : List Instruction}
    {leaves routines : Prop} (accepted : p.check = (q, [])) (generated : q.generate = .ok items)
    (resolved : resolve items = .ok code)
    (clean : ∀ labels size, (⟨labels, code, size, leaves, routines⟩ : Setting).Clean q.nodes)
    (n : Nat) (input : List UInt8) :
    (start code input).EndsInOverflow ∨ match q.evaluate n input with
      | .ok () s => ∃ final, (start code input).Ends none final ∧ final.halted = true ∧
          final.output.toList = s.output ∧ final.st = 0
      | .error (.trap cause) s => cause.Ordinary ∧ ∃ final address,
          (start code input).Ends (some ⟨address, cause⟩) final ∧ final.output.toList = s.output
      | .error .outOfRange _ => leaves
      | .error .unfinished _ => ∃ k m, n ≤ k ∧ (start code input).Reaches k m
      | .error .wrong _ => False := by
  obtain ⟨size, labels, placed⟩ := resolve_placed resolved
  have follows := Program.follows (S := ⟨labels, code, size, leaves, routines⟩) accepted generated
    placed (clean labels size) n input
  have fresh : (start code input).steps = 0 := rfl
  rcases follows _ (shows_start code input) with ⟨bytes, fails⟩ | agrees
  · obtain ⟨final, address, ends, -⟩ := fails.ends fresh
    exact .inl ⟨final, address, ends⟩
  · refine .inr ?_
    match q.evaluate n input, agrees with
    | .ok () s, ⟨k, m, v, reaches, shows, halts, same⟩ =>
      have step := shows.step halts
      have stops : exec ⟨.halt, .CB, 0, 0⟩ m = .ok () { m with halted := true } := rfl
      rw [stops] at step
      refine ⟨{ m with halted := true, steps := m.steps + 1 },
        reaches.ends fresh shows.running fun budget => ?_, rfl, ?_, ?_⟩
      · rw [Machine.runFor, shows.running, step]
        cases budget <;> rfl
      · rw [same] at shows
        exact shows.output
      · rw [same] at shows
        exact shows.st
    | .error (.trap cause) s, ⟨ordinary, fails⟩ => exact ⟨ordinary, fails.ends fresh⟩
    | .error .outOfRange _, left => exact left
    | .error .unfinished _, lasts => exact lasts

/-- Without routines every subscript may leave its array; the evaluation then says nothing. -/
theorem Program.clean_plain {q : Program} {labels : List (String × Nat)} {code : List Instruction}
    (size : code.length ≤ codeSize) (plain : ∀ node ∈ q.nodes, node.isRoutine = false)
    (fit : q.TypesFit) : (⟨labels, code, size, True, False⟩ : Setting).Clean q.nodes := by
  intro node member
  refine ⟨fun t slot => fit node member t slot, ?_⟩
  have noRoutine := plain node member
  match node with
  | .expr e => cases e <;> simp
  | .stmt c => trivial
  | .decl d => cases d <;> simp [Node.isRoutine] at noRoutine ⊢
  | .param p | .arg a | .sig t => trivial

/-- Without subscripts and with standard operators only, routines may be declared. -/
theorem Program.clean_routines {q : Program} {labels : List (String × Nat)} {code : List Instruction}
    (size : code.length ≤ codeSize) (whole : ∀ node ∈ q.nodes, node.isSubscript = false)
    (standard : ∀ node ∈ q.nodes, node.isOwnOperator = false) (fit : q.TypesFit) :
    (⟨labels, code, size, False, True⟩ : Setting).Clean q.nodes := by
  intro node member
  refine ⟨fun t slot => fit node member t slot, ?_⟩
  have noSubscript := whole node member
  have noOwn := standard node member
  match node with
  | .expr e =>
    cases e with
    | subscript => simp [Node.isSubscript] at noSubscript
    | unary _ decl | binary _ decl =>
      rintro - b rfl
      simpa [Node.isOwnOperator] using noOwn
    | _ => trivial
  | .stmt c => trivial
  | .decl d => cases d <;> trivial
  | .param p | .arg a | .sig t => trivial

/-- Compiled code of a program without routines does what the program says: it halts with the
same output and an empty stack where the program comes to its end, and it fails in the same way
after the same output where the program fails, unless it runs out of stack. -/
theorem Program.compiled_ends_as_evaluated {p q : Program} {items : List Item}
    {code : List Instruction} (accepted : p.check = (q, []))
    (plain : ∀ node ∈ q.nodes, node.isRoutine = false) (fit : q.TypesFit)
    (generated : q.generate = .ok items) (resolved : resolve items = .ok code) (bound : Nat)
    (input : List UInt8) :
    (∀ s, q.evaluate bound input = .ok () s → (start code input).EndsInOverflow ∨
      ∃ final, (start code input).Ends none final ∧ final.halted = true ∧
        final.output.toList = s.output ∧ final.st = 0) ∧
    ∀ cause s, q.evaluate bound input = .error (.trap cause) s →
      (start code input).EndsInOverflow ∨ ∃ final address,
        (start code input).Ends (some ⟨address, cause⟩) final ∧ final.output.toList = s.output := by
  have ends := Program.ends accepted generated resolved
    (fun _ size => Program.clean_plain size plain fit) bound input
  refine ⟨fun s evaluated => ?_, fun cause s evaluated => ?_⟩
  · rwa [evaluated] at ends
  · rw [evaluated] at ends
    exact ends.imp_right And.right

/-- Reads a number and counts down from it. -/
def Program.countdown : Program :=
  let x : Expr := .ident {} none "x"
  ⟨.letIn {} [.var {} "x" (.named {} "Integer")] (.seq {} [
    .call {} none "getint" [.var {} x],
    .whileDo {} (.binary {} none ">" x (.int {} 0)) (.seq {} [
      .call {} none "putint" [.value {} x],
      .assign {} x (.binary {} none "-" x (.int {} 1))])])⟩

theorem Program.countdown_ends : ∃ items code, countdown.check.1.generate = .ok items ∧
    resolve items = .ok code ∧ ((start code [50]).EndsInOverflow ∨
      ∃ final, (start code [50]).Ends none final ∧ final.halted = true ∧
        final.output.toList = [50, 49] ∧ final.st = 0) :=
  have accepted : countdown.check = (countdown.check.1, []) := rfl
  ⟨_, _, rfl, rfl, (compiled_ends_as_evaluated accepted (by decide) (by decide) rfl rfl 3 [50]).1
    { output := [50, 49] } rfl⟩

/-- With this limit on instructions the machine halts, or it fails as programs can: in arithmetic,
in the input, for want of stack or of time. -/
def Machine.StopsInOrder (m : Machine) (limit : Nat) : Prop :=
  (∃ final, m.run limit = (final, none) ∧ final.halted = true) ∨
    ∃ final address cause, m.run limit = (final, some ⟨address, cause⟩) ∧
      (cause.Ordinary ∨ cause = .stackOverflow ∨ cause = .stepLimit)

theorem Machine.stopsInOrder_of_limit {m : Machine} {limit : Nat}
    (stopped : ∃ final address, m.run limit = (final, some ⟨address, .stepLimit⟩)) :
    m.StopsInOrder limit := by
  obtain ⟨final, address, same⟩ := stopped
  exact .inr ⟨final, address, .stepLimit, same, .inr (.inr rfl)⟩

/-- Compiled code of a program without subscripts, in which every operator is a standard one,
never touches what it must not: under any limit it halts or fails as programs can. -/
theorem Program.compiled_stops_in_order {p q : Program} {items : List Item}
    {code : List Instruction} (accepted : p.check = (q, []))
    (whole : ∀ node ∈ q.nodes, node.isSubscript = false)
    (standard : ∀ node ∈ q.nodes, node.isOwnOperator = false) (fit : q.TypesFit)
    (generated : q.generate = .ok items) (resolved : resolve items = .ok code)
    (input : List UInt8) (limit : Nat) : (start code input).StopsInOrder limit := by
  have ends := Program.ends accepted generated resolved
    (fun _ size => Program.clean_routines size whole standard fit) (limit + 1) input
  rcases ends with ⟨final, address, ends⟩ | ends
  · rcases ends.run limit with same | stopped
    · exact .inr ⟨final, address, _, same, .inr (.inl rfl)⟩
    · exact stopsInOrder_of_limit stopped
  · match q.evaluate (limit + 1) input, ends with
    | .ok () s, ⟨final, ends, halted, _⟩ =>
      rcases ends.run limit with same | stopped
      · exact .inl ⟨final, same, halted⟩
      · exact stopsInOrder_of_limit stopped
    | .error (.trap cause) s, ⟨ordinary, final, address, ends, _⟩ =>
      rcases ends.run limit with same | stopped
      · exact .inr ⟨final, address, cause, same, .inl ordinary⟩
      · exact stopsInOrder_of_limit stopped
    | .error .unfinished _, ⟨k, m, lasts, reaches⟩ =>
      -- a machine that runs on for longer than the limit is stopped by it
      exact stopsInOrder_of_limit ((reaches.runFor limit).2 (by omega))

/-- Counts a variable down by a function that is passed to another, in a procedure that calls
itself. -/
def Program.descent : Program :=
  let integer : Sig := .named {} "Integer"
  let n : Expr := .ident {} none "n"
  ⟨.letIn {} [.var {} "x" integer,
    .func {} "less" [.value {} "k" integer] integer
      (.binary {} none "-" (.ident {} none "k") (.int {} 1)),
    .func {} "twice" [.func {} "f" [.value {} "k" integer] (some integer), .value {} "k" integer]
      integer (.call {} none "f" [.value {} (.call {} none "f" [.value {} (.ident {} none "k")])]),
    .proc {} "descend" [.var {} "n" integer]
      (.ifThen {} (.binary {} none ">" n (.int {} 0)) (.seq {} [
        .call {} none "putint" [.value {} n],
        .assign {} n (.call {} none "twice" [.func {} none "less", .value {} n]),
        .call {} none "descend" [.var {} n]]))]
    (.seq {} [.call {} none "getint" [.var {} (.ident {} none "x")],
      .call {} none "descend" [.var {} (.ident {} none "x")]])⟩

theorem Program.descent_stops : ∃ items code, descent.check.1.generate = .ok items ∧
    resolve items = .ok code ∧ ∀ input limit, (start code input).StopsInOrder limit :=
  have accepted : descent.check = (descent.check.1, []) := rfl
  ⟨_, _, rfl, rfl, compiled_stops_in_order accepted (by decide) (by decide) (by decide) rfl rfl⟩

end Triangle
