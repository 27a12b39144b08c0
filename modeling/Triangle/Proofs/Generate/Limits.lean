import Mathlib
import Triangle.Proofs.Generate.Form
import Triangle.Proofs.Typing.Basic

/-! Steps of the generator that fail in allowed ways only, and make code in form. Where the checker
knows a name and the generator does too, only the limits of the machine are in the way. -/
namespace Triangle.Generate
open List
open Code (isIdentifier)

variable {α β : Type} {allowed : Fault → Prop} {types : Check.Env} {env : Env} {t : Ty}

/-! ## Steps that may fail -/

/-- A step that fails in an allowed way only, and otherwise returns what it should. -/
def Makes (allowed : Fault → Prop) (x : Gen α) (good : α → Prop) : Prop :=
  ∀ st, match x st with
    | .ok a _ => good a
    | .error fault _ => allowed fault

abbrev Works (allowed : Fault → Prop) (x : Gen α) : Prop := Makes allowed x fun _ => True

theorem Makes.bind {x : Gen α} {f : α → Gen β} {good : α → Prop} {next : β → Prop}
    (first : Makes allowed x good) (rest : ∀ a, good a → Makes allowed (f a) next) :
    Makes allowed (x >>= f) next := by
  intro st
  have made := first st
  cases done : x st with
  | ok a middle =>
    rw [done] at made
    rw [Result.bind_ok done]
    exact rest a made middle
  | error fault middle =>
    rw [done] at made
    rw [Result.bind_error done]
    exact made

theorem Makes.then {x : Gen α} {f : α → Gen β} {good : α → Prop} {next : β → Prop}
    (first : Makes allowed x good) (rest : ∀ a, Makes allowed (f a) next) :
    Makes allowed (x >>= f) next :=
  first.bind fun a _ => rest a

theorem Makes.weaken {x : Gen α} {good fair : α → Prop} (made : Makes allowed x good)
    (weaker : ∀ a, good a → fair a) : Makes allowed x fair := by
  intro st
  have made := made st
  cases done : x st with
  | ok a after =>
    rw [done] at made
    exact weaker a made
  | error fault after =>
    rw [done] at made
    exact made

theorem makes_pure {a : α} {good : α → Prop} (made : good a) : Makes allowed (pure a) good :=
  fun _ => made

theorem works_pure {a : α} : Works allowed (pure a) := makes_pure trivial

theorem makes_fail {cause : Cause} (fine : ∀ pos, allowed (.fatal pos cause)) :
    Makes allowed (fail cause : Gen α) fun _ => False :=
  fun st => fine st.pos

theorem works_modify {g : State → State} : Works allowed (modify g : Gen PUnit) := fun _ => trivial

theorem works_moveTo (pos : Pos) : Works allowed (moveTo pos) := by
  unfold moveTo
  split
  · exact works_pure
  · exact works_modify

theorem works_offset : Works allowed offset := fun _ => trivial

theorem works_setOffset (n : Int) : Works allowed (setOffset n) := works_modify

theorem makes_newLabel {stem : String} (identifier : isIdentifier stem.toList = true) :
    Makes allowed (newLabel stem) fun label => isIdentifier label.toList = true :=
  fun st => isIdentifier_numbered identifier (st.labels + 1)

theorem makes_routineLabel (name : String) :
    Makes allowed (routineLabel name) fun label => isIdentifier label.toList = true := by
  obtain ⟨stem, identifier, same⟩ := routineLabel_eq name
  rw [same]
  exact makes_newLabel identifier

/-- The machine has limits: frames that no register reaches, and values that no instruction
moves. -/
def Fault.IsLimit : Fault → Prop
  | .fatal _ (.tooDeep _) | .fatal _ (.valueTooLarge _) => True
  | .fatal _ (.malformed _) | .untyped _ => False

section

variable (limits : ∀ fault : Fault, fault.IsLimit → allowed fault) (fits : Prop)
include limits

theorem makes_emit {item : Code.Item} (ready : fits → item.Ready) :
    Makes allowed (emit item) (Tidy fits) := by
  cases item with
  | label name => exact makes_pure (tidy_single ready)
  | op ins target =>
    simp only [emit]
    split
    · exact (makes_fail fun pos => limits (.fatal pos (.valueTooLarge ins.n)) trivial).bind
        fun (_ : PUnit) never => never.elim
    · exact works_modify.then fun _ => makes_pure (tidy_single ready)

/-- Emission refuses to pop past more words than an instruction can count. -/
theorem makes_pop {n : Int} (least : fits → 0 ≤ n) (d : Int) :
    Makes allowed (emit (.pop n d)) (Tidy fits) := by
  by_cases many : 255 < n
  · simp only [emit, Code.Item.pop, Code.Item.plain, movesWords, many, decide_true, Bool.and_self,
      ↓reduceIte]
    exact (makes_fail fun pos => limits (.fatal pos (.valueTooLarge n)) trivial).bind
      fun (_ : PUnit) never => never.elim
  · exact makes_emit limits fits fun fits => Code.Item.ready_pop (least fits) (Int.not_lt.mp many) d

theorem makes_emitBinary (p : Primitive) : Makes allowed (emitBinary p) (Tidy fits) :=
  (makes_emit limits fits (by simp)).bind fun _ code => works_modify.then fun _ => makes_pure code

theorem makes_jump {target : String} (identifier : isIdentifier target.toList = true) :
    Makes allowed (emit (.jump target)) (Tidy fits) :=
  makes_emit limits fits fun _ =>
    Code.Item.ready_aimed rfl (.inl (by decide)) (fun _ => rfl) identifier

theorem makes_jumpIf {target : String} (identifier : isIdentifier target.toList = true) (n : Int) :
    Makes allowed (emit (.jumpIf n target)) (Tidy fits) :=
  makes_emit limits fits fun _ =>
    Code.Item.ready_aimed rfl (.inl (by decide)) (by simp [Op.counted]) identifier

theorem makes_loadLabel {target : String} (identifier : isIdentifier target.toList = true) :
    Makes allowed (emit (.loadLabel target)) (Tidy fits) :=
  makes_emit limits fits fun _ =>
    Code.Item.ready_aimed rfl (.inl (by decide)) (fun _ => rfl) identifier

theorem makes_label {name : String} (identifier : isIdentifier name.toList = true) :
    Makes allowed (emit (.label name)) (Tidy fits) :=
  makes_emit limits fits fun _ => .label identifier

theorem makes_register (env : Env) (depth : Nat) :
    Makes allowed (register env depth) fun r => r.index.toNat ≤ 15 := by
  unfold register
  split
  · exact makes_pure (by decide)
  · cases found : Reg.display? depth with
    | none =>
      exact (makes_fail fun pos => limits (.fatal pos (.tooDeep depth)) trivial).weaken
        fun _ never => never.elim
    | some r =>
      have near : depth ≤ 6 := by
        by_contra far
        simp [Reg.display?, Reg.maxDisplay, show ¬ (depth : Int) ≤ 6 by omega] at found
      have all : ∀ k ≤ 6, ∀ r ∈ Reg.display? (k : Nat), r.index.toNat ≤ 15 := by decide
      exact makes_pure (all depth near r found)

theorem makes_address (loc : Location) : Makes allowed (address loc) (Tidy fits) := by
  unfold address
  cases loc with
  | inFrame r disp => exact makes_emit limits fits (by simp)
  | onStack disp =>
    dsimp only
    split
    · exact makes_pure tidy_nil
    · exact (makes_emit limits fits (by simp)).bind fun _ first =>
        (makes_emitBinary limits fits _).bind fun _ second =>
        makes_pure (by simp [first, second])

theorem makes_load (loc : Location) (n : Int) : Makes allowed (load loc n) (Tidy fits) := by
  unfold load
  cases loc with
  | inFrame r disp => exact makes_emit limits fits (by simp)
  | onStack disp =>
    exact (makes_address limits fits _).bind fun _ base =>
      (makes_emit limits fits (by simp)).bind fun _ moved =>
      makes_pure (by simp [base, moved])

theorem makes_store (loc : Location) (n : Int) : Makes allowed (store loc n) (Tidy fits) := by
  unfold store
  cases loc with
  | inFrame r disp => exact makes_emit limits fits (by simp)
  | onStack disp =>
    exact (makes_address limits fits _).bind fun _ base =>
      (makes_emit limits fits (by simp)).bind fun _ moved =>
      makes_pure (by simp [base, moved])

end

/-! ## Names -/

/-- A name that is called. -/
def IsRoutine : Check.Meaning → Prop
  | .typed t _ => t.isFunc = true
  | .equality _ => True

def IsScalar : Ty → Prop
  | .boolean | .integer | .char => True
  | _ => False

/-- The entry of a routine is an identifier, and its frame is in a register. -/
def Linked (found : Callable × Reg) : Prop :=
  (∀ label, found.1 = .routine label → isIdentifier label.toList = true) ∧
    found.2.index.toNat ≤ 15

/-- What the checker knows is known to the generator too, and no routine but those. -/
structure Provides (types : Check.Env) (env : Env) : Prop where
  value : ∀ {x t b}, types.terms.lookup? x = some (.typed t b) → t.isFunc = false →
    ∃ e depth, env.locals.lookupWithDepth? x = some (e, depth) ∧
      ∀ v, e = .known v → types.terms.isConst x = true ∧ IsScalar t
  routine : ∀ {x m}, types.terms.lookup? x = some m → IsRoutine m →
    ∃ found, env.callables.lookupWithDepth? x = some found
  hidden : ∀ {x}, types.terms.lookup? x = none → env.callables.lookupWithDepth? x = none
  standard : ∀ {x t kind name}, types.terms.lookup? x = some (.typed t (.standard kind name)) →
    ∃ m, Check.standardTerms.lookup x = some m
  /-- A declaration is found under its own name. -/
  declared : ∀ {x t kind name pos},
    types.terms.lookup? x = some (.typed t (.declared kind name pos)) → name = x
  prefixes : ∀ op ∈ ["-", "\\"], types.terms.lookup? (Check.unaryKey op) ≠ none

variable {x : String}

namespace Provides

theorem enterBlock (provides : Provides types env) : Provides types.enterBlock env.enterBlock := by
  constructor <;>
    simp only [Check.Env.enterBlock, Env.enterBlock, Scope.Table.lookup?_enterBlock,
      Scope.Table.lookupWithDepth?_enterBlock, Scope.Table.isConst_enterBlock]
  · exact provides.value
  · exact provides.routine
  · exact provides.hidden
  · exact provides.standard
  · exact provides.declared
  · exact provides.prefixes

theorem enterFrame (provides : Provides types env) :
    Provides types.enterRoutine env.enterFrame := by
  constructor <;>
    simp only [Check.Env.enterRoutine, Env.enterFrame, Scope.Table.lookup?_enterScope,
      Scope.Table.lookupWithDepth?_enterScope, Scope.Table.isConst_enterScope]
  · intro x t b found plain
    obtain ⟨e, depth, known, fits⟩ := provides.value found plain
    exact ⟨e, depth + 1, by rw [known]; rfl, fits⟩
  · intro x m found called
    obtain ⟨⟨c, depth⟩, known⟩ := provides.routine found called
    exact ⟨(c, depth + 1), by rw [known]; rfl⟩
  · intro x missing
    rw [provides.hidden missing]
    rfl
  · exact provides.standard
  · exact provides.declared
  · exact provides.prefixes

/-- A value hides what had its name. -/
theorem bindValue {e : Entity} {b : Binding} {constant flag : Bool}
    (provides : Provides types env) (plain : t.isFunc = false)
    (fits : ∀ v, e = .known v → constant = true ∧ IsScalar t)
    (named : ∃ kind pos, b = .declared kind x pos) :
    Provides { types with terms := types.terms.insert x ⟨.typed t b, constant⟩ }
      { env with locals := env.locals.insert x ⟨e, flag⟩ } := by
  obtain ⟨kind, pos, rfl⟩ := named
  constructor <;>
    simp only [Scope.Table.lookup?_insert, Scope.Table.lookupWithDepth?_insert,
      Scope.Table.isConst_insert]
  · intro y u c found notFunc
    by_cases same : y = x
    · simp only [same, ↓reduceIte] at found ⊢
      cases found
      exact ⟨e, 0, rfl, fits⟩
    · simp only [same, ↓reduceIte] at found ⊢
      exact provides.value found notFunc
  · intro y m found called
    split at found
    · cases found
      simp [IsRoutine, plain] at called
    · exact provides.routine found called
  · intro y missing
    split at missing
    · cases missing
    · exact provides.hidden missing
  · intro y u kind name found
    split at found
    · cases found
    · exact provides.standard found
  · intro y u kind name pos found
    by_cases same : y = x
    · simp only [same, ↓reduceIte] at found ⊢
      cases found
      rfl
    · simp only [same, ↓reduceIte] at found
      exact provides.declared found
  · intro op member
    split
    · simp
    · exact provides.prefixes op member

/-- A routine hides what had its name. -/
theorem bindRoutine {c : Callable} {b : Binding} {constant flag : Bool}
    (provides : Provides types env) (called : t.isFunc = true)
    (named : ∃ kind pos, b = .declared kind x pos) :
    Provides { types with terms := types.terms.insert x ⟨.typed t b, constant⟩ }
      { env with callables := env.callables.insert x ⟨c, flag⟩ } := by
  obtain ⟨kind, pos, rfl⟩ := named
  constructor <;>
    simp only [Scope.Table.lookup?_insert, Scope.Table.lookupWithDepth?_insert,
      Scope.Table.isConst_insert]
  · intro y u c found notFunc
    by_cases same : y = x
    · simp only [same, ↓reduceIte] at found
      cases found
      simp [called] at notFunc
    · simp only [same, ↓reduceIte] at found ⊢
      exact provides.value found notFunc
  · intro y m found called
    by_cases same : y = x
    · exact ⟨(c, 0), by simp [same]⟩
    · simp only [same, ↓reduceIte] at found ⊢
      exact provides.routine found called
  · intro y missing
    by_cases same : y = x
    · simp only [same, ↓reduceIte] at missing
      cases missing
    · simp only [same, ↓reduceIte] at missing ⊢
      exact provides.hidden missing
  · intro y u kind name found
    split at found
    · cases found
    · exact provides.standard found
  · intro y u kind name pos found
    by_cases same : y = x
    · simp only [same, ↓reduceIte] at found ⊢
      cases found
      rfl
    · simp only [same, ↓reduceIte] at found
      exact provides.declared found
  · intro op member
    split
    · simp
    · exact provides.prefixes op member

theorem initial : Provides .standard .standard where
  value := by
    intro x t b found plain
    rw [lookup_standard] at found
    obtain ⟨-, constant | ⟨_, _, _, rfl, -⟩⟩ := standardTerms_typed found
    · have table : ∀ row ∈ Check.standardConstants,
          (knownValues.lookup row.1).isSome = true ∧ IsScalar row.2 := by
        simp [Check.standardConstants, knownValues, IsScalar]
      obtain ⟨known, scalar⟩ := table _ constant
      obtain ⟨v, known⟩ := Option.isSome_iff_exists.mp known
      refine ⟨.known v, 0, by rw [known_standard, known]; rfl, fun _ _ => ⟨?_, scalar⟩⟩
      rw [Scope.Table.isConst, terms_standard, found]
      rfl
    · simp [Ty.isFunc, Ty.deref] at plain
  routine := by
    intro x m found called
    rw [lookup_standard] at found
    have table : ∀ row ∈ Check.standardTerms, (match row.2 with
        | .typed t _ => t.isFunc
        | .equality _ => true) = true → (standardCallables.lookup row.1).isSome = true := by decide
    have served := table _ (Scope.mem_of_lookup found) (by cases m with
      | typed t b => exact called
      | equality b => rfl)
    obtain ⟨c, served⟩ := Option.isSome_iff_exists.mp served
    exact ⟨(c, 0), by rw [callables_standard, served]; rfl⟩
  hidden := by
    intro x missing
    rw [lookup_standard, lookup_eq_none_iff] at missing
    have known : ∀ key ∈ standardCallables.map Prod.fst,
        key ∈ Check.standardTerms.map Prod.fst := by decide
    rw [callables_standard]
    cases served : standardCallables.lookup x with
    | none => rfl
    | some c =>
      obtain ⟨row, member, same⟩ :=
        mem_map.mp (known x (mem_map_of_mem (Scope.mem_of_lookup served)))
      exact absurd same.symm (by simpa using missing row member)
  standard := by
    intro x t kind name found
    rw [lookup_standard] at found
    exact ⟨_, found⟩
  declared := by
    intro x t kind name pos found
    rw [lookup_standard] at found
    simpa [Binding.isStandard] using (standardTerms_typed found).1
  prefixes := by
    decide

end Provides

/-! ## Steps that take names -/

theorem makes_entity {found : Entity × Nat} (known : env.locals.lookupWithDepth? x = some found) :
    Makes allowed (entity env x) (· = found) := by
  unfold entity
  rw [known]
  exact makes_pure rfl

variable {i : Info}

theorem makes_typeOf (slot : i.ty = some t) : Makes allowed (typeOf i) (· = t) := by
  unfold typeOf
  rw [slot]
  exact makes_pure rfl

theorem works_sizeOf (slot : i.ty = some t) : Works allowed (sizeOf i) :=
  (makes_typeOf slot).then fun _ => works_pure

theorem makes_within {n : Int} {body : Gen Code} {P : Code → Prop}
    (made : Makes allowed body P) : Makes allowed (within n body) P :=
  works_offset.then fun _ => (works_setOffset _).then fun _ => made.bind fun _ kept =>
    (works_setOffset _).then fun _ => makes_pure kept

/-- A literal is of a scalar type. -/
theorem scalar_of_literal {e : Expr} {l : Literal} (typed : Check.ExprTyped types e t)
    (literal : e.literal? = some l) : IsScalar t := by
  cases e with
  | int | char | bool =>
    simp [typed.2, IsScalar]
  | _ =>
    simp [Expr.literal?] at literal

section

variable (limits : ∀ fault : Fault, fault.IsLimit → allowed fault) (fits : Prop)
include limits

/-- A routine that is found is linked through a register. -/
theorem makes_callable {found : Callable × Nat} (labelled : env.Labelled)
    (known : env.callables.lookupWithDepth? x = some found) :
    Makes allowed (callable env x) Linked := by
  unfold callable
  rw [known]
  obtain ⟨c, depth⟩ := found
  cases c with
  | primitive | conversion => exact makes_pure ⟨by simp, by simp [Reg.SB]⟩
  | routine label =>
    exact (makes_register limits env depth).bind fun _ bound =>
      makes_pure ⟨fun _ same => labelled x _ depth (same ▸ known), bound⟩
  | closure => exact (makes_register limits env depth).bind fun _ bound => makes_pure ⟨by simp, bound⟩

theorem makes_invoke (callable : Makes allowed (callable env x) Linked) :
    Makes allowed (invoke env x) (Tidy fits) := by
  refine callable.bind fun ⟨c, r⟩ ⟨named, bound⟩ => ?_
  cases c with
  | routine label =>
    exact makes_emit limits fits fun _ => Code.Item.ready_aimed rfl (.inr (by simpa using bound))
      (by simp [Op.counted]) (named label rfl)
  | closure =>
    exact (makes_emit limits fits (by simp)).bind fun _ first => (makes_emit limits fits (by simp)).bind
      fun _ second => makes_pure (by simp [first, second])
  | primitive => exact makes_emit limits fits (by simp)
  | conversion => exact makes_pure tidy_nil

theorem makes_thunk {ps : List Ty} {r : Ty} (slot : i.ty = some (.func ps r))
    (name : String) : Makes allowed (thunk i name) fun made =>
      Tidy fits made.1 ∧ isIdentifier made.2.toList = true := by
  refine (makes_typeOf slot).bind fun _ same => ?_
  subst same
  exact works_offset.then fun _ => (makes_routineLabel name).bind fun _ named =>
    (makes_newLabel (by decide)).bind fun _ skipped => (makes_jump limits fits skipped).bind fun _ past =>
    (makes_label limits fits named).bind fun _ start => (makes_emit limits fits (by simp)).bind fun _ value =>
    (makes_emit limits fits (by simp)).bind fun _ back => (makes_label limits fits skipped).bind fun _ finish =>
    (works_setOffset _).then fun _ => makes_pure (by simp [past, start, value, back, finish, named])

theorem makes_closure {ps : List Ty} {r : Ty}
    (callable : Makes allowed (callable env x) Linked) (slot : i.ty = some (.func ps r)) :
    Makes allowed (closure env i x) (Tidy fits) := by
  refine callable.bind fun ⟨c, r⟩ ⟨named, bound⟩ => ?_
  cases c with
  | routine label =>
    exact (makes_emit limits fits (by simp)).bind fun _ link =>
      (makes_loadLabel limits fits (named label rfl)).bind fun _ entry =>
      makes_pure (by simp [link, entry])
  | primitive =>
    exact (makes_emit limits fits (by simp)).bind fun _ link => (makes_emit limits fits (by simp)).bind
      fun _ entry => makes_pure (by simp [link, entry])
  | closure => exact makes_emit limits fits (by simp)
  | conversion =>
    exact (makes_emit limits fits (by simp)).bind fun _ link => (makes_thunk limits fits slot x).bind
      fun _ made => (makes_loadLabel limits fits made.2).bind fun _ last =>
      makes_pure (by simp [link, made.1, last])

theorem makes_comparedSize {op : String}
    (callable : Makes allowed (callable env op) Linked) (slot : i.ty = some t) :
    Makes allowed (comparedSize env op i) (Tidy fits) := by
  refine callable.then fun ⟨c, r⟩ => ?_
  split
  · exact (works_sizeOf slot).then fun _ => makes_emit limits fits (by simp)
  · exact (works_sizeOf slot).then fun _ => makes_emit limits fits (by simp)
  · exact makes_pure tidy_nil

theorem makes_locateName {found : Entity × Nat}
    (known : env.locals.lookupWithDepth? x = some found) (stored : ∀ v, found.1 ≠ .known v) :
    Makes allowed (locateName env x) fun made => Tidy fits made.1 := by
  obtain ⟨e, depth⟩ := found
  refine (makes_entity known).bind fun _ same => ?_
  subst same
  cases e with
  | known v => exact absurd rfl (stored v)
  | stored off => exact (makes_register limits env depth).then fun _ => makes_pure tidy_nil
  | indirect off =>
    exact (makes_register limits env depth).then fun _ => (makes_emit limits fits (by simp)).bind
      fun _ base => makes_pure base

/-- A literal index needs no code. -/
theorem makes_locateElement {index : Expr} {array : Gen (Code × Location)}
    {indexCode : Gen Code} {P Q : Prop} (slot : i.ty = some t)
    (located : Makes allowed array fun made => P ∧ Tidy fits made.1)
    (counted : Makes allowed indexCode fun code => Q ∧ Tidy fits code)
    (literal : ∀ j value, index = .int j value → Q) :
    Makes allowed (locateElement i index array indexCode) fun made => P ∧ Q ∧ Tidy fits made.1 := by
  refine located.bind fun ⟨base, loc⟩ first => (works_sizeOf slot).then fun elem => ?_
  have onStack : Makes allowed (toStack loc) fun made => Tidy fits made.1 := by
    cases loc with
    | inFrame r disp => exact (makes_emit limits fits (by simp)).bind fun _ base => makes_pure base
    | onStack disp => exact makes_pure tidy_nil
  have scaled : Makes allowed (scaleIndex elem) (Tidy fits) := by
    unfold scaleIndex
    split
    · exact makes_pure tidy_nil
    · exact (makes_emit limits fits (by simp)).bind fun _ first =>
        (makes_emitBinary limits fits _).bind fun _ second =>
        makes_pure (by simp [first, second])
  split
  · exact makes_pure ⟨first.1, literal _ _ rfl, first.2⟩
  · exact onStack.bind fun _ start => counted.bind fun _ second => scaled.bind fun _ scale =>
      (makes_emitBinary limits fits _).bind fun _ sum => makes_pure ⟨first.1, second.1, by
        simp [show Tidy fits base from first.2, start, second.2, scale, sum]⟩

end

theorem makes_locateField {record : Expr} {field : String} {fields : List (String × Ty)}
    {entry : Ty × Int} {located : Gen (Code × Location)} {P : Prop}
    (slot : record.info.ty = some t) (shape : t.deref = .record fields)
    (found : Ty.field? field 0 fields = some entry)
    (made : Makes allowed located fun made => P ∧ Tidy fits made.1) :
    Makes allowed (locateField record field located) fun made => P ∧ Tidy fits made.1 := by
  refine made.bind fun _ kept => (makes_typeOf slot).bind fun _ same => ?_
  subst same
  simp only [shape, found]
  exact makes_pure kept

theorem makes_fieldValues {values : List (String × Gen Code)} {fields : List (String × Ty)}
    {P : String → Prop} (named : ∀ f ∈ fields, f.1 ∈ values.map Prod.fst)
    (made : ∀ v ∈ values, Makes allowed v.2 fun code => P v.1 ∧ Tidy fits code) :
    Makes allowed (fieldValues values fields) fun code =>
      (∀ f ∈ fields, P f.1) ∧ Tidy fits code := by
  induction fields with
  | nil => exact makes_pure ⟨by simp, tidy_nil⟩
  | cons f rest ih =>
    obtain ⟨name, u⟩ := f
    unfold fieldValues
    cases found : values.reverse.lookup name with
    | none =>
      obtain ⟨v, member, same⟩ := mem_map.mp (named _ (mem_cons_self ..))
      rw [lookup_eq_none_iff] at found
      exact absurd same.symm (by simpa using found v (mem_reverse.mpr member))
    | some value =>
      have member := mem_reverse.mp (Scope.mem_of_lookup found)
      exact (made _ member).bind fun _ first =>
        (ih fun f later => named f (mem_cons_of_mem _ later)).bind fun _ others =>
        makes_pure ⟨forall_mem_cons.mpr ⟨first.1, others.1⟩, by simp [first.2, others.2]⟩

end Triangle.Generate
