import Mathlib
import Triangle.Proofs.Generate.Limits
import Triangle.Proofs.Typing.Nodes

/-! The way down to a node, as a trail of the declarations that it passes and of what the generator
makes of each. The two tables of the generator and the one table of the checker are views of the same
trail. -/
namespace Triangle.Generate

variable {α : Type} {env env' : Env} {types : Check.Env}

/-! ## Runs -/

/-- The step returns this from some state. -/
def Yields (x : Gen α) (a : α) : Prop := ∃ st st', x st = .ok a st'

def Runs (x : Gen α) : Prop := ∃ a, Yields x a

/-- The code of the node is made, or its storage is found. -/
def Ran (env : Env) : Node → Prop
  | .expr e => Runs (expr env e) ∨ Runs (locate env e)
  | .stmt s => Runs (stmt env s)
  | .decl d => Runs (decl env d)
  | .arg a => Runs (arg env a)
  | .param _ | .sig _ => True

/-! ## Objects -/

/-- What a name stands for in the code. -/
inductive Object where
  | value (e : Entity)
  | routine (c : Callable)
  deriving DecidableEq, Repr

def Object.isRoutine : Object → Bool
  | value _ => false
  | routine _ => true

/-- What has this name in the table of routines or in that of values, and the number of frames
between. -/
def Env.find? (env : Env) (called : Bool) (name : String) : Option (Object × Nat) :=
  if called then (env.callables.lookupWithDepth? name).map fun found => (.routine found.1, found.2)
  else (env.locals.lookupWithDepth? name).map fun found => (.value found.1, found.2)

/-- The same names and one more. -/
def Env.gain (env : Env) (name : String) (constant : Bool) : Object → Env
  | .value e => { env with locals := env.locals.insert name ⟨e, constant⟩ }
  | .routine c => { env with callables := env.callables.insert name ⟨c, constant⟩ }

theorem find?_gain (env : Env) (name x : String) (constant called : Bool) (object : Object) :
    (env.gain name constant object).find? called x =
      if x = name ∧ called = object.isRoutine then some (object, 0) else env.find? called x := by
  cases object <;> cases called <;> by_cases same : x = name <;>
    simp [Env.gain, Env.find?, Object.isRoutine, same]

theorem find?_enterFrame (env : Env) (called : Bool) (x : String) :
    env.enterFrame.find? called x =
      (env.find? called x).map fun found => (found.1, found.2 + 1) := by
  cases called <;> simp [Env.enterFrame, Env.find?, Option.map_map, Function.comp_def]

/-! ## Trails -/

/-- A declaration, under its name, and what the generator makes of it. -/
structure Made where
  name : String
  binding : Binding
  object : Object
  deriving DecidableEq, Repr

/-- A declaration that is passed on the way down, or the start of the body of a routine. -/
inductive Mark where
  | made (m : Made)
  | body

/-- The nearest declaration of a name, on a trail that starts at the node, and the number of routine
bodies that begin between the two. -/
def nearest? (x : String) : List Mark → Option (Made × Nat)
  | [] => none
  | .made m :: outer => if x = m.name then some (m, 0) else nearest? x outer
  | .body :: outer => (nearest? x outer).map fun found => (found.1, found.2 + 1)

/-- What is written in place of a standard name. -/
def standardObject? (key : String) : Option Object :=
  match knownValues.lookup key with
  | some v => some (.value (.known v))
  | none => (standardCallables.lookup key).map .routine

/-- The declarations around a whole program. -/
def standardTrail : List Mark :=
  Check.standardTerms.filterMap fun (key, m) =>
    (standardObject? key).map fun object => .made ⟨key, m.decl, object⟩

/-- The declaration is made in the first scope, and leaves the second. A type makes nothing. -/
inductive Notes (env : Env) (trail : List Mark) (d : Decl) : Env → List Mark → Prop where
  | type {code : Code} (kind : d.kind = .type) (made : Yields (decl env d) (env, code)) :
      Notes env trail d env trail
  | term {code : Code} {object : Object} {constant : Bool} (kind : d.kind ≠ .type)
      (suits : object.isRoutine = decide (d.kind = .func ∨ d.kind = .proc))
      (made : Yields (decl env d) (env.gain d.name constant object, code)) :
      Notes env trail d (env.gain d.name constant object)
        (.made ⟨d.name, d.binding, object⟩ :: trail)

inductive Declares : Env → List Mark → List Decl → Env → List Mark → Prop where
  | nil {env : Env} {trail : List Mark} : Declares env trail [] env trail
  | cons {env next final : Env} {trail trail' trail'' : List Mark} {d : Decl} {ds : List Decl}
      (first : Notes env trail d next trail') (rest : Declares next trail' ds final trail'') :
      Declares env trail (d :: ds) final trail''

/-- The parameters are bound one after the other. -/
inductive Binds : Env → List Mark → List Param → Env → List Mark → Prop where
  | nil {env : Env} {trail : List Mark} : Binds env trail [] env trail
  | cons {env final : Env} {trail trail' : List Mark} {p : Param} {ps : List Param}
      {object : Object} {constant : Bool} (suits : object.isRoutine = decide (p.kind = .funcParam))
      (rest : Binds (env.gain p.name constant object) (.made ⟨p.name, p.binding, object⟩ :: trail)
        ps final trail') : Binds env trail (p :: ps) final trail'

/-- The generator comes to the node with this scope, on this trail, and makes its code. -/
inductive Visits (whole : Stmt) : Env → List Mark → Node → Prop where
  | whole (ran : Ran .standard (.stmt whole)) : Visits whole .standard standardTrail (.stmt whole)
  | part {env : Env} {trail : List Mark} {n m : Node} (above : Visits whole env trail n)
      (member : m ∈ n.parts) (ran : Ran env m) : Visits whole env trail m
  | declared {env env' : Env} {trail trail' : List Mark} {n body : Node} {before after : List Decl}
      {d : Decl} (above : Visits whole env trail n)
      (block : n.block? = some (before ++ d :: after, body))
      (passed : Declares env.enterBlock trail before env' trail') (ran : Ran env' (.decl d)) :
      Visits whole env' trail' (.decl d)
  | body {env env' : Env} {trail trail' : List Mark} {n body : Node} {ds : List Decl}
      (above : Visits whole env trail n) (block : n.block? = some (ds, body))
      (passed : Declares env.enterBlock trail ds env' trail') (ran : Ran env' body) :
      Visits whole env' trail' body
  | routine {env next inner : Env} {trail trail' trail'' : List Mark} {d : Decl} {body : Node}
      {params : List Param} {size : Int} (above : Visits whole env trail (.decl d))
      (routine : (Node.decl d).routine? = some (params, body))
      (itself : Notes env trail d next trail') (sized : Yields (paramsSize 0 params) size)
      (bound : Yields (bindParams next.enterFrame (wrap64 (-size)) params) inner)
      (passed : Binds next.enterFrame (.body :: trail') params inner trail'')
      (ran : Ran inner body) : Visits whole inner trail'' body

theorem Visits.ran {whole : Stmt} {trail : List Mark} {n : Node}
    (visits : Visits whole env trail n) : Ran env n := by
  cases visits <;> assumption

/-! ## The tables of the generator -/

/-- Each table has what the trail says, at its depth, and what is not on the trail is in neither. -/
structure Traced (env : Env) (trail : List Mark) : Prop where
  held : ∀ {x m depth}, nearest? x trail = some (m, depth) →
    env.find? m.object.isRoutine x = some (m.object, depth)
  hidden : ∀ {x}, nearest? x trail = none → ∀ called, env.find? called x = none

namespace Traced

variable {trail trail' : List Mark}

theorem enterBlock (traced : Traced env trail) : Traced env.enterBlock trail where
  held found := by
    exact traced.held found
  hidden missing called := by
    exact traced.hidden missing called

theorem enterFrame (traced : Traced env trail) : Traced env.enterFrame (.body :: trail) where
  held found := by
    obtain ⟨⟨m, depth⟩, outer, same⟩ := Option.map_eq_some_iff.mp found
    cases same
    rw [find?_enterFrame, traced.held outer]
    rfl
  hidden missing called := by
    rw [find?_enterFrame, traced.hidden (Option.map_eq_none_iff.mp missing)]
    rfl

theorem gain (traced : Traced env trail) (name : String) (constant : Bool) (object : Object)
    (b : Binding) :
    Traced (env.gain name constant object) (.made ⟨name, b, object⟩ :: trail) where
  held {x m depth} found := by
    rw [find?_gain]
    by_cases same : x = name
    · obtain ⟨rfl, rfl⟩ : ⟨name, b, object⟩ = m ∧ 0 = depth := by simpa [nearest?, same] using found
      simp [same]
    · simp only [nearest?, same, ↓reduceIte] at found
      simpa [same] using traced.held found
  hidden {x} missing called := by
    rw [find?_gain]
    by_cases same : x = name
    · simp [nearest?, same] at missing
    · simp only [nearest?, same, ↓reduceIte] at missing
      simpa [same] using traced.hidden missing called

theorem notes {d : Decl} (traced : Traced env trail) (notes : Notes env trail d env' trail') :
    Traced env' trail' := by
  cases notes with
  | type => exact traced
  | term => exact traced.gain _ _ _ _

theorem declares {ds : List Decl} (traced : Traced env trail)
    (declares : Declares env trail ds env' trail') : Traced env' trail' := by
  induction declares with
  | nil => exact traced
  | cons first _ ih => exact ih (traced.notes first)

theorem binds {ps : List Param} (traced : Traced env trail)
    (binds : Binds env trail ps env' trail') : Traced env' trail' := by
  induction binds with
  | nil => exact traced
  | cons _ _ ih => exact ih (traced.gain _ _ _ _)

end Traced

/-- Around a program each standard name is found as what is written in its place. -/
theorem nearest?_standard (x : String) : nearest? x standardTrail =
    (Check.standardTerms.lookup x).bind fun m =>
      (standardObject? x).map fun object => (⟨x, m.decl, object⟩, 0) := by
  have served : ∀ row ∈ Check.standardTerms, (standardObject? row.1).isSome = true := by decide
  rw [standardTrail]
  generalize Check.standardTerms = rows at served
  induction rows with
  | nil => rfl
  | cons row rows ih =>
    obtain ⟨key, m⟩ := row
    rw [List.forall_mem_cons] at served
    obtain ⟨object, known⟩ := Option.isSome_iff_exists.mp served.1
    by_cases same : x = key
    · simp [known, nearest?, same]
    · have differs : (x == key) = false := by simpa using same
      simpa [known, nearest?, same, List.lookup_cons, differs] using ih served.2

/-- What is written in place of a standard name is in the table of its kind, and in that only. -/
theorem find?_standard (called : Bool) (x : String) : Env.standard.find? called x =
    (standardObject? x).bind fun object =>
      if object.isRoutine = called then some (object, 0) else none := by
  have apart : ∀ row ∈ knownValues, standardCallables.lookup row.1 = none := by decide
  cases called with
  | false =>
    simp only [Env.find?, Bool.false_eq_true, ↓reduceIte, known_standard, standardObject?]
    cases knownValues.lookup x with
    | none => cases standardCallables.lookup x <;> rfl
    | some v => rfl
  | true =>
    simp only [Env.find?, ↓reduceIte, callables_standard, standardObject?]
    cases known : knownValues.lookup x with
    | none => cases standardCallables.lookup x <;> rfl
    | some v =>
      rw [apart _ (Scope.mem_of_lookup known)]
      rfl

theorem standardObject?_bound {x : String} {object : Object} (known : standardObject? x = some object) :
    (Check.standardTerms.lookup x).isSome = true := by
  have values : ∀ row ∈ knownValues, (Check.standardTerms.lookup row.1).isSome = true := by decide
  have routines : ∀ row ∈ standardCallables, (Check.standardTerms.lookup row.1).isSome = true := by
    decide
  simp only [standardObject?] at known
  split at known
  · rename_i v value
    exact values _ (Scope.mem_of_lookup value)
  · obtain ⟨c, routine, -⟩ := Option.map_eq_some_iff.mp known
    exact routines _ (Scope.mem_of_lookup routine)

theorem Traced.standard : Traced .standard standardTrail where
  held {x m depth} found := by
    rw [nearest?_standard] at found
    obtain ⟨meaning, -, object, known, same⟩ := by
      simpa [Option.bind_eq_some_iff] using found
    obtain ⟨rfl, rfl⟩ : ⟨x, meaning.decl, object⟩ = m ∧ 0 = depth := same
    simp [find?_standard, known]
  hidden {x} missing called := by
    rw [nearest?_standard] at missing
    cases known : standardObject? x with
    | none => simp [find?_standard, known]
    | some object =>
      obtain ⟨m, bound⟩ := Option.isSome_iff_exists.mp (standardObject?_bound known)
      simp [bound, known] at missing

theorem Visits.traced {whole : Stmt} {trail : List Mark} {n : Node}
    (visits : Visits whole env trail n) : Traced env trail := by
  induction visits with
  | whole => exact .standard
  | part _ _ _ ih => exact ih
  | declared _ _ passed _ ih | body _ _ passed _ ih => exact ih.enterBlock.declares passed
  | routine _ _ itself _ _ passed _ ih => exact (ih.notes itself).enterFrame.binds passed

/-! ## The table of the checker -/

/-- The checker binds a name to the nearest declaration on the trail, and takes it for a routine if
the generator does. -/
def Matches (types : Check.Env) (trail : List Mark) : Prop :=
  ∀ x, Option.Rel
    (fun (meaning : Check.Meaning) (found : Made × Nat) => meaning.decl = found.1.binding ∧
      (IsRoutine meaning ↔ found.1.object.isRoutine = true))
    (types.terms.lookup? x) (nearest? x trail)

namespace Matches

variable {trail trail' : List Mark}

theorem found (agree : Matches types trail) {x : String} {meaning : Check.Meaning}
    (known : types.terms.lookup? x = some meaning) :
    ∃ m depth, nearest? x trail = some (m, depth) ∧ meaning.decl = m.binding ∧
      (IsRoutine meaning ↔ m.object.isRoutine = true) := by
  have related := agree x
  rw [known] at related
  generalize same : nearest? x trail = found at related
  cases related with
  | @some _ found related => exact ⟨found.1, found.2, rfl, related⟩

theorem missing (agree : Matches types trail) {x : String}
    (unknown : types.terms.lookup? x = none) : nearest? x trail = none := by
  have related := agree x
  rw [unknown] at related
  generalize nearest? x trail = found at related
  cases related
  rfl

/-- Of the standard names the constants are written as values and all others as routines. -/
theorem standardObject?_kind {x : String} {meaning : Check.Meaning}
    (known : Check.standardTerms.lookup x = some meaning) :
    ∃ object, standardObject? x = some object ∧
      (IsRoutine meaning ↔ object.isRoutine = true) := by
  have constants : ∀ row ∈ Check.standardConstants,
      row.2.isFunc = false ∧ (standardObject? row.1).map Object.isRoutine = some false := by decide
  have routines : ∀ row ∈ Check.standardRoutines,
      (standardObject? row.1).map Object.isRoutine = some true := by decide
  have equalities : ∀ op ∈ Check.equalities,
      (standardObject? op).map Object.isRoutine = some true := by decide
  have member := Scope.mem_of_lookup known
  simp only [Check.standardTerms, List.mem_append, List.mem_map] at member
  rcases member with (⟨row, inside, same⟩ | ⟨row, inside, same⟩) | ⟨_, inside, same⟩
  · cases same
    obtain ⟨plain, written⟩ := constants row inside
    obtain ⟨object, served, kind⟩ := Option.map_eq_some_iff.mp written
    exact ⟨object, served, by simp [IsRoutine, plain, kind]⟩
  · cases same
    obtain ⟨object, served, kind⟩ := Option.map_eq_some_iff.mp (routines row inside)
    exact ⟨object, served, by simp [IsRoutine, Ty.isFunc, Ty.deref, kind]⟩
  · cases same
    obtain ⟨object, served, kind⟩ := Option.map_eq_some_iff.mp (equalities x inside)
    exact ⟨object, served, by simp [IsRoutine, kind]⟩

theorem standard : Matches .standard standardTrail := by
  intro x
  rw [lookup_standard, nearest?_standard]
  cases known : Check.standardTerms.lookup x with
  | none => exact .none
  | some meaning =>
    obtain ⟨object, served, kind⟩ := standardObject?_kind known
    rw [served]
    exact .some ⟨rfl, kind⟩

theorem enterBlock (agree : Matches types trail) : Matches types.enterBlock trail := by
  intro x
  simpa [Check.Env.enterBlock] using agree x

theorem enterRoutine (agree : Matches types trail) :
    Matches types.enterRoutine (.body :: trail) := by
  intro x
  have related := agree x
  simp only [Check.Env.enterRoutine, Scope.Table.lookup?_enterScope, nearest?]
  generalize types.terms.lookup? x = known at related
  generalize nearest? x trail = found at related
  cases related with
  | none => exact .none
  | some related => exact .some related

theorem bind {types' : Check.Env} {name : String} {t : Ty} {b : Binding} {constant : Bool}
    {object : Object} (agree : Matches types trail)
    (added : types'.terms = types.terms.insert name ⟨.typed t b, constant⟩)
    (kind : t.isFunc = object.isRoutine) : Matches types' (.made ⟨name, b, object⟩ :: trail) := by
  intro x
  rw [added, Scope.Table.lookup?_insert, nearest?]
  split
  · exact .some ⟨rfl, by simp [IsRoutine, kind]⟩
  · exact agree x

/-- The type of a declaration shows what is made of it. -/
theorem isFunc_of_typed {d : Decl} {next : Check.Env} (typed : Check.DeclTyped types d next)
    (kind : d.kind ≠ .type) :
    (d.info.ty.getD .void).isFunc = decide (d.kind = .func ∨ d.kind = .proc) := by
  cases d with
  | const i name value =>
    obtain ⟨t, -, data, slot, -⟩ := typed
    simp [Decl.info, slot, Decl.kind, data.notFunc]
  | var i name s =>
    obtain ⟨t, value, slot, -⟩ := typed
    simp [Decl.info, slot, Decl.kind, value.data.notFunc]
  | func i name params result body =>
    obtain ⟨ts, r, _, slot, -⟩ := typed
    simp [Decl.info, slot, Decl.kind, Ty.isFunc, Ty.deref]
  | proc i name params body =>
    obtain ⟨ts, slot, -⟩ := typed
    simp [Decl.info, slot, Decl.kind, Ty.isFunc, Ty.deref]
  | type => exact absurd rfl kind

theorem notes {d : Decl} (agree : Matches types trail) (sound : types.IsSound)
    (stable : Check.DeclStable types d) (notes : Notes env trail d env' trail') :
    Matches (types.declare d) trail' ∧ (types.declare d).IsSound := by
  obtain ⟨typed, sound'⟩ := Check.decl_typed sound stable
  refine ⟨?_, sound'⟩
  cases notes with
  | type kind =>
    intro x
    rw [Scope.Table.lookup?_eq_bound?, Check.bound?_declare]
    simpa [kind, Scope.Table.lookup?_eq_bound?] using agree x
  | term kind suits =>
    have type := (isFunc_of_typed typed kind).trans suits.symm
    intro x
    rw [Scope.Table.lookup?_eq_bound?, Check.bound?_declare, nearest?]
    by_cases same : x = d.name
    · simp only [same, kind, ne_eq, not_false_eq_true, and_self, ↓reduceIte]
      exact .some ⟨rfl, by simp [IsRoutine, type]⟩
    · simp only [same, and_false, ↓reduceIte]
      rw [← Scope.Table.lookup?_eq_bound?]
      exact agree x

theorem declares {ds : List Decl} (agree : Matches types trail) (sound : types.IsSound)
    (stable : ∀ before d after, ds = before ++ d :: after →
      Check.DeclStable (types.declareAll before) d)
    (declares : Declares env trail ds env' trail') :
    Matches (types.declareAll ds) trail' ∧ (types.declareAll ds).IsSound := by
  induction declares generalizing types with
  | nil => exact ⟨agree, sound⟩
  | cons first _ ih =>
    obtain ⟨next, sound'⟩ := agree.notes sound (stable [] _ _ rfl) first
    exact ih next sound' fun before d after split => stable (_ :: before) d after (by rw [split]; rfl)

theorem binds {ps : List Param} {ts : List Ty} (agree : Matches types trail)
    (typed : List.Forall₂ Check.ParamTyped ps ts) (binds : Binds env trail ps env' trail') :
    Matches (types.bindParams ps ts) trail' := by
  induction binds generalizing types ts with
  | nil =>
    cases typed
    exact agree
  | @cons env final trail trail' p ps object constant suits _ ih =>
    cases typed with
    | @cons _ t _ ts first rest =>
      have type : t.isFunc = object.isRoutine := by
        rw [suits]
        cases p with
        | value i name s => simp [Param.kind, first.2.data.notFunc]
        | var i name s =>
          obtain ⟨inner, rfl, value⟩ := first.2
          have plain := value.data.notFunc
          rw [Ty.isFunc, value.data.deref] at plain
          simpa [Param.kind, Ty.isFunc, Ty.deref] using plain
        | func i name params result =>
          obtain ⟨_, _, rfl, -⟩ := first.2
          simp [Param.kind, Ty.isFunc, Ty.deref]
      cases p <;> exact ih (agree.bind rfl type) rest

end Matches

theorem block_stable {n body : Node} {ds : List Decl} (stable : n.Stable types)
    (block : n.block? = some (ds, body)) (before : List Decl) (d : Decl) (after : List Decl)
    (split : ds = before ++ d :: after) :
    Check.DeclStable (types.enterBlock.declareAll before) d := by
  subst split
  exact (Check.Opens.declared block).stable stable

/-- Where the generator comes to a node, the checker came with a scope that the same trail
describes. -/
theorem Visits.matches {whole : Stmt} {trail : List Mark} {n : Node}
    (stable : Check.StmtStable .standard whole) (visits : Visits whole env trail n) :
    ∃ types, Check.Within .standard (.stmt whole) types n ∧ types.IsSound ∧ Matches types trail := by
  induction visits with
  | whole => exact ⟨.standard, .here, .standard, .standard⟩
  | part _ member _ ih =>
    obtain ⟨types, within, sound, agree⟩ := ih
    exact ⟨types, .step within (.part member), sound, agree⟩
  | @declared env env' trail trail' n body before after d _ block passed _ ih =>
    obtain ⟨types, within, sound, agree⟩ := ih
    have here := within.stable (n := .stmt whole) stable
    have each : ∀ first d' later, before = first ++ d' :: later →
        Check.DeclStable (types.enterBlock.declareAll first) d' := fun first d' later split =>
      block_stable here block first d' (later ++ d :: after) (by simp [split])
    obtain ⟨agree', sound'⟩ := agree.enterBlock.declares sound.enterBlock each passed
    exact ⟨_, .step within (.declared block), sound', agree'⟩
  | @body env env' trail trail' n body ds _ block passed _ ih =>
    obtain ⟨types, within, sound, agree⟩ := ih
    have here := within.stable (n := .stmt whole) stable
    obtain ⟨agree', sound'⟩ := agree.enterBlock.declares sound.enterBlock
      (block_stable here block) passed
    exact ⟨_, .step within (.body block), sound', agree'⟩
  | @routine env next inner trail trail' trail'' d body params size _ routine itself _ _ passed _ ih =>
    obtain ⟨types, within, sound, agree⟩ := ih
    have here : Check.DeclStable types d := within.stable (n := .stmt whole) stable
    obtain ⟨agree', sound'⟩ := agree.notes sound here itself
    have formals : List.Forall₂ Check.ParamTyped params (Check.formals (.decl d)) := by
      have typed := (Check.decl_typed sound here).1
      rcases Node.routine?_eq_some routine with ⟨i, name, result, e, same, -⟩ | ⟨i, name, s, same, -⟩
      · cases same
        obtain ⟨ts, r, _, slot, formals, -⟩ := typed
        simpa [Check.formals, Node.info, Decl.info, slot] using formals
      · cases same
        obtain ⟨ts, slot, formals, -⟩ := typed
        simpa [Check.formals, Node.info, Decl.info, slot] using formals
    exact ⟨_, .step within (.routine rfl routine), sound'.enterRoutine.bindParams formals,
      agree'.enterRoutine.binds formals passed⟩

end Triangle.Generate
