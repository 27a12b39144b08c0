import Mathlib
import Triangle.Proofs.Simulation.Scene
import Triangle.Proofs.StandardNames

/-! The standard environment. Each standard routine is a primitive of the machine that does the
same, or a conversion, and the names of the environment are related before a program starts. -/
namespace Triangle
open Machine Semantics List

namespace Setting

variable {S : Setting} {n k cp lb : Nat} {w : World} {m : Machine} {s : Semantics.State}
  {actuals : List Meaning} {pushed : List (List Word)} {ps : List Ty} {r : Ty}

/-! ## Arguments of standard routines -/

theorem ArgsRel.value {t : Ty} {ts : List Ty} (rel : S.ArgsRel n w (t :: ts) actuals pushed)
    (value : t.IsValue) : ∃ (v : Value) (rest : List Meaning) (others : List (List Word)),
      v.HasTy t ∧ actuals = .value v :: rest ∧ pushed = v.words :: others ∧
      S.ArgsRel n w ts rest others := by
  simp only [ArgsRel, argRel_value value] at rel
  obtain ⟨_, rest, _, others, rfl, rfl, ⟨v, rfl, kind, rfl⟩, more⟩ := rel
  exact ⟨v, rest, others, kind, rfl, rfl, more⟩

theorem ArgsRel.none (rel : S.ArgsRel n w [] actuals pushed) : actuals = [] ∧ pushed = [] := by
  simpa only [ArgsRel] using rel

theorem ArgsRel.integer (rel : S.ArgsRel n w [.integer] actuals pushed) :
    ∃ a, actuals = [.value (.int a)] ∧ pushed = [[a]] := by
  obtain ⟨v, _, _, kind, rfl, rfl, rest⟩ := rel.value trivial
  obtain ⟨a, rfl⟩ := kind.int
  obtain ⟨rfl, rfl⟩ := rest.none
  exact ⟨a, rfl, rfl⟩

theorem ArgsRel.integers (rel : S.ArgsRel n w [.integer, .integer] actuals pushed) :
    ∃ a b, actuals = [.value (.int a), .value (.int b)] ∧ pushed = [[a], [b]] := by
  obtain ⟨v, _, _, kind, rfl, rfl, rest⟩ := rel.value trivial
  obtain ⟨a, rfl⟩ := kind.int
  obtain ⟨b, rfl, rfl⟩ := rest.integer
  exact ⟨a, b, rfl, rfl⟩

theorem ArgsRel.boolean (rel : S.ArgsRel n w [.boolean] actuals pushed) :
    ∃ a, actuals = [.value (.bool a)] ∧ pushed = [[.ofBool a]] := by
  obtain ⟨v, _, _, kind, rfl, rfl, rest⟩ := rel.value trivial
  obtain ⟨a, rfl⟩ := kind.bool
  obtain ⟨rfl, rfl⟩ := rest.none
  exact ⟨a, rfl, rfl⟩

theorem ArgsRel.booleans (rel : S.ArgsRel n w [.boolean, .boolean] actuals pushed) :
    ∃ a b, actuals = [.value (.bool a), .value (.bool b)] ∧
      pushed = [[.ofBool a], [.ofBool b]] := by
  obtain ⟨v, _, _, kind, rfl, rfl, rest⟩ := rel.value trivial
  obtain ⟨a, rfl⟩ := kind.bool
  obtain ⟨b, rfl, rfl⟩ := rest.boolean
  exact ⟨a, b, rfl, rfl⟩

/-- A variable that is passed lies below the arguments. -/
theorem ArgsRel.variable {t : Ty}
    (rel : S.ArgsRel n (w ++ pushed.map .fixed) [.ref t] actuals pushed) :
    ∃ (p : Place) (a : Nat), actuals = [.place p] ∧ pushed = [[.truncate a]] ∧ w.PlaceAt p t a := by
  obtain ⟨_, _, _, _, rfl, rfl, ⟨p, a, rfl, placed, rfl⟩, rfl, rfl⟩ := rel
  exact ⟨p, a, rfl, rfl, placed.under⟩

/-! ## Primitives -/

/-- With the arguments on top of the world the primitive does what the standard routine does. -/
def Provides (S : Setting) (known : Standard) (p : Primitive) (ps : List Ty) (r : Ty) : Prop :=
  ∀ {n : Nat} {w : World} {s : Semantics.State} {actuals pushed cp lb} {m : Machine},
    w.Stored s.store → S.ArgsRel n (w ++ pushed.map .fixed) ps actuals pushed →
    m.Shows S.code (s.view cp lb (w.content s.store ++ pushed.flatten)) →
    Matches S.code (Machine.primitive p) m (known.apply actuals s) (Returned w cp lb r)

theorem Provides.implements {known : Standard} {p : Primitive} (provides : S.Provides known p ps r)
    {link target : Nat} (aimed : (target : Int) = primBase + p.displacement) :
    S.Implements n w (.standard known) ps r link target := by
  intro k more s actuals pushed cp lb v less base stored args site
  rw [call]
  refine (site.primitive aimed fun m shows => provides stored args shows).mono ?_
  rintro result s' _ ⟨_, ⟨stored', ws, rel, rfl⟩, rfl⟩
  exact ⟨stored', ws, rel, rfl⟩

theorem returned_of_returns (stored : w.Stored s.store) {result : Option Value}
    {s' : Semantics.State} {v : View}
    (returns : Returns cp lb (w.content s.store) r s result s' v) : Returned w cp lb r result s' v := by
  obtain ⟨rfl, x, rfl, kind, rfl⟩ := returns
  exact ⟨stored, x.words, .inr ⟨x, rfl, kind, rfl⟩, rfl⟩

theorem provides_arithmetic (known : Standard) (p : Primitive) (op : Word → Word → Option Word)
    (machine : Machine.primitive p = arithmetic op)
    (program : ∀ a b, known.apply [.value (.int a), .value (.int b)] = Standard.checked (op a b)) :
    S.Provides known p [.integer, .integer] .integer := by
  intro n w s actuals pushed cp lb m stored args shows
  obtain ⟨a, b, rfl, rfl⟩ := args.integers
  rw [machine, program]
  exact (Matches.arithmetic shows op).mono fun _ _ _ => returned_of_returns stored

theorem provides_division (known : Standard) (p : Primitive) (part : Word × Word → Word)
    (machine : Machine.primitive p = division part)
    (program : ∀ a b,
      known.apply [.value (.int a), .value (.int b)] = Standard.division part a b) :
    S.Provides known p [.integer, .integer] .integer := by
  intro n w s actuals pushed cp lb m stored args shows
  obtain ⟨a, b, rfl, rfl⟩ := args.integers
  rw [machine, program]
  exact (Matches.division shows part).mono fun _ _ _ => returned_of_returns stored

theorem provides_comparison (known : Standard) (p : Primitive) (test : Word → Word → Bool)
    (machine : Machine.primitive p = comparison test)
    (program : ∀ a b,
      known.apply [.value (.int a), .value (.int b)] = Standard.truthValue (test a b)) :
    S.Provides known p [.integer, .integer] .boolean := by
  intro n w s actuals pushed cp lb m stored args shows
  obtain ⟨a, b, rfl, rfl⟩ := args.integers
  rw [machine, program]
  exact (Matches.comparison shows test rfl).mono fun _ _ _ => returned_of_returns stored

theorem provides_connective (known : Standard) (p : Primitive) (test : Word → Word → Bool)
    (join : Bool → Bool → Bool) (machine : Machine.primitive p = comparison test)
    (program : ∀ a b,
      known.apply [.value (.bool a), .value (.bool b)] = Standard.truthValue (join a b))
    (same : ∀ a b, test (.ofBool a) (.ofBool b) = join a b) :
    S.Provides known p [.boolean, .boolean] .boolean := by
  intro n w s actuals pushed cp lb m stored args shows
  obtain ⟨a, b, rfl, rfl⟩ := args.booleans
  rw [machine, program]
  exact (Matches.comparison shows test (same a b)).mono fun _ _ _ => returned_of_returns stored

theorem provides_not : S.Provides .not .not [.boolean] .boolean := by
  intro n w s actuals pushed cp lb m stored args shows
  obtain ⟨a, rfl, rfl⟩ := args.boolean
  exact (Matches.not shows).mono fun _ _ _ => returned_of_returns stored

theorem provides_neg : S.Provides .neg .neg [.integer] .integer := by
  intro n w s actuals pushed cp lb m stored args shows
  obtain ⟨a, rfl, rfl⟩ := args.integer
  exact (Matches.stepping shows (Word.sub? 0)).mono fun _ _ _ => returned_of_returns stored

/-- What can be seen of the input. -/
theorem provides_test (known : Standard) (p : Primitive) (test : List UInt8 → Bool)
    (machine : Machine.primitive p = do Machine.push [.ofBool (test (← get).input)])
    (program : known.apply [] = do Standard.truthValue (test (← getThe Semantics.State).input)) :
    S.Provides known p [] .boolean := by
  intro n w s actuals pushed cp lb m stored args shows
  obtain ⟨rfl, rfl⟩ := args.none
  have input : m.input = s.input := shows.input
  have pushes : Machine.primitive p m = Machine.push [.ofBool (test s.input)] m := by
    rw [machine, ← input]
    rfl
  have applied : known.apply [] s = Standard.truthValue (test s.input) s := by
    rw [program]
    rfl
  rw [flatten_nil, append_nil] at shows
  rw [applied]
  have matched := (Matches.pushTruth shows (test s.input)).mono fun _ _ _ =>
    returned_of_returns stored
  simpa only [Matches, pushes] using matched

/-- What is read goes into the variable whose address is on top. -/
theorem provides_input {α : Type} {known : Standard} {p : Primitive} {t : Ty}
    (reader : List UInt8 → Except InputFault α × List UInt8) (value : α → Value)
    (word : α → Word) (machine : Machine.primitive p = do
      let address ← Machine.pop
      let x ← Machine.reading reader
      Machine.storeBlock address.toInt [word x])
    (program : ∀ q, known.apply [.place q] = do
      let x ← Semantics.reading reader
      write q (value x)
      return none)
    (kind : ∀ x, (value x).HasTy t) (words : ∀ x, (value x).words = [word x]) :
    S.Provides known p [.ref t] .void := by
  intro n w s actuals pushed cp lb m stored args shows
  obtain ⟨q, a, rfl, rfl, placed⟩ := args.variable
  rw [machine, program]
  refine (Safely.pop shows rfl).matches ?_
  rintro _ m' ⟨rfl, shows'⟩
  have small : a < 0x8000 := by
    have fits := shows.fits
    have bound := World.Holds.bound (m := .place q) stored placed
    simp only [State.view, length_append, stored.size, dataSize] at fits
    omega
  refine Matches.reading shows' fun x rest m'' read shows'' => ?_
  obtain ⟨stored', replaces⟩ := stored.write placed (kind x)
  rw [words] at replaces
  rw [Word.toInt_truncate (by omega) (by omega)]
  refine .of_safely (Safely.storeBlock shows'' replaces) ⟨stored', [], .inl ⟨rfl, rfl, rfl⟩, ?_⟩
  rw [append_nil]
  rfl

/-- The argument, one word, is written out. -/
theorem provides_output {known : Standard} {p : Primitive} {t : Ty} (value : t.IsValue)
    (bytes : Word → List UInt8) (machine : Machine.primitive p = do Machine.emit (bytes (← Machine.pop)))
    (program : ∀ v : Value, v.HasTy t → ∃ x, v.words = [x] ∧ known.apply [.value v] = do
      Semantics.emit (bytes x)
      return none) :
    S.Provides known p [t] .void := by
  intro n w s actuals pushed cp lb m stored args shows
  obtain ⟨v, _, _, kind, rfl, rfl, rest⟩ := args.value value
  obtain ⟨rfl, rfl⟩ := rest.none
  obtain ⟨x, words, applied⟩ := program v kind
  rw [words] at shows
  rw [machine, applied]
  refine (Safely.pop shows rfl).matches ?_
  rintro _ m' ⟨rfl, shows'⟩
  refine .of_safely (Safely.emit shows' (bytes x)) ⟨stored, [], .inl ⟨rfl, rfl, rfl⟩, ?_⟩
  rw [append_nil]
  rfl

theorem provides_put : S.Provides .put .put [.char] .void := by
  refine provides_output (t := .char) trivial (fun x => [UInt8.ofInt x.toInt]) rfl fun v kind => ?_
  obtain ⟨c, rfl, lower, upper⟩ := kind.char
  refine ⟨.truncate c, rfl, ?_⟩
  rw [Word.toInt_truncate lower upper]
  rfl

theorem provides_putint : S.Provides .putint .putint [.integer] .void := by
  refine provides_output (t := .integer) trivial (fun x => Input.ofChars (Text.decimal x.toInt)) rfl
    fun v kind => ?_
  obtain ⟨a, rfl⟩ := kind.int
  exact ⟨a, rfl, rfl⟩

theorem provides_geteol : S.Provides .geteol .geteol [] .void := by
  intro n w s actuals pushed cp lb m stored args shows
  obtain ⟨rfl, rfl⟩ := args.none
  have machine : Machine.primitive .geteol =
      (do Machine.reading Input.skipLine; return : Exec Unit) :=
    (bind_pure (Machine.reading Input.skipLine)).symm
  rw [machine]
  exact Matches.reading shows fun _ _ m' _ shows' => .of_safely
    (.of_ok (f := m') rfl shows') ⟨stored, [], .inl ⟨rfl, rfl, rfl⟩, rfl⟩

theorem provides_puteol : S.Provides .puteol .puteol [] .void := by
  intro n w s actuals pushed cp lb m stored args shows
  obtain ⟨rfl, rfl⟩ := args.none
  exact .of_safely (Safely.emit shows [Input.newline]) ⟨stored, [], .inl ⟨rfl, rfl, rfl⟩, rfl⟩

theorem provides_get : S.Provides .get .get [.ref .char] .void := by
  refine provides_input readByte (fun b => .char b.toNat) (fun b => .truncate b.toNat) rfl
    (fun _ => rfl) (fun b => ?_) fun _ => rfl
  have small := b.toNat_lt
  rw [Value.HasTy]
  omega

theorem provides_getint : S.Provides .getint .getint [.ref .integer] .void :=
  provides_input (t := .integer) Input.readInt (fun n => .int (.truncate n)) (fun n => .truncate n) rfl
    (fun _ => rfl) (fun _ => trivial) fun _ => rfl

/-! ## The tables -/

/-- A standard routine in the code: a primitive that provides it, or a conversion. -/
def Serves (S : Setting) (known : Standard) (ps : List Ty) (r : Ty) : Generate.Callable → Prop
  | .primitive p => p ≠ .eq ∧ p ≠ .ne ∧ S.Provides known p ps r
  | .conversion => (known = .chr ∧ ps = [.integer] ∧ r = .char) ∨
      known = .ord ∧ ps = [.char] ∧ r = .integer
  | _ => False

theorem Serves.callable {known : Standard} {c : Generate.Callable} (serves : S.Serves known ps r c)
    (bases : List Nat) (depth : Nat) : S.CallableRel n w bases ps r c depth (.standard known) := by
  match c, serves with
  | .primitive p, ⟨notEq, notNe, provides⟩ =>
    exact ⟨notEq, notNe, fun link target aimed => provides.implements aimed⟩
  | .conversion, .inl ⟨same, rest⟩ => exact .inl ⟨by rw [same], rest⟩
  | .conversion, .inr ⟨same, rest⟩ => exact .inr ⟨by rw [same], rest⟩

/-- Every standard routine is served under its key. -/
theorem served {key name : String} (member : (key, name, ps, r) ∈ Check.standardRoutines) :
    ∃ known c, Standard.named.lookup key = some known ∧
      standardCallables.lookup key = some c ∧ S.Serves known ps r c := by
  have primitive : ∀ {known p}, S.Provides known p ps r →
      Standard.named.lookup key = some known ∧
        standardCallables.lookup key = some (.primitive p) ∧
        p ≠ .eq ∧ p ≠ .ne →
      ∃ known c, Standard.named.lookup key = some known ∧
        standardCallables.lookup key = some c ∧ S.Serves known ps r c :=
    fun provides facts =>
      ⟨_, _, facts.1, facts.2.1, facts.2.2.1, facts.2.2.2, provides⟩
  simp only [Check.standardRoutines, mem_cons, Prod.mk.injEq, not_mem_nil, or_false]
    at member
  rcases member with ⟨rfl, -, rfl, rfl⟩ | ⟨rfl, -, rfl, rfl⟩ | ⟨rfl, -, rfl, rfl⟩ |
    ⟨rfl, -, rfl, rfl⟩ | ⟨rfl, -, rfl, rfl⟩ | ⟨rfl, -, rfl, rfl⟩ | ⟨rfl, -, rfl, rfl⟩ |
    ⟨rfl, -, rfl, rfl⟩ | ⟨rfl, -, rfl, rfl⟩ | ⟨rfl, -, rfl, rfl⟩ | ⟨rfl, -, rfl, rfl⟩ |
    ⟨rfl, -, rfl, rfl⟩ | ⟨rfl, -, rfl, rfl⟩ | ⟨rfl, -, rfl, rfl⟩ | ⟨rfl, -, rfl, rfl⟩ |
    ⟨rfl, -, rfl, rfl⟩ | ⟨rfl, -, rfl, rfl⟩ | ⟨rfl, -, rfl, rfl⟩ | ⟨rfl, -, rfl, rfl⟩ |
    ⟨rfl, -, rfl, rfl⟩ | ⟨rfl, -, rfl, rfl⟩ | ⟨rfl, -, rfl, rfl⟩ | ⟨rfl, -, rfl, rfl⟩
  · exact primitive provides_not (by decide)
  · exact primitive provides_neg (by decide)
  · exact primitive (provides_connective .and .and
      (fun a b => a != 0 && b != 0) (· && ·) rfl (fun _ _ => rfl) (by decide)) (by decide)
  · exact primitive (provides_connective .or .or
      (fun a b => a != 0 || b != 0) (· || ·) rfl (fun _ _ => rfl) (by decide)) (by decide)
  · exact primitive (provides_arithmetic .add .add Word.add? rfl
      fun _ _ => rfl) (by decide)
  · exact primitive (provides_arithmetic .sub .sub Word.sub? rfl
      fun _ _ => rfl) (by decide)
  · exact primitive (provides_arithmetic .mult .mult Word.mul? rfl
      fun _ _ => rfl) (by decide)
  · exact primitive (provides_division .div .div Prod.fst rfl
      fun _ _ => rfl) (by decide)
  · exact primitive (provides_division .mod .mod Prod.snd rfl
      fun _ _ => rfl) (by decide)
  · exact primitive (provides_comparison .lt .lt (fun a b => a < b) rfl
      fun _ _ => rfl) (by decide)
  · exact primitive (provides_comparison .le .le (fun a b => a ≤ b) rfl
      fun _ _ => rfl) (by decide)
  · exact primitive (provides_comparison .gt .gt (fun a b => b < a) rfl
      fun _ _ => rfl) (by decide)
  · exact primitive (provides_comparison .ge .ge (fun a b => b ≤ a) rfl
      fun _ _ => rfl) (by decide)
  · exact ⟨.chr, .conversion, by decide, by decide, .inl ⟨rfl, rfl, rfl⟩⟩
  · exact ⟨.ord, .conversion, by decide, by decide, .inr ⟨rfl, rfl, rfl⟩⟩
  · exact primitive (provides_test .eol .eol
      (fun input => input.head? == some Input.newline) rfl rfl) (by decide)
  · exact primitive (provides_test .eof .eof (fun input => input.isEmpty) rfl rfl)
      (by decide)
  · exact primitive provides_get (by decide)
  · exact primitive provides_put (by decide)
  · exact primitive provides_getint (by decide)
  · exact primitive provides_putint (by decide)
  · exact primitive provides_geteol (by decide)
  · exact primitive provides_puteol (by decide)

theorem names_standard {x : String} {known : Standard}
    (named : Standard.named.lookup x = some known) :
    Semantics.Env.standard.lookup x = some (.standard known) := by
  have distinct : (Semantics.Env.standard.map Prod.fst).Nodup := by decide
  exact Scope.lookup_of_mem distinct
    (mem_append_left _ (mem_map.mpr ⟨_, Scope.mem_of_lookup named, rfl⟩))

theorem proper_standard {key name : String} (member : (key, name, ps, r) ∈ Check.standardRoutines) :
    (Ty.func ps r).Proper := by
  have all : ∀ row ∈ Check.standardRoutines, (Ty.func row.2.2.1 row.2.2.2).Proper := by
    simp [Check.standardRoutines, Ty.Proper, Ty.ProperAll, Ty.IsValue]
  exact all _ member

/-- The constants are known values. -/
theorem constants_standard {x : String} {t : Ty} (member : (x, t) ∈ Check.standardConstants) :
    ∃ v value, Semantics.Env.standard.lookup x = some (.value v) ∧
      Generate.knownValues.lookup x = some value ∧ v.HasTy t ∧ v.words = [.truncate value] ∧
      t.IsValue ∧ t.deref = t ∧ t.trueSize = 1 := by
  simp only [Check.standardConstants, mem_cons, Prod.mk.injEq, not_mem_nil, or_false]
    at member
  rcases member with ⟨rfl, rfl⟩ | ⟨rfl, rfl⟩ | ⟨rfl, rfl⟩
  · exact ⟨.bool true, 1, rfl, rfl, trivial, rfl, trivial, rfl, rfl⟩
  · exact ⟨.bool false, 0, rfl, rfl, trivial, rfl, trivial, rfl, rfl⟩
  · exact ⟨.int 32767, 32767, rfl, rfl, trivial, rfl, trivial, rfl, rfl⟩

/-- The names of the standard environment before a program starts. -/
theorem related_standard (S : Setting) (n : Nat) :
    S.Related n [] [0] .standard .standard .standard where
  value := by
    intro x t b found plain
    rw [lookup_standard] at found
    obtain ⟨-, constant | ⟨_, _, _, rfl, -⟩⟩ := standardTerms_typed found
    · obtain ⟨v, value, meaning, known, kind, words, isValue, itself, one⟩ :=
        constants_standard constant
      have fixed : Check.Env.standard.terms.isConst x = true := by
        rw [Scope.Table.isConst, terms_standard, found]
        rfl
      rw [itself]
      refine ⟨.value v, .known value, 0, meaning, by rw [known_standard, known]; rfl,
        ⟨v, rfl, isValue, one, fun _ _ => ⟨kind, words⟩⟩, ?_⟩
      simp [fixed]
    · simp [Ty.isFunc, Ty.deref] at plain
  routine := by
    intro x ps r b found
    rw [lookup_standard] at found
    obtain ⟨-, constant | ⟨name, _, _, same, routine⟩⟩ := standardTerms_typed found
    · obtain ⟨_, _, _, _, _, _, isValue, _⟩ := constants_standard constant
      simp [Ty.IsValue] at isValue
    · cases same
      obtain ⟨known, c, named, served, serves⟩ := S.served routine
      exact ⟨proper_standard routine, .standard known, c, 0, names_standard named,
        by rw [callables_standard, served]; rfl, serves.callable [0] 0⟩
  standard := by
    intro x ps r b found standard
    rw [lookup_standard] at found
    refine ⟨found, ?_⟩
    obtain ⟨-, constant | ⟨name, _, _, same, routine⟩⟩ := standardTerms_typed found
    · obtain ⟨_, _, _, _, _, _, isValue, _⟩ := constants_standard constant
      simp [Ty.IsValue] at isValue
    · cases same
      obtain ⟨known, c, named, -⟩ := S.served routine
      exact ⟨known, named, names_standard named⟩
  equality := by
    intro x b found
    rw [lookup_standard] at found
    have member := Scope.mem_of_lookup found
    simp only [Check.standardTerms, mem_append, mem_map, Prod.mk.injEq, reduceCtorEq,
      and_false, exists_false, false_or] at member
    obtain ⟨op, listed, rfl, same⟩ := member
    cases same
    refine ⟨rfl, ?_⟩
    simp only [Check.equalities, mem_cons, not_mem_nil, or_false] at listed
    rcases listed with rfl | rfl
    · exact ⟨.eq, .eq, 0, by rw [callables_standard]; rfl, rfl, .inl ⟨rfl, rfl⟩⟩
    · exact ⟨.ne, .ne, 0, by rw [callables_standard]; rfl, rfl, .inr ⟨rfl, rfl⟩⟩
  hidden := by
    intro x found
    rw [lookup_standard] at found
    have known : ∀ key ∈ standardCallables.map Prod.fst,
        key ∈ Check.standardTerms.map Prod.fst := by decide
    cases served : standardCallables.lookup x with
    | none => rw [callables_standard, served]; rfl
    | some c =>
      have member := known x (mem_map_of_mem (Scope.mem_of_lookup served))
      obtain ⟨⟨_, m⟩, entry, rfl⟩ := mem_map.mp member
      exact absurd found (by simp [lookup_eq_none_iff]; exact ⟨m, entry⟩)
  plain := by
    intro _ x t b found _
    rw [lookup_standard] at found
    exact (standardTerms_typed found).1

end Setting

/-- The point at which a program starts. -/
def Scene.standard (S : Setting) (n : Nat) : Scene S n where
  world := []
  lb := 0
  bases := [0]
  types := .standard
  env := .standard
  names := .standard
  frames :=
    { first := rfl
      last := rfl
      within := by simp
      chained := trivial
      locals := by decide
      callables := by decide }
  related := S.related_standard n

end Triangle
