import Mathlib
import Triangle.Proofs.Generate.Offset
import Triangle.Proofs.Layout.World
import Triangle.Proofs.Simulation.Setting

/-! What names stand for in the code, on the stack and in the program. A relation holds up to a
bound on nested calls and at a world; it stays true for a lower bound and when the world grows. -/
namespace Triangle

open Scope.Table (lookup?_enterScope lookupWithDepth?_enterScope lookup?_insert lookupWithDepth?_insert
  isConst_insert)
open Machine Semantics

variable {c : Generate.Callable}

namespace Setting

variable {S : Setting} {n k : Nat} {w : World} {t r : Ty} {ps : List Ty} {m : Meaning}
  {ws : List Word} {link target : Nat}

/-! ## Calls -/

/-- The result of a routine and its words. A procedure has none. -/
def ResultRel (r : Ty) (result : Option Value) (ws : List Word) : Prop :=
  (r = .void ∧ result = none ∧ ws = []) ∨ ∃ v, result = some v ∧ v.HasTy r ∧ ws = v.words

/-- After a call that leaves the result on top of the world. -/
def Returned (w : World) (cp lb : Nat) (r : Ty) (result : Option Value) (s : Semantics.State)
    (v : View) : Prop :=
  w.Stored s.store ∧ ∃ ws, ResultRel r result ws ∧
    v = s.view cp lb (w.content s.store ++ ws)

/-- A call of `target` with static link `link`, with arguments on top of the world, does what a
call of `m` does. -/
def Runs (S : Setting) (n : Nat) (w : World) (m : Meaning) (r : Ty) (link target : Nat)
    (args : Nat → World → List Meaning → List (List Word) → Prop) : Prop :=
  ∀ (k : Nat) (more : World) (s : Semantics.State) (actuals : List Meaning)
    (pushed : List (List Word)) (cp lb : Nat) (v : View), k ≤ n → lb ≤ World.size (w ++ more) →
    World.Stored (w ++ more) s.store → args k (w ++ more ++ pushed.map .fixed) actuals pushed →
    CallSite S.code v target link
      (s.view cp lb (World.content (w ++ more) s.store ++ pushed.flatten)) →
    S.Follows k v (call k m actuals s) (Returned (w ++ more) (cp + 1) lb r)

mutual
/-- An argument of type `t` and the words that are passed for it. -/
def ArgRel (S : Setting) (n : Nat) (w : World) : Ty → Meaning → List Word → Prop
  | .ref u, m, ws => ∃ (p : Place) (a : Nat), m = .place p ∧ w.PlaceAt p u a ∧ ws = [.truncate a]
  | .func ps r, m, ws => ∃ link target : Nat, link < 0x8000 ∧ target < 0x8000 ∧
      ws = [.truncate link, .truncate target] ∧
      S.Runs n w m r link target fun k w' => ArgsRel S k w' ps
  | t, m, ws => ∃ v, m = .value v ∧ v.HasTy t ∧ ws = v.words

def ArgsRel (S : Setting) (n : Nat) (w : World) : List Ty → List Meaning → List (List Word) → Prop
  | [], ms, wss => ms = [] ∧ wss = []
  | t :: ts, ms, wss => ∃ m rest ws others, ms = m :: rest ∧ wss = ws :: others ∧
      ArgRel S n w t m ws ∧ ArgsRel S n w ts rest others
end

/-- A routine of this signature in the code. -/
def Implements (S : Setting) (n : Nat) (w : World) (m : Meaning) (ps : List Ty) (r : Ty)
    (link target : Nat) : Prop :=
  S.Runs n w m r link target fun k w' => S.ArgsRel k w' ps

theorem Runs.fewer {args : Nat → World → List Meaning → List (List Word) → Prop}
    (runs : S.Runs n w m r link target args) (less : k ≤ n) :
    S.Runs k w m r link target args :=
  fun j more s actuals pushed cp lb v bound => runs j more s actuals pushed cp lb v (by omega)

theorem Runs.extend {args : Nat → World → List Meaning → List (List Word) → Prop}
    (runs : S.Runs n w m r link target args) (x : World) :
    S.Runs n (w ++ x) m r link target args := by
  intro k more s actuals pushed cp lb v bound
  rw [List.append_assoc]
  exact runs k (x ++ more) s actuals pushed cp lb v bound

theorem argRel_value (value : t.IsValue) :
    S.ArgRel n w t m ws ↔ ∃ v, m = .value v ∧ v.HasTy t ∧ ws = v.words := by
  cases t with
  | void | func | ref => simp [Ty.IsValue] at value
  | boolean | integer | char | array | record => simp only [ArgRel]

theorem ArgRel.fewer (rel : S.ArgRel n w t m ws) (less : k ≤ n) : S.ArgRel k w t m ws := by
  cases t with
  | func ps r =>
    obtain ⟨link, target, small, near, same, runs⟩ := rel
    exact ⟨link, target, small, near, same, runs.fewer less⟩
  | _ => simpa only [ArgRel] using rel

theorem ArgRel.extend (rel : S.ArgRel n w t m ws) (x : World) : S.ArgRel n (w ++ x) t m ws := by
  cases t with
  | func ps r =>
    obtain ⟨link, target, small, near, same, runs⟩ := rel
    exact ⟨link, target, small, near, same, runs.extend x⟩
  | ref u =>
    obtain ⟨p, a, same, placed, words⟩ := rel
    exact ⟨p, a, same, placed.extend x, words⟩
  | _ => simpa only [ArgRel] using rel

theorem ArgsRel.extend {ms : List Meaning} {wss : List (List Word)}
    (rel : S.ArgsRel n w ps ms wss) (x : World) : S.ArgsRel n (w ++ x) ps ms wss := by
  induction ps generalizing ms wss with
  | nil => simpa only [ArgsRel] using rel
  | cons t ts ih =>
    obtain ⟨m, rest, ws, others, rfl, rfl, first, tail⟩ := rel
    exact ⟨m, rest, ws, others, rfl, rfl, first.extend x, ih tail⟩

theorem Implements.fewer (code : S.Implements n w m ps r link target) (less : k ≤ n) :
    S.Implements k w m ps r link target :=
  Runs.fewer code less

theorem Implements.extend (code : S.Implements n w m ps r link target) (x : World) :
    S.Implements n (w ++ x) m ps r link target :=
  Runs.extend code x

/-! ## Frames -/

/-- The bases of frames, from the inside: each frame starts with the base of the next. -/
def Chained (w : World) : List Nat → Prop
  | [] | [_] => True
  | inner :: outer :: rest => w.Fixed inner [.truncate outer] ∧ Chained w (outer :: rest)

theorem Chained.extend {bases : List Nat} (chained : Chained w bases) (x : World) :
    Chained (w ++ x) bases := by
  induction bases with
  | nil => trivial
  | cons inner rest ih =>
    cases rest with
    | nil => trivial
    | cons outer rest => exact ⟨chained.1.extend x, ih chained.2⟩

theorem Chained.linked {bases : List Nat} {s : Semantics.Store} (chained : Chained w bases)
    (stored : w.Stored s) (more : List Word) : Linked (w.content s ++ more) bases := by
  induction bases with
  | nil => trivial
  | cons inner rest ih =>
    cases rest with
    | nil => trivial
    | cons outer rest => exact ⟨(chained.1 s stored).append more, ih chained.2⟩

/-- The frames that are open at a world. -/
structure Frames (w : World) (env : Generate.Env) (lb : Nat) (bases : List Nat) : Prop where
  first : bases.head? = some lb
  last : bases.getLast? = some 0
  within : ∀ b ∈ bases, b ≤ w.size
  chained : Chained w bases
  locals : env.locals.frames = bases.length
  callables : env.callables.frames = bases.length

variable {env : Generate.Env} {lb : Nat} {bases : List Nat}

theorem Frames.extend (frames : Frames w env lb bases) (x : World) :
    Frames (w ++ x) env lb bases :=
  { frames with
    within := fun b member => (frames.within b member).trans (by simp)
    chained := frames.chained.extend x }

theorem Frames.base_le (frames : Frames w env lb bases) : lb ≤ w.size :=
  frames.within lb (List.mem_of_mem_head? frames.first)

/-- A register holds the base of the frame that it is named for. -/
theorem Frames.register {s : Semantics.State} {a depth b : Nat} {reg : Reg}
    (frames : Frames w env lb bases) (stored : w.Stored s.store)
    (named : Generate.RegisterOf env depth reg) (found : bases[depth]? = some b)
    (more : List Word) : RegIs S.code (s.view a lb (w.content s.store ++ more)) reg b := by
  intro m shows
  unfold Generate.RegisterOf at named
  split at named
  · rename_i outermost
    rw [frames.locals] at outermost
    have last := frames.last
    rw [List.getLast?_eq_getElem?, outermost, Nat.add_sub_cancel, found] at last
    obtain rfl : b = 0 := Option.some.inj last
    rw [named]
    exact regIs_SB m shows
  · refine regIs_display (frames.chained.linked stored more) ?_ frames.first found named m shows
    intro b member
    have fits := shows.fits
    have inside := frames.within b member
    simp only [State.view, List.length_append, stored.size] at fits
    omega

/-! ## Names -/

/-- What a name is bound to in the code of the frame `depth` frames out, and its meaning of type
`t`. What is known may be a character that is no word, as long as it is not loaded. -/
def EntityRel (w : World) (bases : List Nat) (t : Ty) : Generate.Entity → Nat → Meaning → Prop
  | .known value, _, m => ∃ v, m = .value v ∧ t.IsValue ∧ t.trueSize = 1 ∧
      (-0x8000 ≤ value → value < 0x8000 → v.HasTy t ∧ v.words = [.truncate value])
  | .stored off, depth, m => ∃ b a : Nat, bases[depth]? = some b ∧ (b : Int) + off = a ∧ w.Holds m t a
  | .indirect off, depth, m => ∃ (b a target : Nat) (p : Place), bases[depth]? = some b ∧
      (b : Int) + off = a ∧ w.Fixed a [.truncate target] ∧ m = .place p ∧ w.PlaceAt p t target

/-- The same for a routine. -/
def CallableRel (S : Setting) (n : Nat) (w : World) (bases : List Nat) (ps : List Ty) (r : Ty) :
    Generate.Callable → Nat → Meaning → Prop
  | .routine label, depth, m => ∃ b target : Nat, bases[depth]? = some b ∧ target < 0x8000 ∧
      S.labels.lookup label = some target ∧ S.Implements n w m ps r b target
  | .closure off, depth, m => ∃ b a link target : Nat, bases[depth]? = some b ∧
      (b : Int) + off = a ∧ link < 0x8000 ∧ target < 0x8000 ∧
      w.Fixed a [.truncate link, .truncate target] ∧ S.Implements n w m ps r link target
  | .primitive p, _, m => p ≠ .eq ∧ p ≠ .ne ∧ ∀ link target : Nat,
      (target : Int) = primBase + p.displacement → S.Implements n w m ps r link target
  | .conversion, _, m =>
      (m = .standard .chr ∧ ps = [.integer] ∧ r = .char) ∨
        m = .standard .ord ∧ ps = [.char] ∧ r = .integer

theorem EntityRel.extend {e : Generate.Entity} (rel : EntityRel w bases t e depth m) (x : World) :
    EntityRel (w ++ x) bases t e depth m := by
  cases e with
  | known => exact rel
  | stored off =>
    obtain ⟨b, a, found, sum, holds⟩ := rel
    exact ⟨b, a, found, sum, holds.extend x⟩
  | indirect off =>
    obtain ⟨b, a, target, p, found, sum, fixed, same, placed⟩ := rel
    exact ⟨b, a, target, p, found, sum, fixed.extend x, same, placed.extend x⟩

theorem EntityRel.enter {e : Generate.Entity} (rel : EntityRel w bases t e depth m) (base : Nat) :
    EntityRel w (base :: bases) t e (depth + 1) m := by
  cases e <;> exact rel

theorem CallableRel.extend (rel : S.CallableRel n w bases ps r c depth m)
    (x : World) : S.CallableRel n (w ++ x) bases ps r c depth m := by
  cases c with
  | routine label =>
    obtain ⟨b, target, found, small, known, code⟩ := rel
    exact ⟨b, target, found, small, known, code.extend x⟩
  | closure off =>
    obtain ⟨b, a, link, target, found, sum, small, near, fixed, code⟩ := rel
    exact ⟨b, a, link, target, found, sum, small, near, fixed.extend x, code.extend x⟩
  | primitive p =>
    exact ⟨rel.1, rel.2.1, fun link target aimed => (rel.2.2 link target aimed).extend x⟩
  | conversion => exact rel

theorem CallableRel.fewer (rel : S.CallableRel n w bases ps r c depth m)
    (less : k ≤ n) : S.CallableRel k w bases ps r c depth m := by
  cases c with
  | routine label =>
    obtain ⟨b, target, found, small, known, code⟩ := rel
    exact ⟨b, target, found, small, known, code.fewer less⟩
  | closure off =>
    obtain ⟨b, a, link, target, found, sum, small, near, fixed, code⟩ := rel
    exact ⟨b, a, link, target, found, sum, small, near, fixed, code.fewer less⟩
  | primitive p =>
    exact ⟨rel.1, rel.2.1, fun link target aimed => (rel.2.2 link target aimed).fewer less⟩
  | conversion => exact rel

theorem CallableRel.enter (rel : S.CallableRel n w bases ps r c depth m)
    (base : Nat) : S.CallableRel n w (base :: bases) ps r c (depth + 1) m := by
  cases c <;> exact rel

/-- What the checker, the generator and the program take names for. -/
structure Related (S : Setting) (n : Nat) (w : World) (bases : List Nat) (types : Check.Env)
    (env : Generate.Env) (names : Semantics.Env) : Prop where
  value : ∀ {x t b}, types.terms.lookup? x = some (.typed t b) → t.isFunc = false →
    ∃ m e depth, names.lookup x = some m ∧ env.locals.lookupWithDepth? x = some (e, depth) ∧
      EntityRel w bases t.deref e depth m ∧ (types.terms.isConst x = false → ∃ p, m = .place p)
  routine : ∀ {x ps r b}, types.terms.lookup? x = some (.typed (.func ps r) b) →
    (Ty.func ps r).Proper ∧ ∃ m c depth, names.lookup x = some m ∧
      env.callables.lookupWithDepth? x = some (c, depth) ∧ S.CallableRel n w bases ps r c depth m
  /-- A standard routine that is not hidden. -/
  standard : ∀ {x ps r b}, types.terms.lookup? x = some (.typed (.func ps r) b) →
    b.isStandard = true → Check.standardTerms.lookup x = some (.typed (.func ps r) b) ∧
      ∃ s, Standard.named.lookup x = some s ∧ names.lookup x = some (.standard s)
  equality : ∀ {x b}, types.terms.lookup? x = some (.equality b) → b.isStandard = true ∧
    ∃ p s depth, env.callables.lookupWithDepth? x = some (.primitive p, depth) ∧
      Standard.named.lookup x = some s ∧ (p = .eq ∧ s = .eq ∨ p = .ne ∧ s = .ne)
  hidden : ∀ {x}, types.terms.lookup? x = none → env.callables.lookupWithDepth? x = none
  plain : ¬S.routines → ∀ {x t b}, types.terms.lookup? x = some (.typed t b) →
    t.isFunc = true → b.isStandard = true

namespace Related

variable {types : Check.Env} {env : Generate.Env} {names : Semantics.Env}

theorem fewer (related : S.Related n w bases types env names) (less : k ≤ n) :
    S.Related k w bases types env names :=
  { related with
    routine := fun found => by
      obtain ⟨proper, m, c, depth, meaning, known, rel⟩ := related.routine found
      exact ⟨proper, m, c, depth, meaning, known, rel.fewer less⟩ }

theorem extend (related : S.Related n w bases types env names) (x : World) :
    S.Related n (w ++ x) bases types env names :=
  { related with
    value := fun found plain => by
      obtain ⟨m, e, depth, meaning, known, rel, assignable⟩ := related.value found plain
      exact ⟨m, e, depth, meaning, known, rel.extend x, assignable⟩
    routine := fun found => by
      obtain ⟨proper, m, c, depth, meaning, known, rel⟩ := related.routine found
      exact ⟨proper, m, c, depth, meaning, known, rel.extend x⟩ }

theorem enterBlock (related : S.Related n w bases types env names) :
    S.Related n w bases types.enterBlock env.enterBlock names where
  value found plain := by
    exact related.value found plain
  routine found := by
    exact related.routine found
  standard found := by
    exact related.standard found
  equality found := by
    exact related.equality found
  hidden found := by
    exact related.hidden found
  plain none := by
    intro y u c found
    exact related.plain none found

/-- In a new frame, what was known before is one frame further out. -/
theorem enterFrame (related : S.Related n w bases types env names) (base : Nat) :
    S.Related n w (base :: bases) types.enterRoutine env.enterFrame names where
  value found plain := by
    simp only [Check.Env.enterRoutine, Generate.Env.enterFrame, lookup?_enterScope,
      lookupWithDepth?_enterScope, Scope.Table.isConst_enterScope] at found ⊢
    obtain ⟨m, e, depth, meaning, known, rel, assignable⟩ := related.value found plain
    exact ⟨m, e, depth + 1, meaning, by rw [known]; rfl, rel.enter base, assignable⟩
  routine found := by
    simp only [Check.Env.enterRoutine, Generate.Env.enterFrame, lookup?_enterScope,
      lookupWithDepth?_enterScope] at found ⊢
    obtain ⟨proper, m, c, depth, meaning, known, rel⟩ := related.routine found
    exact ⟨proper, m, c, depth + 1, meaning, by rw [known]; rfl, rel.enter base⟩
  standard found := by
    simp only [Check.Env.enterRoutine, lookup?_enterScope] at found
    exact related.standard found
  equality found := by
    simp only [Check.Env.enterRoutine, Generate.Env.enterFrame, lookup?_enterScope,
      lookupWithDepth?_enterScope] at found ⊢
    obtain ⟨own, p, s, depth, known, rest⟩ := related.equality found
    exact ⟨own, p, s, depth + 1, by rw [known]; rfl, rest⟩
  hidden found := by
    simp only [Check.Env.enterRoutine, Generate.Env.enterFrame, lookup?_enterScope,
      lookupWithDepth?_enterScope] at found ⊢
    rw [related.hidden found]
    rfl
  plain none := by
    intro y u c found
    simp only [Check.Env.enterRoutine, lookup?_enterScope] at found
    exact related.plain none found

theorem lookup_cons_if {names : Semantics.Env} (x y : String) :
    List.lookup y ((x, m) :: names) = if y = x then some m else names.lookup y := by
  by_cases same : y = x
  · simp [same]
  · simp [same, List.lookup_cons, beq_false_of_ne same]

theorem bindValue {e : Generate.Entity} {b : Binding} {constant flag : Bool}
    (related : S.Related n w bases types env names) (x : String) (plain : t.isFunc = false)
    (rel : EntityRel w bases t.deref e 0 m) (assignable : constant = false → ∃ p, m = .place p) :
    S.Related n w bases { types with terms := types.terms.insert x ⟨.typed t b, constant⟩ }
      { env with locals := env.locals.insert x ⟨e, flag⟩ } ((x, m) :: names) where
  value := by
    intro y u c found notFunc
    simp only [lookup?_insert, lookupWithDepth?_insert, isConst_insert, lookup_cons_if] at found ⊢
    by_cases same : y = x
    · simp only [same, ↓reduceIte] at found ⊢
      cases found
      exact ⟨m, e, 0, rfl, rfl, rel, assignable⟩
    · simp only [same, ↓reduceIte] at found ⊢
      exact related.value found notFunc
  routine := by
    intro y qs q c found
    simp only [lookup?_insert, lookup_cons_if] at found ⊢
    by_cases same : y = x
    · simp only [same, ↓reduceIte] at found ⊢
      cases found
      simp [Ty.isFunc, Ty.deref] at plain
    · simp only [same, ↓reduceIte] at found ⊢
      exact related.routine found
  standard := by
    intro y qs q c found
    simp only [lookup?_insert, lookup_cons_if] at found ⊢
    by_cases same : y = x
    · simp only [same, ↓reduceIte] at found ⊢
      cases found
      simp [Ty.isFunc, Ty.deref] at plain
    · simp only [same, ↓reduceIte] at found ⊢
      exact related.standard found
  equality := by
    intro y c found
    simp only [lookup?_insert] at found
    split at found
    · cases found
    · exact related.equality found
  hidden := by
    intro y found
    simp only [lookup?_insert] at found
    split at found
    · cases found
    · exact related.hidden found
  plain none := by
    intro y u c found isFunc
    simp only [lookup?_insert] at found
    split at found
    · cases found
      simp [plain] at isFunc
    · exact related.plain none found isFunc

theorem bindRoutine {b : Binding} {constant flag : Bool}
    (related : S.Related n w bases types env names) (x : String) (allowed : S.routines)
    (own : b.isStandard = false) (proper : (Ty.func ps r).Proper)
    (rel : S.CallableRel n w bases ps r c 0 m) : S.Related n w bases
      { types with terms := types.terms.insert x ⟨.typed (.func ps r) b, constant⟩ }
      { env with callables := env.callables.insert x ⟨c, flag⟩ } ((x, m) :: names) where
  value := by
    intro y u d found notFunc
    simp only [lookup?_insert, isConst_insert, lookup_cons_if] at found ⊢
    by_cases same : y = x
    · simp only [same, ↓reduceIte] at found ⊢
      cases found
      simp [Ty.isFunc, Ty.deref] at notFunc
    · simp only [same, ↓reduceIte] at found ⊢
      exact related.value found notFunc
  routine := by
    intro y qs q d found
    simp only [lookup?_insert, lookupWithDepth?_insert, lookup_cons_if] at found ⊢
    by_cases same : y = x
    · simp only [same, ↓reduceIte] at found ⊢
      cases found
      exact ⟨proper, m, c, 0, rfl, rfl, rel⟩
    · simp only [same, ↓reduceIte] at found ⊢
      exact related.routine found
  standard := by
    intro y qs q d found isStandard
    simp only [lookup?_insert, lookup_cons_if] at found ⊢
    by_cases same : y = x
    · simp only [same, ↓reduceIte] at found ⊢
      cases found
      simp [own] at isStandard
    · simp only [same, ↓reduceIte] at found ⊢
      exact related.standard found isStandard
  equality := by
    intro y d found
    simp only [lookup?_insert, lookupWithDepth?_insert] at found ⊢
    by_cases same : y = x
    · simp only [same, ↓reduceIte] at found ⊢
      cases found
    · simp only [same, ↓reduceIte] at found ⊢
      exact related.equality found
  hidden := by
    intro y found
    simp only [lookup?_insert, lookupWithDepth?_insert] at found ⊢
    by_cases same : y = x
    · simp only [same, ↓reduceIte] at found ⊢
      cases found
    · simp only [same, ↓reduceIte] at found ⊢
      exact related.hidden found
  plain none := absurd allowed none

end Related

end Setting
end Triangle
