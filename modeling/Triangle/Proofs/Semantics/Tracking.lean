import Mathlib
import Triangle.Proofs.Semantics.Output

/-! Two programs that do the same, one step of the bound apart. A run advances to another if the
other ends as it does, or goes on where it is unfinished. Three runs are on one track if the first
advances to the second under the same bound, and the second to the third, which is the first one
under a higher bound: then neither of the two programs prints or comes to an end without the
other. -/
namespace Triangle.Semantics

open Result (bind_ok bind_error)

section
variable {α β γ δ : Type}

/-- The second run ends as the first does, with a related result, or goes on where the first is
unfinished. -/
structure Advances (R : α → β → Prop) (x : Run α) (y : Run β) : Prop where
  done : ∀ s a s', x s = .ok a s' → ∃ b, y s = .ok b s' ∧ R a b
  stopped : ∀ s stop s', x s = .error stop s' → stop ≠ .unfinished → y s = .error stop s'
  cut : ∀ s s', x s = .error .unfinished s' → s'.output <+: (reached (y s)).output

namespace Advances

variable {R : α → β → Prop} {Q : γ → δ → Prop} {x : Run α} {y : Run β}

theorem pure {a : α} {b : β} (rel : R a b) : Advances R (Pure.pure a) (Pure.pure b) where
  done s c s' done := by
    obtain ⟨rfl, rfl⟩ := Result.of_pure done
    exact ⟨b, rfl, rel⟩
  stopped s stop s' failed := by cases failed
  cut s s' failed := by cases failed

theorem throw (stop : Stop) : Advances R (throw stop) (throw stop) where
  done s a s' done := by cases done
  stopped s other s' failed finished := by cases failed; rfl
  cut s s' failed := by cases failed; exact List.prefix_rfl

/-- What is unfinished from the start advances to anything. -/
theorem unfinished (adds : Adds y) : Advances R (MonadExcept.throw Stop.unfinished) y where
  done s a s' done := by cases done
  stopped s stop s' failed finished := by cases failed; exact absurd rfl finished
  cut s s' failed := by cases failed; exact adds s

theorem refl (x : Run α) : Advances Eq x x where
  done s a s' done := ⟨a, done, rfl⟩
  stopped s stop s' failed _ := failed
  cut s s' failed := by rw [failed]; exact List.prefix_rfl

/-- An unfinished part leaves the whole unfinished, and the other only adds to what it printed. -/
theorem bind {f : α → Run γ} {g : β → Run δ} (first : Advances R x y)
    (second : ∀ a b, R a b → Advances Q (f a) (g b)) (adds : ∀ b, Adds (g b)) :
    Advances Q (x >>= f) (y >>= g) where
  done s c s' done := by
    obtain ⟨a, middle, one, two⟩ := Result.of_bind done
    obtain ⟨b, other, rel⟩ := first.done _ _ _ one
    obtain ⟨d, last, final⟩ := (second a b rel).done _ _ _ two
    exact ⟨d, (bind_ok other).trans last, final⟩
  stopped s stop s' failed finished := by
    cases one : x s with
    | ok a middle =>
      rw [bind_ok one] at failed
      obtain ⟨b, other, rel⟩ := first.done _ _ _ one
      rw [bind_ok other]
      exact (second a b rel).stopped _ _ _ failed finished
    | error early middle =>
      rw [bind_error one] at failed
      cases failed
      exact bind_error (first.stopped _ _ _ one finished)
  cut s s' failed := by
    cases one : x s with
    | ok a middle =>
      rw [bind_ok one] at failed
      obtain ⟨b, other, rel⟩ := first.done _ _ _ one
      rw [bind_ok other]
      exact (second a b rel).cut _ _ failed
    | error early middle =>
      rw [bind_error one] at failed
      cases failed
      have printed := first.cut _ _ one
      cases two : y s with
      | ok b later =>
        rw [two] at printed
        rw [bind_ok two]
        exact printed.trans (adds b later)
      | error stop later =>
        rw [two] at printed
        rw [bind_error two]
        exact printed

end Advances

/-- The first run advances to the second, and the second to the third. -/
structure Tracks (R : α → β → Prop) (x : Run α) (y : Run β) (z : Run α) : Prop where
  forth : Advances R x y
  back : Advances (fun b a => R a b) y z
  adds : Adds y
  addsLater : Adds z

namespace Tracks

variable {R : α → β → Prop} {Q : γ → δ → Prop} {x z : Run α} {y : Run β}

theorem pure {a : α} {b : β} (rel : R a b) :
    Tracks R (Pure.pure a) (Pure.pure b) (Pure.pure a) :=
  ⟨.pure rel, .pure rel, .pure b, .pure a⟩

theorem throw (stop : Stop) :
    Tracks R (throw stop : Run α) (MonadExcept.throw stop) (MonadExcept.throw stop) :=
  ⟨.throw stop, .throw stop, .throw stop, .throw stop⟩

theorem refl {x : Run α} (adds : Adds x) : Tracks Eq x x x where
  forth := .refl x
  back := by simpa only [eq_comm] using Advances.refl x
  adds := adds
  addsLater := adds

theorem bind {f h : α → Run γ} {g : β → Run δ} (first : Tracks R x y z)
    (second : ∀ a b, R a b → Tracks Q (f a) (g b) (h a)) (adds : ∀ b, Adds (g b))
    (addsLater : ∀ a, Adds (h a)) : Tracks Q (x >>= f) (y >>= g) (z >>= h) where
  forth := first.forth.bind (fun a b rel => (second a b rel).forth) adds
  back := first.back.bind (fun b a rel => (second a b rel).back) addsLater
  adds := .bind first.adds adds
  addsLater := .bind first.addsLater addsLater

/-- The same, where the results are the same. -/
theorem andThen {x y z : Run α} {f h : α → Run γ} {g : α → Run δ} (first : Tracks Eq x y z)
    (second : ∀ a, Tracks Q (f a) (g a) (h a)) : Tracks Q (x >>= f) (y >>= g) (z >>= h) :=
  first.bind (fun a _ same => same ▸ second a) (fun a => (second a).adds)
    fun a => (second a).addsLater

theorem inScope {x y z : Run α} (inner : Tracks Eq x y z) :
    Tracks Eq (inScope x) (inScope y) (inScope z) :=
  .andThen (.refl .get) fun _ => .andThen inner fun _ =>
    .andThen (.refl (.modify fun _ => List.prefix_rfl)) fun _ => .refl (.pure _)

/-- A loop with one more round to go. -/
theorem rounds {round again later : Run Bool} (once : Tracks Eq round again later) (bound : Nat) :
    Tracks Eq (rounds round bound) (rounds again bound) (rounds later (bound + 1)) := by
  induction bound with
  | zero => exact ⟨.throw _, .unfinished (.rounds once.addsLater _), .throw _,
      .rounds once.addsLater _⟩
  | succ bound ih =>
    refine .andThen once fun more => ?_
    cases more
    · exact .refl (.pure _)
    · exact ih

/-- A loop that comes to its end in the first round is as good as what the round does. -/
theorem once {round later : Run Bool} {body : Run Unit}
    (first : Tracks Eq round (body >>= fun _ => Pure.pure false) later) (adds : Adds body)
    (bound : Nat) : Tracks Eq (Semantics.rounds round bound) body
      (Semantics.rounds later (bound + 1)) := by
  have addsLater : Adds (Semantics.rounds later (bound + 1)) := .rounds first.addsLater _
  -- whatever would follow another round does not matter
  have same : ∀ rest : Run Unit, body = ((body >>= fun _ => Pure.pure false) >>= fun more =>
      if more then rest else Pure.pure ()) := by
    intro rest
    simp
  refine ⟨?_, ?_, adds, addsLater⟩
  · cases bound with
    | zero => exact .unfinished adds
    | succ bound =>
      rw [same (Semantics.rounds (body >>= fun _ => Pure.pure false) bound)]
      refine first.forth.bind (fun more _ equal => ?_) fun more => ?_
      · subst equal
        cases more
        · exact .refl _
        · exact (first.rounds bound).forth
      · cases more
        · exact .pure _
        · exact .rounds first.adds _
  · rw [same (MonadExcept.throw .unfinished)]
    refine first.back.bind (fun _ more equal => ?_) fun more => ?_
    · subst equal
      cases more
      · exact .pure rfl
      · exact .unfinished (.rounds first.addsLater _)
    · cases more
      · exact .pure _
      · exact .rounds first.addsLater _

end Tracks
end

/-! ## Names -/

variable {B : Body → Body → Prop}

mutual
/-- What a name means in two programs that differ in the bodies of their routines. -/
inductive Meaning.Alike (B : Body → Body → Prop) : Meaning → Meaning → Prop where
  | value (v : Value) : Meaning.Alike B (.value v) (.value v)
  | place (p : Place) : Meaning.Alike B (.place p) (.place p)
  | standard (s : Standard) : Meaning.Alike B (.standard s) (.standard s)
  | routine {name : String} {params : List Param} {body body' : Body} {env env' : Env}
      (names : Env.Alike B env env') (inner : B body body') :
    Meaning.Alike B (.routine name params body env) (.routine name params body' env')

inductive Env.Alike (B : Body → Body → Prop) : Env → Env → Prop where
  | nil : Env.Alike B [] []
  | cons {name : String} {m m' : Meaning} {env env' : Env} (first : Meaning.Alike B m m')
      (rest : Env.Alike B env env') : Env.Alike B ((name, m) :: env) ((name, m') :: env')
end

namespace Meaning.Alike

variable {m m' : Meaning}

theorem contents (alike : Alike B m m') : Tracks Eq m.contents m'.contents m.contents := by
  cases alike with
  | value | place | standard => exact .refl (holds_contents closed_adds _)
  | routine => exact .throw _

theorem component (alike : Alike B m m') (s : Selector) :
    Tracks (Alike B) (m.component s) (m'.component s) (m.component s) := by
  cases alike with
  | value v =>
    simp only [Meaning.component]
    split
    · exact .pure (.value _)
    · exact .throw _
  | place p => exact .pure (.place _)
  | standard | routine => exact .throw _

theorem element (alike : Alike B m m') (k : Int) :
    Tracks (Alike B) (m.element k) (m'.element k) (m.element k) := by
  refine .andThen alike.contents fun v => ?_
  split
  · split
    · exact alike.component _
    · exact .throw _
  · exact .throw _

end Meaning.Alike

variable {env env' : Env}

theorem Env.Alike.find (names : Env.Alike B env env') (x : String) :
    Tracks (Meaning.Alike B) (env.find x) (env'.find x) (env.find x) := by
  induction env generalizing env' with
  | nil =>
    cases names
    exact .throw _
  | cons entry env ih =>
    cases names with
    | @cons name _ _ _ _ first rest =>
      simp only [Env.find, List.lookup_cons]
      cases x == name
      · exact ih rest
      · exact .pure first

theorem Env.Alike.callee (names : Env.Alike B env env') (decl : Option Binding)
    (known : Option Standard) (x : String) :
    Tracks (Meaning.Alike B) (callee env decl known x) (callee env' decl known x)
      (callee env decl known x) := by
  unfold Semantics.callee
  split
  · split
    · exact .pure (.standard _)
    · exact .throw _
  · exact names.find x

variable {actuals actuals' : List Meaning}

theorem Env.Alike.bindParams {params : List Param}
    (names : Env.Alike B env env') (related : List.Forall₂ (Meaning.Alike B) actuals actuals') :
    Env.Alike B (env.bindParams params actuals) (env'.bindParams params actuals') := by
  induction params generalizing env env' actuals actuals' with
  | nil => exact names
  | cons p params ih =>
    cases related with
    | nil => exact names
    | cons first rest => exact ih (.cons first names) rest

theorem Env.Alike.standard : Env.Alike B .standard .standard := by
  have each : ∀ entries : List (String × Standard), ∀ {rest : Env}, Env.Alike B rest rest →
      Env.Alike B (entries.map (fun entry => (entry.1, .standard entry.2)) ++ rest)
        (entries.map (fun entry => (entry.1, .standard entry.2)) ++ rest) := by
    intro entries rest inner
    induction entries with
    | nil => exact inner
    | cons entry entries ih => exact .cons (.standard _) ih
  exact each _ (.cons (.value _) (.cons (.value _) (.cons (.value _) .nil)))

/-- Standard routines do not take routines, so they see the same arguments. -/
theorem Standard.apply_alike
    (related : List.Forall₂ (Meaning.Alike B) actuals actuals') (known : Standard) :
    known.apply actuals' = known.apply actuals := by
  have same : nothing? actuals' = nothing? actuals ∧ boolean? actuals' = boolean? actuals ∧
      booleans? actuals' = booleans? actuals ∧ integer? actuals' = integer? actuals ∧
      integers? actuals' = integers? actuals ∧ character? actuals' = character? actuals ∧
      values? actuals' = values? actuals ∧ place? actuals' = place? actuals := by
    cases related with
    | nil => simp
    | cons first rest =>
      cases rest with
      | nil => cases first <;> simp [nothing?, boolean?, booleans?, integer?, integers?, character?,
          values?, place?]
      | cons second rest =>
        cases rest with
        | nil => cases first <;> cases second <;> simp [nothing?, boolean?, booleans?, integer?,
            integers?, character?, values?, place?]
        | cons third rest => simp [nothing?, boolean?, booleans?, integer?, integers?, character?,
            values?, place?]
  obtain ⟨h₁, h₂, h₃, h₄, h₅, h₆, h₇, h₈⟩ := same
  cases known <;> simp only [apply, taking, *]

/-! ## Components -/

section
variable {x y z : Run Meaning}

theorem Tracks.element {i j k : Run Value} (base : Tracks (Meaning.Alike B) x y z)
    (index : Tracks Eq i j k) :
    Tracks (Meaning.Alike B) (elementOf x i) (elementOf y j) (elementOf z k) := by
  refine base.bind (fun m m' alike => .andThen index fun v => ?_)
    (fun m => holds_elementOf closed_adds (.pure m) index.adds)
    fun m => holds_elementOf closed_adds (.pure m) index.addsLater
  cases v with
  | int w => exact alike.element w.toInt
  | bool | char | array | record => exact .throw _

theorem Tracks.field (base : Tracks (Meaning.Alike B) x y z) (field : String) :
    Tracks (Meaning.Alike B) (fieldOf x field) (fieldOf y field) (fieldOf z field) :=
  base.bind (fun _ _ alike => alike.component _) (holds_component closed_adds _)
    (holds_component closed_adds _)

theorem Tracks.contents (base : Tracks (Meaning.Alike B) x y z) :
    Tracks Eq (x >>= Meaning.contents) (y >>= Meaning.contents) (z >>= Meaning.contents) :=
  base.bind (fun _ _ alike => alike.contents) (holds_contents closed_adds)
    (holds_contents closed_adds)

/-- Goes on with what must be a variable. -/
def Meaning.withPlace {α : Type} (f : Place → Run α) : Meaning → Run α
  | .place p => f p
  | _ => throw .wrong

theorem Meaning.adds_withPlace {α : Type} {f : Place → Run α} (adds : ∀ p, Adds (f p))
    (m : Meaning) : Adds (m.withPlace f) := by
  cases m with
  | place p => exact adds p
  | value | standard | routine => exact .throw _

theorem Tracks.place {α β : Type} {R : α → β → Prop} {f h : Place → Run α} {g : Place → Run β}
    (base : Tracks (Meaning.Alike B) x y z) (next : ∀ p, Tracks R (f p) (g p) (h p)) :
    Tracks R (x >>= Meaning.withPlace f) (y >>= Meaning.withPlace g)
      (z >>= Meaning.withPlace h) := by
  refine base.bind (fun m m' alike => ?_) (Meaning.adds_withPlace fun p => (next p).adds)
    (Meaning.adds_withPlace fun p => (next p).addsLater)
  cases alike with
  | place p => exact next p
  | value | standard | routine => exact .throw _

end

/-! ## Calls -/

/-- Calls in two programs, and in the first one under a higher bound. -/
structure Calls.Track (B : Body → Body → Prop) (calls calls' later : Calls) : Prop where
  add : calls'.Add
  addLater : later.Add
  tracks : ∀ {m m' as as'}, Meaning.Alike B m m' → List.Forall₂ (Meaning.Alike B) as as' →
    Tracks Eq (calls m as) (calls' m' as') (later m as)

variable {calls calls' later : Calls}

theorem Calls.Add.named {α : Type} {f : Option Value → Run α} (add : calls.Add) (env : Env)
    (actuals : List Meaning) (decl : Option Binding) (known : Option Standard) (name : String)
    (adds : ∀ r, Adds (f r)) : Adds (do f (← calls (← callee env decl known name) actuals)) :=
  .bind (adds_callee env decl known name) fun m => .bind (add m actuals) adds

/-- The call of a routine that is found by its name. -/
theorem Calls.Track.named {α : Type} {f : Option Value → Run α}
    (track : Calls.Track B calls calls' later) (names : Env.Alike B env env')
    (related : List.Forall₂ (Meaning.Alike B) actuals actuals') (decl : Option Binding)
    (known : Option Standard) (name : String) (adds : ∀ r, Adds (f r)) :
    Tracks Eq (do f (← calls (← callee env decl known name) actuals))
      (do f (← calls' (← callee env' decl known name) actuals'))
      (do f (← later (← callee env decl known name) actuals)) :=
  (names.callee decl known name).bind
    (fun _ _ alike => .andThen (track.tracks alike related) fun r => .refl (adds r))
    (fun m => .bind (track.add m actuals') adds) fun m => .bind (track.addLater m actuals) adds

theorem Standard.apply_tracks
    (related : List.Forall₂ (Meaning.Alike B) actuals actuals') (known : Standard) :
    Tracks Eq (known.apply actuals) (known.apply actuals') (known.apply actuals) := by
  rw [apply_alike related]
  exact .refl (known.adds_apply actuals)

/-- Calls are on one track if the bodies of routines are. -/
theorem call_tracks (runs : ∀ {bound calls calls' later env env' body body'},
      Calls.Track B calls calls' later → Env.Alike B env env' → B body body' →
      Tracks Eq (body.run calls bound env) (body'.run calls' bound env')
        (body.run later (bound + 1) env))
    (bound : Nat) : Calls.Track B (call bound) (call bound) (call (bound + 1)) := by
  induction bound with
  | zero =>
    refine ⟨adds_call 0, adds_call 1, fun alike related => ?_⟩
    cases alike with
    | standard known => exact known.apply_tracks related
    | value | place => exact .throw _
    | routine => exact ⟨.throw _, .unfinished (adds_call 1 _ _), .throw _, adds_call 1 _ _⟩
  | succ bound ih =>
    refine ⟨adds_call _, adds_call _, fun alike related => ?_⟩
    cases alike with
    | standard known => exact known.apply_tracks related
    | value | place => exact .throw _
    | @routine name params _ _ _ _ names inner =>
      have own := @Meaning.Alike.routine B name params _ _ _ _ names inner
      exact runs ih ((Env.Alike.cons own names).bindParams related) inner

end Triangle.Semantics
