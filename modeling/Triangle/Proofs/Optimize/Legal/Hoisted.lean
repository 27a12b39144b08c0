import Mathlib
import Triangle.Proofs.Optimize.Legal.Deeds
import Triangle.Proofs.Optimize.Legal.Loop
import Triangle.Proofs.Optimize.Reaching
import Triangle.Proofs.Typing.Numbered

/-! Hoisting out of a whole program. Every loop that is replaced is stable in its scope again, and the
constants before it have names that nothing else has. -/
namespace Triangle.Optimize.Hoist
open Check Deed List

variable {env : Env}

/-! ## Steps of hoisting -/

/-- The step takes one number for each new constant, and there is room for them. If `P` holds before
the step for all numbers that are free, then `Q` after it. -/
structure Hoists {α : Type} (P : Int → Prop) (step : Hoisting α) (Q : α → Int → Prop) : Prop where
  grows : ∀ s, s.hoisted ≤ (step.run s).2.hoisted
  holds : ∀ s, 0 ≤ s.next → (∀ m, s.next ≤ m → P m) →
    s.next + ((step.run s).2.hoisted - s.hoisted : Nat) < 2 ^ 63 →
    (step.run s).2.next = s.next + ((step.run s).2.hoisted - s.hoisted : Nat) ∧
      ∀ m, (step.run s).2.next ≤ m → Q (step.run s).1 m

namespace Hoists
variable {α β : Type} {P P' : Int → Prop} {Q Q' : α → Int → Prop} {R : β → Int → Prop}

/-- A step that adds no constants. -/
theorem still {step : Hoisting α}
    (same : ∀ s, (step.run s).2.next = s.next ∧ (step.run s).2.hoisted = s.hoisted)
    (gives : ∀ s m, P m → Q (step.run s).1 m) : Hoists P step Q where
  grows s := (same s).2.ge
  holds s _ known _ := by
    refine ⟨by rw [(same s).1, (same s).2]; simp, fun m above => gives s m (known m ?_)⟩
    rwa [(same s).1] at above

theorem pure {a : α} (gives : ∀ m, P m → Q a m) : Hoists P (Pure.pure a) Q :=
  still (fun _ => ⟨rfl, rfl⟩) fun _ => gives

theorem bind {step : Hoisting α} {next : α → Hoisting β} (first : Hoists P step Q)
    (later : ∀ a, Hoists (fun m => P m ∧ Q a m) (next a) R) : Hoists P (step >>= next) R where
  grows s := (first.grows s).trans ((later _).grows _)
  holds s positive known room := by
    have grown := first.grows s
    have more := (later (step.run s).1).grows (step.run s).2
    change s.next + (((next (step.run s).1).run (step.run s).2).2.hoisted - s.hoisted : Nat) < _ at room
    obtain ⟨middle, met⟩ := first.holds s positive known (by omega)
    obtain ⟨final, done⟩ := (later (step.run s).1).holds (step.run s).2 (by omega)
      (fun m above => ⟨known m (by omega), met m above⟩) (by omega)
    refine ⟨?_, done⟩
    change ((next (step.run s).1).run (step.run s).2).2.next =
      s.next + (((next (step.run s).1).run (step.run s).2).2.hoisted - s.hoisted : Nat)
    omega

theorem conseq {step : Hoisting α} (hoists : Hoists P step Q) (weaker : ∀ m, P' m → P m)
    (stronger : ∀ m a, P' m → Q a m → Q' a m) : Hoists P' step Q' where
  grows := hoists.grows
  holds s positive known room := by
    obtain ⟨final, met⟩ := hoists.holds s positive (fun m above => weaker m (known m above)) room
    exact ⟨final, fun m above => stronger m _ (known m (by omega)) (met m above)⟩

theorem imp {step : Hoisting α} (hoists : Hoists P step Q) (weaker : ∀ m, P' m → P m) :
    Hoists P' step Q :=
  hoists.conseq weaker fun _ _ _ met => met

end Hoists

/-! ## Names that are changed -/

/-- Whatever is declared is among the names of the deeds. -/
def Covers {α : Type} (Declares : (DeclKind → String → Prop) → α → Prop) (a : α) (ds : List Deed) :
    Prop :=
  ∀ Q : String → Prop, (∀ name ∈ listNames ds, Q name) → Declares (fun _ => Q) a

theorem run_summarizing {α : Type} (x : Effects.Summarize α) (s : State) :
    (summarizing x).run s = pure ((x.run s.known).1, { s with known := (x.run s.known).2 }) := rfl

theorem summarizing_hoists {α : Type} {P : Int → Prop} {x : Effects.Summarize α} {Q : α → Prop}
    (gives : ∀ known, Q (x.run known).1) : Hoists P (summarizing x) fun a _ => Q a :=
  .still (fun _ => ⟨rfl, rfl⟩) fun s _ _ => gives s.known

theorem deeds_hoist (p : Place) (ds : List Deed) {P : Int → Prop} :
    Hoists P (p.deeds ds) fun ds' _ => listNames ds' = listNames ds := by
  unfold Place.deeds
  split
  · exact (summarizing_hoists fun known => (Effects.names_deeds ds p.scope known).1).bind
      fun _ => .pure fun _ both => both.2
  · exact .pure fun _ _ => rfl

theorem routine_hoists (p : Place) (d : Deed) {P : Int → Prop} :
    Hoists P (p.routine d) fun r _ => r.2.names = d.names :=
  (summarizing_hoists fun known => (Effects.names_deed d p.scope known).1).bind
    fun _ => .pure fun _ both => both.2

/-! ## One loop -/

/-- The command with its test numbered from `k` on, if it is a while loop. -/
def numbered (k : Nat) : Stmt → Stmt
  | .whileDo i test body => .whileDo i (test.number.run k).1 body
  | s => s

theorem run_numberTest (s : Stmt) (st : State) :
    ∃ twin, (numberTest s).run st = pure (numbered st.twin s, { st with twin }) := by
  cases s with
  | whileDo i test body => exact ⟨(test.number.run st.twin).2, rfl⟩
  | _ => exact ⟨st.twin, rfl⟩

/-- What becomes of a loop: it stays as it is, or what is left of it follows its constants. -/
theorem run_loop (scope : Effects.Callees) (s : Stmt) (first rest : List Deed) (st : State) :
    ∃ deeds known twin, listNames deeds = listNames (first ++ rest) ∧
      ((loop scope s first rest).run st = ((s, deeds), { st with known, twin }) ∨
        ∃ l k body x, listNames (first ++ rest) ⊆ l.mutated ∧
          (Extract.stmt l [] (numbered k s)).run { next := st.next } = (body, x) ∧
          (loop scope s first rest).run st =
            ((wrap (numbered k s) body x, wrapDeeds s (deeds.take first.length) deeds x),
              { known, twin, next := x.next, hoisted := st.hoisted + x.decls.length })) := by
  obtain ⟨same, summarized⟩ := Effects.names_deeds (first ++ rest) scope st.known
  cases run : (Effects.deeds scope (first ++ rest)).run st.known with
  | mk done known =>
  obtain ⟨deeds, summary⟩ := done
  rw [run] at same summarized
  have summed : (summarizing (Effects.deeds scope (first ++ rest))).run st =
      pure ((deeds, summary), { st with known }) := by
    rw [run_summarizing, run]
  cases closed : known.summaries.closure summary with
  | none =>
    refine ⟨deeds, known, st.twin, same, .inl ?_⟩
    simp only [loop, StateT.run_bind, summed, pure_bind, StateT.run_get, closed]
    rfl
  | some mutated =>
    obtain ⟨twin, numbering⟩ := run_numberTest s { st with known }
    refine ⟨deeds, known, twin, same, ?_⟩
    have inside : listNames (first ++ rest) ⊆ mutated := by
      rw [← summarized]
      exact Summaries.names_subset_closure closed
    cases extracted : (Extract.stmt ⟨mutated, entered s⟩ [] (numbered st.twin s)).run
        { next := st.next } with
    | mk body x =>
    simp only [loop, StateT.run_bind, summed, pure_bind, StateT.run_get, closed, numbering, extracted]
    split
    · exact .inl rfl
    · exact .inr ⟨_, _, body, x, inside, extracted, rfl⟩

theorem becomes_numbered (k : Nat) (s : Stmt) : StmtBecomes env env s (numbered k s) := by
  cases s with
  | whileDo i test body => exact .whileDo (becomes_number test k) id
  | _ => exact id

theorem declares_numbered (k : Nat) (s : Stmt) {deep : Bool} {P : DeclKind → String → Prop}
    (declared : s.Declares deep P) : (numbered k s).Declares deep P := by
  cases s with
  | whileDo i test body => exact ⟨declares_number.expr test k declared.1, declared.2⟩
  | _ => exact declared

/-- The constants stand in a block around what is left of the loop. If one of them may trap, the block
is under the test of a while loop. -/
theorem wrap_cases (s body : Stmt) (x : Extraction) :
    wrap s body x = .letIn s.info.alone x.decls body ∨
      ∃ i test inside j newTest newBody, s = .whileDo i test inside ∧
        body = .whileDo j newTest newBody ∧ wrap s body x = .ifThen i.alone test
          (.letIn i.alone x.decls (.repeatWhile i.alone newBody newTest)) := by
  unfold wrap
  split
  · exact .inr ⟨_, _, _, _, _, _, rfl, rfl, rfl⟩
  · exact .inl rfl

theorem wrap_stable {s body : Stmt} {x : Extraction} (stable : StmtStable env s)
    (declared : DeclsStable env.enterBlock x.decls)
    (inside : StmtStable (env.enterBlock.declareAll x.decls) body) : StmtStable env (wrap s body x) := by
  rcases wrap_cases s body x with same | ⟨i, test, old, j, newTest, newBody, rfl, rfl, same⟩
  · rw [same]
    exact stmt_letIn.mpr ⟨_, _, _, declared, inside, rfl⟩
  · rw [same]
    obtain ⟨_, t, _, tested, boolean, -, whole⟩ := stmt_whileDo.mp stable
    obtain ⟨-, rfl, -⟩ := Stmt.whileDo.inj whole
    obtain ⟨_, u, _, again, still, second, whole⟩ := stmt_whileDo.mp inside
    obtain ⟨-, rfl, rfl⟩ := Stmt.whileDo.inj whole
    have block : StmtStable (env.enterBlock.declareAll x.decls) (.repeatWhile i.alone newBody newTest) :=
      stmt_repeatWhile.mpr ⟨newBody, newTest, u, second, again, still, rfl⟩
    exact stmt_ifThen.mpr ⟨test, t, _, tested, boolean,
      stmt_letIn.mpr ⟨_, _, _, declared, block, rfl⟩, rfl⟩

theorem wrap_declares {s body : Stmt} {x : Extraction} {deep : Bool} {P : DeclKind → String → Prop}
    (declared : s.Declares deep P) (consts : Decl.Declare deep P x.decls)
    (inside : body.Declares deep P) : (wrap s body x).Declares deep P := by
  rcases wrap_cases s body x with same | ⟨i, test, old, j, newTest, newBody, rfl, rfl, same⟩
  · rw [same]
    exact ⟨consts, inside⟩
  · rw [same]
    exact ⟨declared.1, consts, inside.2, inside.1⟩

/-- What one hoisting makes of a part of the program. It can stand in its place, no name that it declares
is that of a free number, and the deeds hold the names that it declares. -/
structure Rewritten {α : Type} (Becomes : Env → Env → α → α → Prop)
    (Declares : Bool → (DeclKind → String → Prop) → α → Prop) (env : Env) (a : α)
    (r : α × List Deed) (m : Int) : Prop where
  becomes : Becomes env env a r.1
  plain : Declares true (fun _ => Plain m) r.1
  covered : Covers (Declares false) r.1 r.2

/-- A loop that hoisting may look at, with its deeds. -/
structure LoopReady (env : Env) (s : Stmt) (deeds : List Deed) (m : Int) : Prop where
  clear : Clear m env
  plain : s.Declares true fun _ => Plain m
  stable : StmtStable env s
  covered : Covers (Stmt.Declares false) s deeds

theorem listNames_wrapDeeds (s : Stmt) (test deeds : List Deed) (x : Extraction) :
    listNames (ofDecls x.decls ++ deeds) ⊆ listNames (wrapDeeds s test deeds x) := by
  unfold wrapDeeds
  split <;> simp [names]

theorem plain_constName {j m : Int} (positive : 0 ≤ j) (below : j < m) (room : j < 2 ^ 63) :
    Plain m (constName j) :=
  ⟨constName_not_mem_pureUnary j, fun k low high same => by
    have := constName_inj positive room (by omega) high same
    omega⟩

theorem Collected.nil {start : Int} (room : start < 2 ^ 63) : Collected start env { next := start } :=
  ⟨by simpa using room, by simp, rfl, by simp, by simp, rfl⟩

/-- The constants have the names that are no longer free. -/
theorem Collected.declare {start m : Int} {x : Extraction} {deep : Bool} (positive : 0 ≤ start)
    (collected : Collected start env x) (above : x.next ≤ m) :
    Decl.Declare deep (fun _ => Plain m) x.decls := by
  refine Decl.declare_of_forall fun d member => collected.plain d member deep _ ?_
  obtain ⟨j, low, high, named⟩ := collected.named (mem_map_of_mem member)
  have room := collected.room
  have next := collected.next
  rw [named]
  exact plain_constName (by omega) (by omega) (by omega)

theorem loop_hoists (scope : Effects.Callees) (sound : env.IsSound) (s : Stmt) (first rest : List Deed) :
    Hoists (LoopReady env s (first ++ rest)) (loop scope s first rest)
      (Rewritten StmtBecomes Stmt.Declares env s) := by
  refine ⟨fun st => ?_, fun st positive known room => ?_⟩
  · obtain ⟨deeds, known, twin, -, stays | ⟨l, k, body, x, -, -, moves⟩⟩ :=
      run_loop scope s first rest st
    · rw [stays]
    · rw [moves]
      exact Nat.le_add_right _ _
  obtain ⟨deeds, now, twin, same, stays | ⟨l, k, body, x, inside, extracted, moves⟩⟩ :=
    run_loop scope s first rest st
  · rw [stays]
    refine ⟨by simp, fun m above => ⟨id, (known m above).plain, fun Q all => ?_⟩⟩
    exact (known m above).covered Q (same ▸ all)
  rw [moves] at room ⊢
  rw [Nat.add_sub_cancel_left] at room ⊢
  -- the constants are collected for a block of their own, in which the loop stays what it is
  have ready := known st.next (le_refl _)
  have scene : Scene l st.next env env.enterBlock :=
    ⟨positive, (Under.refl _ _).enterBlock, sound.enterBlock, ready.clear.enterBlock⟩
  have stable : Node.Stable env.enterBlock (.stmt (numbered k s)) :=
    stmt_same (.block env) _ (becomes_numbered k s ready.stable)
  have declared : (numbered k s).Declares false (Declared l st.next) :=
    declares_numbered k s ((declares_and fun _ _ => .intro).stmt s
      (ready.covered _ fun name member => inside member) ready.plain)
  have yields := (stmt_yields scene [] _ stable declared).holds { next := st.next } (.nil (by omega))
    fun _ _ => trivial
  rw [extracted] at yields
  obtain ⟨collected, keeps⟩ := yields room
  have next : x.next = st.next + x.decls.length := collected.next
  have left := keeps _ (collected.ready positive env.enterBlock)
  refine ⟨next, fun m (above : x.next ≤ m) => ⟨fun _ => ?_, ?_, fun Q all => ?_⟩⟩
  · exact wrap_stable (becomes_numbered k s ready.stable) collected.stable
      (left.becomes (collected.wide positive scene.clear) stable)
  · have plain := declares_numbered k s (known m (by omega)).plain
    exact wrap_declares plain (collected.declare positive above) (left.declares true _ plain)
  · have within : ∀ name ∈ listNames (ofDecls x.decls ++ deeds), Q name :=
      fun name member => all name (listNames_wrapDeeds s _ deeds x member)
    rw [listNames_append, forall_mem_append, same] at within
    have changed := declares_numbered k s (ready.covered Q within.2)
    exact wrap_declares changed (declares_deeds.decls x.decls within.1) (left.declares false _ changed)

/-- A loop whose parts are done. -/
theorem loop_done (scope : Effects.Callees) (sound : env.IsSound) {s s' : Stmt} {first rest : List Deed}
    {P : Int → Prop} (stable : StmtStable env s) (clear : ∀ m, P m → Clear m env)
    (done : ∀ m, P m → Rewritten StmtBecomes Stmt.Declares env s (s', first ++ rest) m) :
    Hoists P (loop scope s' first rest) (Rewritten StmtBecomes Stmt.Declares env s) :=
  (loop_hoists scope sound s' first rest).conseq
    (fun m pre => ⟨clear m pre, (done m pre).plain, (done m pre).becomes stable, (done m pre).covered⟩)
    fun m _ pre after => ⟨fun stable => after.becomes ((done m pre).becomes stable), after.plain,
      after.covered⟩

/-! ## The tree -/

theorem Clear.inside {m : Int} {d : Decl} {ps : List Param} {ts : List Ty} (clear : Clear m env)
    (plain : Plain m d.name) (formals : Declare (fun _ => Plain m) (Param.listNodes ps)) :
    Clear m ((env.declare d).enterRoutine.bindParams ps ts) := by
  intro k low high
  have other : constName k ∉ ps.map Param.name := by
    intro member
    obtain ⟨p, inside, named⟩ := mem_map.mp member
    exact (Param.declare_names formals p inside).2 k low high named
  rw [bound?_bindParams_of_not_mem other]
  simpa [Env.enterRoutine] using clear.declare plain k low high

mutual
theorem stmt_hoists (p : Place) {env : Env} (sound : env.IsSound) : ∀ s : Stmt,
    Node.Stable env (.stmt s) →
    Hoists (fun m => Clear m env ∧ s.Declares true fun _ => Plain m) (stmt p s)
      (Rewritten StmtBecomes Stmt.Declares env s)
  | .letIn i ds body, stable => by
    obtain ⟨first, second⟩ := stable.block rfl
    refine ((decls_hoist p.block sound.enterBlock ds first).imp fun m pre =>
      ⟨pre.1.enterBlock, pre.2.1⟩).bind fun (inner, ds', declared) => ?_
    refine ((stmt_hoists inner (decls_typed sound.enterBlock first).2 body second).imp fun m pre =>
      ⟨pre.1.1.enterBlock.declareAll pre.1.2.1, pre.1.2.2⟩).bind fun (body', done) => ?_
    refine .pure fun m ⟨⟨pre, one⟩, two⟩ => ⟨.letIn (fun _ => one.becomes) fun _ => two.becomes,
      ⟨one.plain, two.plain⟩, fun Q all => ?_⟩
    simp only [listNames_cons, names, listNames_append, listNames_nil, append_nil,
      forall_mem_append] at all
    exact ⟨one.covered Q all.1, two.covered Q all.2⟩
  | .seq i ss, stable => by
    exact (stmts_hoist p sound ss fun s member => stable.part (by simp [Node.parts, member])).bind
      fun (ss', done) => .pure fun m ⟨_, each⟩ => ⟨.seq each.becomes, each.plain, each.covered⟩
  | .ifThen i test yes, stable => by
    refine (deeds_hoist p _).bind fun tested => ?_
    refine ((stmt_hoists p sound yes stable.part).imp fun m pre =>
      ⟨pre.1.1, pre.1.2.2⟩).bind fun (yes', done) => ?_
    refine .pure fun m ⟨⟨pre, same⟩, one⟩ => ⟨.ifThen (.refl env test) one.becomes,
      ⟨pre.2.1, one.plain⟩, fun Q all => ?_⟩
    rw [listNames_append, forall_mem_append, same] at all
    exact ⟨declares_deeds.expr test all.1, one.covered Q all.2⟩
  | .ifElse i test yes no, stable => by
    refine (deeds_hoist p _).bind fun tested => ?_
    refine ((stmt_hoists p sound yes stable.part).imp fun m pre =>
      ⟨pre.1.1, pre.1.2.2.1⟩).bind fun (yes', done) => ?_
    refine ((stmt_hoists p sound no stable.part).imp fun m pre =>
      ⟨pre.1.1.1, pre.1.1.2.2.2⟩).bind fun (no', other) => ?_
    refine .pure fun m ⟨⟨⟨pre, same⟩, one⟩, two⟩ => ⟨.ifElse (.refl env test) one.becomes two.becomes,
      ⟨pre.2.1, one.plain, two.plain⟩, fun Q all => ?_⟩
    simp only [listNames_append, forall_mem_append, same] at all
    exact ⟨declares_deeds.expr test all.1.1, one.covered Q all.1.2, two.covered Q all.2⟩
  | .whileDo i test body, stable => by
    refine (deeds_hoist p _).bind fun tested => ?_
    refine ((stmt_hoists p sound body stable.part).imp fun m pre =>
      ⟨pre.1.1, pre.1.2.2⟩).bind fun (body', done) => ?_
    refine loop_done p.scope sound stable (fun m pre => pre.1.1.1) fun m ⟨⟨pre, same⟩, one⟩ =>
      ⟨.whileDo (.refl env test) one.becomes, ⟨pre.2.1, one.plain⟩, fun Q all => ?_⟩
    rw [listNames_append, forall_mem_append, same] at all
    exact ⟨declares_deeds.expr test all.1, one.covered Q all.2⟩
  | .repeatUntil i body test, stable => by
    refine ((stmt_hoists p sound body stable.part).imp fun m pre =>
      ⟨pre.1, pre.2.1⟩).bind fun (body', done) => ?_
    refine (deeds_hoist p _).bind fun tested => ?_
    refine loop_done p.scope sound stable (fun m pre => pre.1.1.1) fun m ⟨⟨pre, one⟩, same⟩ =>
      ⟨.repeatUntil one.becomes (.refl env test), ⟨one.plain, pre.2.2⟩, fun Q all => ?_⟩
    rw [listNames_append, forall_mem_append, same] at all
    exact ⟨one.covered Q all.1, declares_deeds.expr test all.2⟩
  | .repeatWhile i body test, stable => by
    refine ((stmt_hoists p sound body stable.part).imp fun m pre =>
      ⟨pre.1, pre.2.1⟩).bind fun (body', done) => ?_
    refine (deeds_hoist p _).bind fun tested => ?_
    refine loop_done p.scope sound stable (fun m pre => pre.1.1.1) fun m ⟨⟨pre, one⟩, same⟩ =>
      ⟨.repeatWhile one.becomes (.refl env test), ⟨one.plain, pre.2.2⟩, fun Q all => ?_⟩
    rw [listNames_append, forall_mem_append, same] at all
    exact ⟨one.covered Q all.1, declares_deeds.expr test all.2⟩
  | .loopWhile i pre test post, stable => by
    refine ((stmt_hoists p sound pre stable.part).imp fun m pre =>
      ⟨pre.1, pre.2.1⟩).bind fun (pre', done) => ?_
    refine (deeds_hoist p _).bind fun tested => ?_
    refine ((stmt_hoists p sound post stable.part).imp fun m pre =>
      ⟨pre.1.1.1, pre.1.1.2.2.2⟩).bind fun (post', other) => ?_
    refine loop_done p.scope sound stable (fun m pre => pre.1.1.1.1) fun m ⟨⟨⟨pre, one⟩, same⟩, two⟩ =>
      ⟨.loopWhile one.becomes (.refl env test) two.becomes, ⟨one.plain, pre.2.2.1, two.plain⟩,
        fun Q all => ?_⟩
    simp only [listNames_append, forall_mem_append, same] at all
    exact ⟨one.covered Q all.1.1, declares_deeds.expr test all.1.2, two.covered Q all.2⟩
  | .forever i body, stable => by
    refine (stmt_hoists p sound body stable.part).bind fun (body', done) => ?_
    refine loop_done p.scope sound stable (fun m pre => pre.1.1) fun m ⟨pre, one⟩ =>
      ⟨.forever one.becomes, one.plain, fun Q all => one.covered Q (by simpa using all)⟩
  | .assign i target value, _ => by
    exact (deeds_hoist p _).bind fun done => .pure fun m ⟨pre, same⟩ => ⟨id, pre.2, fun Q all =>
      declares_deeds.stmt (.assign i target value) (same ▸ all)⟩
  | .call i decl name as, _ => by
    exact (deeds_hoist p _).bind fun done => .pure fun m ⟨pre, same⟩ => ⟨id, pre.2, fun Q all =>
      declares_deeds.stmt (.call i decl name as) (same ▸ all)⟩
  | .skip i, _ => by
    exact .pure fun m pre => ⟨id, pre.2, fun _ _ => trivial⟩

theorem stmts_hoist (p : Place) {env : Env} (sound : env.IsSound) : ∀ ss : List Stmt,
    (∀ s ∈ ss, Node.Stable env (.stmt s)) →
    Hoists (fun m => Clear m env ∧ Stmt.Declare true (fun _ => Plain m) ss) (stmts p ss)
      (Rewritten (fun env env' => List.Forall₂ (StmtBecomes env env')) Stmt.Declare env ss)
  | [], _ => by
    exact .pure fun m _ => ⟨.nil, trivial, fun _ _ => trivial⟩
  | s :: ss, stable => by
    refine ((stmt_hoists p sound s (stable s (by simp))).imp fun m pre => ⟨pre.1, pre.2.1⟩).bind
      fun (s', done) => ?_
    refine ((stmts_hoist p sound ss fun s member => stable s (by simp [member])).imp fun m pre =>
      ⟨pre.1.1, pre.1.2.2⟩).bind fun (ss', others) => ?_
    refine .pure fun m ⟨⟨pre, one⟩, rest⟩ => ⟨.cons one.becomes rest.becomes, ⟨one.plain, rest.plain⟩,
      fun Q all => ?_⟩
    rw [listNames_append, forall_mem_append] at all
    exact ⟨one.covered Q all.1, rest.covered Q all.2⟩

theorem decls_hoist (p : Place) {env : Env} (sound : env.IsSound) : ∀ ds : List Decl,
    DeclsStable env ds →
    Hoists (fun m => Clear m env ∧ Decl.Declare true (fun _ => Plain m) ds) (decls p ds)
      (fun r => Rewritten DeclsBecome Decl.Declare env ds r.2)
  | [], _ => by
    exact .pure fun m _ => ⟨.nil _ _, trivial, fun _ _ => trivial⟩
  | d :: ds, stable => by
    obtain ⟨head, tail⟩ := declsStable_cons.mp stable
    refine ((decl_hoists p sound d head).imp fun m pre => ⟨pre.1, pre.2.1⟩).bind
      fun (next, d', done) => ?_
    refine ((decls_hoist next (decl_typed sound head).2 ds tail).imp fun m pre =>
      ⟨pre.1.1.declare (Decl.declares_name pre.1.2.1), pre.1.2.2⟩).bind fun (final, ds', others) => ?_
    refine .pure fun m ⟨⟨pre, one⟩, rest⟩ => ⟨.cons one.becomes (fun _ => rest.becomes) head,
      ⟨one.plain, rest.plain⟩, fun Q all => ?_⟩
    rw [listNames_append, forall_mem_append] at all
    exact ⟨one.covered Q all.1, rest.covered Q all.2⟩

theorem decl_hoists (p : Place) {env : Env} (sound : env.IsSound) : ∀ d : Decl, DeclStable env d →
    Hoists (fun m => Clear m env ∧ d.Declares true fun _ => Plain m) (decl p d)
      (fun r => Rewritten DeclBecomes Decl.Declares env d r.2)
  | .const i name value, _ => by
    exact (deeds_hoist _ _).bind fun done => .pure fun m ⟨pre, same⟩ => ⟨decl_same (.refl env) _, pre.2,
      fun Q all => declares_deeds.decl _ (by simpa [ofDecl, names, same] using all)⟩
  | .var i name sig, _ | .type i name sig, _ => by
    exact .pure fun m pre => ⟨decl_same (.refl env) _, pre.2, fun Q all => declares_deeds.decl _ all⟩
  | .func i name params result body, _ => by
    exact (routine_hoists p _).bind fun (next, known) => .pure fun m ⟨pre, same⟩ =>
      ⟨decl_same (.refl env) _, pre.2,
        fun Q all => declares_deeds.decl _ (by simpa [ofDecl, names, same] using all)⟩
  | .proc i name params body, stable => by
    obtain ⟨-, _, ts, _, formals, whole, -, inner⟩ := decl_proc.mp stable
    obtain ⟨-, -, rfl, rfl⟩ := Decl.proc.inj whole
    refine (routine_hoists p _).bind fun (next, known) => ?_
    refine ((stmt_hoists _ (sound.inside stable formals) body inner).imp fun m pre =>
      ⟨pre.1.1.inside pre.1.2.1 (pre.1.2.2 rfl).1, (pre.1.2.2 rfl).2⟩).bind fun (body', done) => ?_
    refine .pure fun m ⟨⟨pre, _⟩, one⟩ => ⟨.proc (.alone i) (.same (.refl env) params) ?_,
      ⟨pre.2.1, fun _ => ⟨(pre.2.2 rfl).1, one.plain⟩⟩, fun Q all => ?_⟩
    · intro ts' _ again
      obtain rfl : ts' = ts := by
        rw [formals] at again
        simpa using again.symm
      exact one.becomes
    · exact ⟨all name (by simp [names]), fun deep => by cases deep⟩
end

end Triangle.Optimize.Hoist
