import Mathlib
import Triangle.Proofs.Scope
import Triangle.Proofs.Typing.Slotless
import Triangle.Proofs.Typing.Walk

/-! A mistake leaves no scope behind. The walk with one set of scopes finds what checking finds, and after
an expression or a command the scopes are those there were before it, wherever it stopped. A declaration
adds at most its own name to the innermost scope. -/
namespace Triangle.Check
open Checked List

variable {d : Decl} {pos : Pos} {name : String}

attribute [local simp] Decl.kind Checked.pass Analysis.report Analysis.note

namespace Walk
variable {α β : Type} {w : Walk α} {next : α → Walk β} {s s' : Analysis}

theorem bind_ok {a : α} (first : w s = (.ok a, s')) : (w >>= next) s = next a s' := by
  simp only [bind, first]

theorem bind_error {d : Diagnostic} (first : w s = (.error d, s')) :
    (w >>= next) s = (.error d, s') := by
  simp only [bind, first]

theorem ask_ok {rule : Env → Except Diagnostic α} {a : α} (asked : rule s.env = .ok a) :
    ask rule s = (.ok a, s) := Prod.ext asked rfl

theorem ask_error {rule : Env → Except Diagnostic α} {d : Diagnostic}
    (asked : rule s.env = .error d) : ask rule s = (.error d, s) := Prod.ext asked rfl

theorem bind_lift (a : α) (next : α → Walk β) : (lift (.ok a) >>= next) s = next a s := rfl

theorem meaning_some {m : Meaning}
    (found : s.env.terms.lookup? name = some m) : meaning pos name s = (.ok m, s) :=
  ask_ok (by simp [found])

theorem meaning_none (missing : s.env.terms.lookup? name = none) :
    meaning pos name s = (.error ((Complaint.undeclared name).located pos), s) :=
  ask_error (by simp [missing])

theorem bind_change (f : Env → Env) (next : Unit → Walk β) :
    (change f >>= next) s = next () { s with env := f s.env } := rfl

theorem fresh_none (free : twice? s.env d = none) : fresh d s = (.ok (), s) :=
  ask_ok (by simp [free])

theorem fresh_some {e : Diagnostic} (taken : twice? s.env d = some e) :
    fresh d s = (.error e, s) := ask_error (by simp [taken])

end Walk

/-! ## Scopes that are closed again -/

theorem Table.exit_of_outer {V : Type} {t u : Scope.Table V} (outer : t.outer = u.levels) :
    t.exit = u := by
  rw [Scope.Table.exit, outer, Scope.Table.levels]

theorem Env.outer_bindParams (env : Env) (ps : List Param) (ts : List Ty) :
    (env.bindParams ps ts).terms.outer = env.terms.outer ∧ (env.bindParams ps ts).types = env.types := by
  induction ps generalizing env ts with
  | nil => exact ⟨rfl, rfl⟩
  | cons p ps ih =>
    cases ts with
    | nil => exact ⟨rfl, rfl⟩
    | cons t ts => cases p <;> exact ih _ ts

/-- The scope of a routine's body holds its parameters, and closing it leaves nothing of them. -/
theorem Env.exitRoutine_bindParams (env : Env) (ps : List Param) (ts : List Ty) :
    (env.enterRoutine.bindParams ps ts).exitRoutine = env := by
  obtain ⟨outer, types⟩ := env.enterRoutine.outer_bindParams ps ts
  rw [exitRoutine, Table.exit_of_outer outer, types]
  rfl

/-- The scopes after `d`: the innermost holds at most the name of `d` more than before, which it did not
hold. -/
inductive Env.Adds (env : Env) (d : Decl) : Env → Prop where
  | nothing : Adds env d env
  | term (e : Scope.Entry Meaning) : d.kind ≠ .type → env.terms.declaredHere d.name = false →
      Adds env d { env with terms := env.terms.insert d.name e }
  | type (e : Scope.Entry Ty) : d.kind = .type → env.types.declaredHere d.name = false →
      Adds env d { env with types := env.types.insert d.name e }

theorem Env.Adds.outer {env env' : Env} (adds : env.Adds d env') :
    env'.terms.outer = env.terms.outer ∧ env'.types.outer = env.types.outer := by
  cases adds <;> exact ⟨rfl, rfl⟩

theorem Env.Adds.trans {env next final : Env} (first : env.Adds d next)
    (second : next.Adds d final) : env.Adds d final := by
  cases first with
  | nothing => exact second
  | term e term free =>
    cases second with
    | nothing => exact .term e term free
    | term e' _ again => simp at again
    | type e' type _ => exact absurd type term
  | type e type free =>
    cases second with
    | nothing => exact .type e type free
    | term e' term _ => exact absurd type term
    | type e' _ again => simp at again

theorem free_term {env : Env} (term : d.kind ≠ .type) (free : twice? env d = none) :
    env.terms.declaredHere d.name = false := by
  cases d with
  | type => simp at term
  | const | var | func | proc => simpa [twice?] using free

theorem decl_adds (env : Env) (d : Decl) : env.Adds d (decl env d).env := by
  cases again : twice? env d with
  | some e =>
    cases d <;> simp only [decl, again] <;> exact .nothing
  | none =>
    cases d with
    | const i name value | var i name value =>
      simp only [decl, again]
      split
      · exact .nothing
      · exact .term _ (by simp) (free_term (by simp) again)
    | type i name s =>
      simp only [decl, again]
      split
      · exact .nothing
      · exact .type _ rfl (by simpa [twice?, Decl.name] using again)
    | func i name ps result body =>
      have added (m : Meaning) : env.Adds (.func i name ps result body) (env.addConst name m) :=
        .term _ (by simp) (free_term (by simp) again)
      simp only [decl, again]
      split
      · exact .nothing
      · split
        · exact .nothing
        · split
          · exact added _
          · split <;> exact added _
    | proc i name ps body =>
      simp only [decl, again]
      split
      · exact .nothing
      · exact .term _ (by simp) (free_term (by simp) again)

theorem fallback_adds (env : Env) (d : Decl) : env.Adds d (fallback env d).2 := by
  cases d with
  | type i name s =>
    unfold fallback
    simp only [Decl.setInfo]
    split
    · exact .nothing
    · rename_i free
      exact .type _ rfl (Bool.eq_false_iff.mpr free)
  | const | var | func | proc =>
    unfold fallback
    simp only [Decl.setInfo]
    split
    · exact .nothing
    · rename_i free
      exact .term _ (by simp) (Bool.eq_false_iff.mpr free)

/-- A command's declaration adds at most its name, also when its mistake is reported. -/
theorem declared_adds (env : Env) (d : Decl) :
    env.Adds d (fallback (decl env d).env (decl env d).node).2 := by
  rw [fallback_env_decl]
  exact (decl_adds env d).trans (fallback_adds _ d)

theorem outer_declsOfStmt (env : Env) (ds : List Decl) :
    (declsOfStmt env ds).2.1.terms.outer = env.terms.outer ∧
      (declsOfStmt env ds).2.1.types.outer = env.types.outer := by
  induction ds generalizing env with
  | nil => exact ⟨rfl, rfl⟩
  | cons d ds ih =>
    rw [declsOfStmt]
    cases (decl env d).result with
    | ok =>
      obtain ⟨terms, types⟩ := (decl_adds env d).outer
      exact ⟨(ih _).1.trans terms, (ih _).2.trans types⟩
    | error e =>
      obtain ⟨terms, types⟩ := (declared_adds env d).outer
      exact ⟨(ih _).1.trans terms, (ih _).2.trans types⟩

theorem exitBlock_declsOfStmt (env : Env) (ds : List Decl) :
    (declsOfStmt env.enterBlock ds).2.1.exitBlock = env := by
  obtain ⟨terms, types⟩ := outer_declsOfStmt env.enterBlock ds
  rw [Env.exitBlock, Table.exit_of_outer terms, Table.exit_of_outer types]

/-- A routine's scope is closed after its body, wherever the walk over the body stopped. -/
theorem Walk.closing_routine {α : Type} {env : Env} {ps : List Param} {ts : List Ty} {w : Walk α}
    {result : Except Diagnostic α} {reports reports' : List Diagnostic}
    (ran : w ⟨env.enterRoutine.bindParams ps ts, reports⟩ =
      (result, ⟨env.enterRoutine.bindParams ps ts, reports'⟩)) :
    (change Env.enterRoutine >>= fun _ => closing Env.exitRoutine
      (change (·.bindParams ps ts) >>= fun _ => w)) ⟨env, reports⟩ = (result, ⟨env, reports'⟩) := by
  rw [bind_change, closing, bind_change, ran, Env.exitRoutine_bindParams]

/-- The walk comes to what checking has come to, and leaves the scopes as they were. -/
def Walks {α β : Type} (env : Env) (w : Walk β) (c : Checked α β) : Prop :=
  ∀ reports, w ⟨env, reports⟩ = (c.result, ⟨env, reports ++ c.reports⟩)

namespace Walks
variable {α β γ δ : Type} {env : Env}

theorem pure (node : α) (b : β) : Walks env (Pure.pure b) (Checked.pass node b) := fun reports => by
  simp [Pure.pure]

theorem stop (node : α) (c : Complaint) (pos : Pos) :
    Walks env (Walk.stop c pos : Walk β) (fail node (c.located pos)) := fun reports => by
  simp [Walk.stop, Walk.lift, fail]

theorem lift (node : α) (result : Except Diagnostic β) :
    Walks env (Walk.lift result) ⟨node, result, []⟩ := fun reports => by simp [Walk.lift]

theorem settle (make : Info → α) (i : Info) (result : Except Diagnostic Ty) :
    Walks env (Walk.lift result) (Checked.settle make i result) := fun reports => by
  cases result <;> simp [Walk.lift, Checked.settle, fail]

theorem bind {w : Walk β} {c : Checked α β} {next : β → Walk δ} {rebuild : α → γ}
    {after : α → β → Checked γ δ} (first : Walks env w c)
    (later : ∀ b, Walks env (next b) (after c.node b)) :
    Walks env (w >>= next) (c.andThen rebuild after) := fun reports => by
  have walked := first reports
  unfold andThen
  cases got : c.result with
  | error d =>
    rw [got] at walked
    exact Walk.bind_error walked
  | ok b =>
    rw [got] at walked
    rw [Walk.bind_ok walked, later b]
    simp

/-- What is built around a checked part that has no result of its own. -/
theorem around {w : Walk Unit} {c : Checked α Unit} {rebuild make : α → γ} (walks : Walks env w c) :
    Walks env w (c.andThen rebuild fun a _ => Checked.pass (make a) ()) := fun reports => by
  rw [walks reports, andThen]
  cases c.result <;> simp

theorem ite {p : Prop} [Decidable p] {w w' : Walk β} {c c' : Checked α β} (yes : Walks env w c)
    (no : Walks env w' c') : Walks env (if p then w else w') (if p then c else c') := by
  split
  · exact yes
  · exact no

theorem settleIte {p : Prop} [Decidable p] {make : Info → α} {i : Info} {t : Ty} {c : Complaint} :
    Walks env (if p then Pure.pure t else Walk.stop c pos)
      (Checked.settle make i (if p then .ok t else .error (c.located pos))) := by
  split
  · exact .settle make i (.ok t)
  · exact .settle make i (.error _)

theorem lift_ok {next : β → Walk δ} {b : β} {c : Checked γ δ} (later : Walks env (next b) c) :
    Walks env (Walk.lift (.ok b) >>= next) c := later

theorem lift_error {next : β → Walk δ} {d : Diagnostic} (node : γ) :
    Walks env (Walk.lift (.error d) >>= next) (fail node d) := Walks.lift node (.error d)

theorem ask_ok {rule : Env → Except Diagnostic β} {next : β → Walk δ} {b : β} {c : Checked γ δ}
    (asked : rule env = .ok b) (later : Walks env (next b) c) :
    Walks env (Walk.ask rule >>= next) c := fun reports => by
  rw [Walk.bind_ok (Walk.ask_ok asked), later reports]

theorem ask_error {rule : Env → Except Diagnostic β} {next : β → Walk δ} {d : Diagnostic} (node : γ)
    (asked : rule env = .error d) : Walks env (Walk.ask rule >>= next) (fail node d) :=
  fun reports => by
    rw [Walk.bind_error (Walk.ask_error asked)]
    simp [fail]

theorem meaning {next : Meaning → Walk δ} {node : γ} {after : Meaning → Checked γ δ}
    (later : ∀ m, Walks env (next m) (after m)) : Walks env (Walk.meaning pos name >>= next)
      (match env.terms.lookup? name with
      | none => fail node ((Complaint.undeclared name).located pos)
      | some m => after m) := by
  cases found : env.terms.lookup? name with
  | none => exact ask_error node (by simp [found])
  | some m => exact ask_ok (by simp [found]) (later m)

end Walks

open Walk (bind_ok bind_error bind_change ask_ok ask_error fresh_none closing_routine)

/-- Both refuse a name that its scope already holds. -/
theorem fresh_walks {env : Env} {reports : List Diagnostic}
    (free : twice? env d = none → Walk.decl d ⟨env, reports⟩ =
      ((decl env d).result, ⟨(decl env d).env, reports ++ (decl env d).reports⟩)) :
    Walk.decl d ⟨env, reports⟩ =
      ((decl env d).result, ⟨(decl env d).env, reports ++ (decl env d).reports⟩) := by
  cases again : twice? env d with
  | none => exact free again
  | some e =>
    cases d <;> rw [Walk.decl, decl, bind_error (Walk.fresh_some again), again] <;> simp

theorem assignable_walks {env : Env} (target : Expr) {w : Walk Ty} {c : Checked Expr Ty}
    (walks : Walks env w c) :
    Walks env (Walk.assignable target w) (asVariable env target c) := by
  unfold Walk.assignable asVariable
  cases target.root? with
  | none => exact .stop _ _ _
  | some root =>
    refine walks.bind fun t reports => ?_
    simp only [Walk.ask]
    split <;> simp [fail]

theorem routineArgument_walks (env : Env) (callee : String) (index : Nat) (want : Ty) (i : Info)
    (decl : Option Binding) (name : String) :
    Walks env (Walk.ask fun env => (routineArgument env callee index want i decl name).result)
      (routineArgument env callee index want i decl name) := fun reports => by
  have quiet : (routineArgument env callee index want i decl name).reports = [] := by
    unfold routineArgument
    split
    · rfl
    · split <;> rfl
    · rfl
  simp [Walk.ask, quiet]

theorem condition_walks {env : Env} (test : Expr) {w : Walk Ty} {c : Checked Expr Ty}
    (walks : Walks env w c) (reports : List Diagnostic) :
    Walk.condition test w ⟨env, reports⟩ = ⟨env, reports ++ (conditionReports test c).2⟩ := by
  unfold Walk.condition conditionReports
  rw [walks reports]
  cases c.result with
  | error d => simp
  | ok t =>
    by_cases boolean : t.equal .boolean <;> simp [boolean]

mutual
theorem expr_walks (env : Env) : ∀ e : Expr, Walks env (Walk.expr e) (expr env e)
  | .int i value => by
    rw [Walk.expr, expr]
    split
    · exact .stop _ _ _
    · exact .pure _ _
  | .char _ _ | .bool _ _ => .pure _ _
  | .ident i decl name => by
    rw [Walk.expr, expr]
    refine .meaning fun m => ?_
    cases identRule i.pos name m with
    | error d => exact .lift _ _
    | ok t => exact .pure _ _
  | .subscript i array index => by
    rw [Walk.expr, expr]
    cases array.root? with
    | none => exact .stop _ _ _
    | some name =>
      refine (expr_walks env array).bind fun base => ?_
      cases elemRule i.pos array base with
      | error d => exact .lift_error _
      | ok elem => exact .lift_ok ((expr_walks env index).bind fun t => .settleIte)
  | .select i record field => by
    rw [Walk.expr, expr]
    cases record.root? with
    | none => exact .stop _ _ _
    | some name => exact (expr_walks env record).bind fun base => .settle _ _ _
  | .unary i decl op operand => by
    rw [Walk.expr, expr]
    cases found : env.unary? op with
    | none => exact .ask_error _ (by simp [found])
    | some m =>
      refine .ask_ok (by simp [found]; rfl) ?_
      dsimp only
      cases unaryRule i.pos op m with
      | error d => exact .lift_error _
      | ok shape =>
        refine .lift_ok ((expr_walks env operand).bind fun got => ?_)
        cases operandRule i.pos op shape.1 shape.2 got with
        | error d => exact .lift _ _
        | ok t => exact .pure _ _
  | .binary i decl op left right => by
    rw [Walk.expr, expr]
    exact .meaning fun m => (expr_walks env left).bind fun t => (expr_walks env right).bind fun u =>
      .settle _ _ _
  | .call i decl name as => by
    rw [Walk.expr, expr]
    refine .meaning fun m => ?_
    cases functionRule i.pos name m with
    | error d => exact .lift_error _
    | ok shape =>
      exact .lift_ok (.ite (.stop _ _ _)
        ((args_walks env name 1 shape.1 as).bind fun _ => .pure _ _))
  | .cond i test yes no =>
    (expr_walks env test).bind fun t => .ite (.stop _ _ _) <|
      (expr_walks env yes).bind fun u => (expr_walks env no).bind fun v => .settleIte
  | .letIn i ds body => fun reports => by
    obtain ⟨left, walked, ends⟩ := decls_walks env.enterBlock ds reports
    rw [Walk.expr, expr, Walk.restoring, bind_change, andThen]
    cases got : (decls env.enterBlock ds).result with
    | error d =>
      rw [got] at walked
      rw [bind_error walked]
    | ok inner =>
      rw [got] at walked
      have second := expr_walks inner body (reports ++ (decls env.enterBlock ds).reports)
      rw [bind_ok walked, ends inner got]
      simp only [andThen]
      cases value : (expr inner body).result with
      | error d =>
        rw [value] at second
        rw [bind_error second, append_assoc]
      | ok t =>
        rw [value] at second
        rw [bind_ok second]
        simp [Pure.pure, settle]
  | .array i [] => .stop _ _ _
  | .array i (e :: es) =>
    (expr_walks env e).bind fun t => (elements_walks env t.deref 1 es).bind fun _ => .pure _ _
  | .record i fields => (recordFields_walks env i.pos [] fields).bind fun ts => .pure _ _

theorem elements_walks (env : Env) (want : Ty) (index : Nat) : ∀ es : List Expr,
    Walks env (Walk.elements want index es) (elements env want index es)
  | [] => .pure _ _
  | e :: es => (expr_walks env e).bind fun _ =>
      .ite (.stop _ _ _) (elements_walks env want (index + 1) es).around

theorem recordFields_walks (env : Env) (pos : Pos) (seen : List String) :
    ∀ fields : List (String × Expr),
      Walks env (Walk.recordFields pos seen fields) (recordFields env pos seen fields)
  | [] => .pure _ _
  | (name, e) :: rest => by
    rw [Walk.recordFields, recordFields]
    exact .ite (.stop _ _ _) ((expr_walks env e).bind fun t =>
      (recordFields_walks env pos (name :: seen) rest).bind fun ts => .pure _ _)

theorem args_walks (env : Env) (callee : String) (index : Nat) (wants : List Ty) :
    ∀ as : List Arg, Walks env (Walk.args callee index wants as) (args env callee index wants as)
  | [] => .pure _ _
  | a :: as => by
    cases wants with
    | nil => exact .pure _ _
    | cons want wants =>
      exact (arg_walks env callee index want a).bind fun _ =>
        (args_walks env callee (index + 1) wants as).around

theorem arg_walks (env : Env) (callee : String) (index : Nat) (want : Ty) : ∀ a : Arg,
    Walks env (Walk.arg callee index want a) (arg env callee index want a)
  | .value i value => by
    cases want with
    | ref | func => exact .stop _ _ _
    | _ => exact (expr_walks env value).bind fun got => .ite (.pure _ _) (.stop _ _ _)
  | .var i target => by
    cases want with
    | ref want =>
      exact (assignable_walks target (expr_walks env target)).bind fun got =>
        .ite (.pure _ _) (.stop _ _ _)
    | _ => exact .stop _ _ _
  | .func i decl name => by
    cases want with
    | func ps r =>
      exact routineArgument_walks env callee index (.func ps r) i decl name
    | _ => exact .stop _ _ _

theorem decls_walks (env : Env) : ∀ (ds : List Decl) (reports : List Diagnostic),
    ∃ left, Walk.decls ds ⟨env, reports⟩ =
        ((decls env ds).result.map fun _ => (), ⟨left, reports ++ (decls env ds).reports⟩) ∧
      ∀ final, (decls env ds).result = .ok final → left = final
  | [], reports =>
    ⟨env, by simp [Walk.decls, decls, Pure.pure, Except.map], by
      simp [decls]⟩
  | d :: ds, reports => by
    have head := decl_walks env d reports
    rw [Walk.decls, decls]
    cases got : (decl env d).result with
    | error e =>
      rw [got] at head
      exact ⟨(decl env d).env, bind_error head, by simp⟩
    | ok =>
      rw [got] at head
      obtain ⟨left, walked, ends⟩ := decls_walks (decl env d).env ds (reports ++ (decl env d).reports)
      refine ⟨left, ?_, ends⟩
      rw [bind_ok head, walked, append_assoc]

theorem decl_walks (env : Env) : ∀ (d : Decl) (reports : List Diagnostic),
    Walk.decl d ⟨env, reports⟩ =
      ((decl env d).result, ⟨(decl env d).env, reports ++ (decl env d).reports⟩)
  | .const i name value, reports => by
    have inner := expr_walks env value reports
    refine fresh_walks fun again => ?_
    rw [Walk.decl, decl, again, bind_ok (fresh_none again)]
    cases got : (expr env value).result with
    | error e =>
      rw [got] at inner
      simp only [got]
      exact bind_error inner
    | ok t =>
      rw [got] at inner
      rw [bind_ok inner]
      simp only [got]
      rfl
  | .var i name s, reports => by
    refine fresh_walks fun again => ?_
    rw [Walk.decl, decl, again, bind_ok (fresh_none again)]
    cases got : (sig env s).result with
    | error e =>
      rw [bind_error (ask_error got)]
      simp [got]
    | ok t =>
      rw [bind_ok (ask_ok got)]
      simp only [got]
      exact Prod.ext rfl (by simp [Walk.change, Decl.binding, Decl.name, Decl.pos, Decl.info])
  | .type i name s, reports => by
    refine fresh_walks fun again => ?_
    rw [Walk.decl, decl, again, bind_ok (fresh_none again)]
    cases got : (sig env s).result with
    | error e =>
      rw [bind_error (ask_error got)]
      simp [got]
    | ok t =>
      rw [bind_ok (ask_ok got)]
      simp [got, Walk.change]
  | .func i name ps result body, reports => by
    refine fresh_walks fun again => ?_
    rw [Walk.decl, decl, again, bind_ok (fresh_none again)]
    cases got : (params env [] ps).result with
    | error e =>
      rw [bind_error (ask_error got)]
      simp [got]
    | ok ts =>
      rw [bind_ok (ask_ok got)]
      cases more : (sig env result).result with
      | error e =>
        rw [bind_error (ask_error more)]
        simp [got, more]
      | ok r =>
        rw [bind_ok (ask_ok more), bind_change]
        have inner := expr_walks ((env.addConst name (.typed (.func ts r)
          (.declared .func name i.pos))).enterRoutine.bindParams ps ts) body reports
        simp only [got, more, bindParams_params, Info.pos_setTy]
        cases value : (expr ((env.addConst name (.typed (.func ts r)
            (.declared .func name i.pos))).enterRoutine.bindParams ps ts) body).result with
        | error e =>
          rw [value] at inner
          exact closing_routine (bind_error inner)
        | ok t =>
          rw [value] at inner
          by_cases fits : t.equal r
          · simp only [fits, if_true]
            exact closing_routine ((bind_ok inner).trans (by rw [if_pos fits]; rfl))
          · simp only [fits]
            exact closing_routine ((bind_ok inner).trans (by rw [if_neg fits]; rfl))
  | .proc i name ps body, reports => by
    refine fresh_walks fun again => ?_
    rw [Walk.decl, decl, again, bind_ok (fresh_none again)]
    cases got : (params env [] ps).result with
    | error e =>
      rw [bind_error (ask_error got)]
      simp [got]
    | ok ts =>
      rw [bind_ok (ask_ok got), bind_change]
      have inner := stmt_walks ((env.addConst name (.typed (.func ts .void)
        (.declared .proc name i.pos))).enterRoutine.bindParams ps ts) body reports
      simp only [got, bindParams_params, Info.pos_setTy]
      exact closing_routine (Prod.ext rfl inner)

theorem declsOfStmt_walks (env : Env) : ∀ (ds : List Decl) (reports : List Diagnostic),
    Walk.declsOfStmt ds ⟨env, reports⟩ =
      ⟨(declsOfStmt env ds).2.1, reports ++ (declsOfStmt env ds).2.2⟩
  | [], reports => by simp [Walk.declsOfStmt, declsOfStmt]
  | d :: ds, reports => by
    have head := decl_walks env d reports
    rw [Walk.declsOfStmt, declsOfStmt]
    cases got : (decl env d).result with
    | ok =>
      have tail := declsOfStmt_walks (decl env d).env ds
      simp [head, got, tail]
    | error e =>
      have tail := declsOfStmt_walks (fallback (decl env d).env (decl env d).node).2 ds
      simp only [head, got, Analysis.report, ← fallback_env_decl env (decl env d).env d, tail,
        append_assoc]

theorem stmt_walks (env : Env) : ∀ (s : Stmt) (reports : List Diagnostic),
    Walk.stmt s ⟨env, reports⟩ = ⟨env, reports ++ (stmt env s).2⟩
  | .seq i ss, reports => by
    have inner := stmts_walks env ss
    simp only [Walk.stmt, stmt, inner]
  | .assign i target value, reports => by
    have left := assignable_walks target (expr_walks env target) reports
    have right := expr_walks env value (reports ++ (asVariable env target (expr env target)).reports)
    simp only [Walk.stmt, stmt, left, right]
    cases one : (asVariable env target (expr env target)).result with
    | error d =>
      cases other : (expr env value).result <;>
        simp [settled, assignReports, one, other]
    | ok t =>
      cases other : (expr env value).result with
      | error d => simp [settled, assignReports, one, other]
      | ok v =>
        by_cases agree : t.equal v <;>
          simp [settled, assignReports, one, other, agree]
  | .call i decl name as, reports => by
    simp only [Walk.stmt, stmt]
    cases found : env.terms.lookup? name with
    | none =>
      rw [bind_error (Walk.meaning_none found)]
      rfl
    | some m =>
      rw [bind_ok (Walk.meaning_some found)]
      dsimp only
      cases procedureRule i.pos name m with
      | error d => rfl
      | ok wants =>
        have inner := args_walks env name 1 wants as reports
        rw [Walk.bind_lift]
        by_cases arity : as.length = wants.length
        · simp only [arity, ne_eq, not_true_eq_false, if_false, inner]
          cases (args env name 1 wants as).result <;> simp
        · simp only [arity, ne_eq, not_false_eq_true, if_true]
          rfl
  | .letIn i ds body, reports => by
    have first := declsOfStmt_walks env.enterBlock ds
    have second := stmt_walks (declsOfStmt env.enterBlock ds).2.1 body
    simp only [Walk.stmt, stmt, first, second, exitBlock_declsOfStmt, append_assoc]
  | .ifThen i test yes, reports | .whileDo i test yes, reports => by
    have first := condition_walks test (expr_walks env test)
    have second := stmt_walks env yes
    simp only [Walk.stmt, stmt, first, second, append_assoc]
  | .ifElse i test yes no, reports => by
    have first := condition_walks test (expr_walks env test)
    have second := stmt_walks env yes
    have third := stmt_walks env no
    simp only [Walk.stmt, stmt, first, second, third, append_assoc]
  | .repeatUntil i body test, reports | .repeatWhile i body test, reports => by
    have first := stmt_walks env body
    have second := condition_walks test (expr_walks env test)
    simp only [Walk.stmt, stmt, first, second, append_assoc]
  | .loopWhile i pre test post, reports => by
    have first := stmt_walks env pre
    have second := condition_walks test (expr_walks env test)
    have third := stmt_walks env post
    simp only [Walk.stmt, stmt, first, second, third, append_assoc]
  | .forever i body, reports => by
    have inner := stmt_walks env body
    simp only [Walk.stmt, stmt, inner]
  | .skip i, reports => by simp [Walk.stmt, stmt]

theorem stmts_walks (env : Env) : ∀ (ss : List Stmt) (reports : List Diagnostic),
    Walk.stmts ss ⟨env, reports⟩ = ⟨env, reports ++ (stmts env ss).2⟩
  | [], reports => by simp [Walk.stmts, stmts]
  | s :: ss, reports => by
    have head := stmt_walks env s
    have tail := stmts_walks env ss
    simp [Walk.stmts, stmts, head, tail]
end

theorem stmts_reports (env : Env) (ss : List Stmt) :
    (stmts env ss).2 = ss.flatMap fun s => (stmt env s).2 := by
  induction ss with
  | nil => simp [stmts]
  | cons s ss ih => simp [stmts, ih]

/-- Wherever the walk over an expression or a command stops, the scopes are as before it. A declaration
adds at most its name to the innermost scope. A sequence therefore reports what each of its commands
reports by itself. -/
theorem Walk.leaves_no_scope (env : Env) (reports : List Diagnostic) :
    (∀ e, Walk.expr e ⟨env, reports⟩ =
      ((Check.expr env e).result, ⟨env, reports ++ (Check.expr env e).reports⟩)) ∧
    (∀ s, Walk.stmt s ⟨env, reports⟩ = ⟨env, reports ++ (Check.stmt env s).2⟩) ∧
    (∀ d, Walk.decl d ⟨env, reports⟩ =
        ((Check.decl env d).result,
          ⟨(Check.decl env d).env, reports ++ (Check.decl env d).reports⟩) ∧
      env.Adds d (Check.decl env d).env ∧
      env.Adds d (fallback (Check.decl env d).env (Check.decl env d).node).2) ∧
    (∀ i ss, (Check.stmt env (.seq i ss)).2 = ss.flatMap fun s => (Check.stmt env s).2) ∧
    ∀ i ss, Walk.stmt (.seq i ss) ⟨env, reports⟩ =
      ⟨env, reports ++ ss.flatMap fun s => (Walk.stmt s ⟨env, []⟩).reports⟩ := by
  refine ⟨fun e => expr_walks env e reports, fun s => stmt_walks env s reports,
    fun d => ⟨decl_walks env d reports, decl_adds env d, declared_adds env d⟩, fun i ss => ?_,
    fun i ss => ?_⟩
  · rw [Check.stmt]
    exact stmts_reports env ss
  · rw [stmt_walks env (.seq i ss) reports, Check.stmt]
    simp [stmts_reports, stmt_walks]

end Triangle.Check
