import Mathlib
import Triangle.Optimize.Prune
import Triangle.Proofs.Optimize.Folding
import Triangle.Proofs.Optimize.Undecided
import Triangle.Proofs.Semantics.Tracking
import Triangle.Proofs.Typing.Accepted

/-! Removing what a decided test excludes keeps what programs do, whether they come to their end,
stop or run forever. A loop that is gone has no rounds to count, so the program without it may get
further under the same bound; the program with it gets as far under the next one. -/
namespace Triangle
open List

namespace Optimize.Prune
open Semantics

variable {calls : Calls} {bound : Nat} {env : Semantics.Env}

/-! ## Decided tests -/

/-- A decided test does nothing but choose. -/
theorem test_decided {α : Type} {test : Expr} {b : Bool} (decided : decided? test = some b)
    (f : Bool → Run α) : (do f (← truth (← Semantics.expr calls env test))) = f b := by
  cases test <;> simp only [decided?, Option.some.injEq, reduceCtorEq] at decided
  subst decided
  rfl

/-- What a conditional gives way to does what the conditional does. -/
theorem run_choose {α β : Type} (run : α → Run β) {test : Expr} {yes no left : α}
    (branches : run left = do if ← truth (← Semantics.expr calls env test) then run yes else run no) :
    run (choose test yes no left).value = run left := by
  refine choose_forall (fun a => run a = run left) (fun decided => ?_) (fun decided => ?_) fun _ => rfl
  · rw [branches, test_decided decided]
    rfl
  · rw [branches, test_decided decided]
    rfl

theorem expr_condExpr (i : Info) (test yes no : Expr) :
    Semantics.expr calls env (condExpr i test yes no).value =
      Semantics.expr calls env (.cond i test yes no) :=
  run_choose _ rfl

theorem stmt_ifThen (i : Info) (test : Expr) (yes : Stmt) :
    Semantics.stmt calls bound env (ifThen i test yes).value =
      Semantics.stmt calls bound env (.ifThen i test yes) :=
  run_choose _ rfl

theorem stmt_ifElse (i : Info) (test : Expr) (yes no : Stmt) :
    Semantics.stmt calls bound env (ifElse i test yes no).value =
      Semantics.stmt calls bound env (.ifElse i test yes no) :=
  run_choose _ rfl

/-! ## Commands that do nothing -/

theorem stmts_filter (ss : List Stmt) :
    Semantics.stmts calls bound env (ss.filter fun s => !isSkip s) =
      Semantics.stmts calls bound env ss := by
  induction ss with
  | nil => rfl
  | cons s ss ih =>
    rw [filter_cons]
    split
    · rw [Semantics.stmts, Semantics.stmts, ih]
    · rename_i skipped
      rw [ih, Semantics.stmts]
      cases s <;> simp only [isSkip, Bool.not_true, Bool.not_false, not_true_eq_false] at skipped
      rfl

theorem stmt_seq (i : Info) (ss : List Stmt) :
    Semantics.stmt calls bound env (seq i ss).value = Semantics.stmts calls bound env ss := by
  rw [← stmts_filter]
  simp only [seq]
  split
  · rename_i none
    rw [none, Semantics.stmt, Semantics.stmts]
  · rename_i only
    rw [only, Semantics.stmts, Semantics.stmts]
    exact (bind_pure_unit).symm
  · rw [Semantics.stmt]

theorem fieldExprs_eq (fields : List (String × Expr)) :
    (fieldExprs fields).value = fields.map fun f => (f.1, (expr f.2).value) := by
  induction fields with
  | nil => rfl
  | cons field rest ih =>
    rw [fieldExprs, map_cons, ← ih]
    rfl

end Optimize.Prune

namespace Semantics
open Optimize
open Prune (choose_forall test_decided)

/-! ## Trees -/

/-- The body of a routine, before and after pruning. -/
inductive Body.Prunes : Body → Body → Prop where
  | value {types : Check.Env} {t : Ty} {e : Expr} (typed : Check.ExprTyped types e t) :
    Body.Prunes (.value e) (.value (Prune.expr e).value)
  | command {types : Check.Env} {c : Stmt} (typed : Check.StmtTyped types c) :
    Body.Prunes (.command c) (.command (Prune.stmt c).value)

variable {calls calls' later : Calls} {env env' : Env} {types : Check.Env}

/-- Tests that come out the same. -/
theorem Tracks.test {α : Type} {x y z : Run Value} {f g h : Bool → Run α} (test : Tracks Eq x y z)
    (next : ∀ b, Tracks Eq (f b) (g b) (h b)) :
    Tracks Eq (do f (← truth (← x))) (do g (← truth (← y))) (do h (← truth (← z))) :=
  .andThen test fun v => .andThen (.refl (holds_truth closed_adds v)) next

/-- The fields of a record are evaluated in the order of their names. -/
theorem fields_track {f g h : Expr → Run Value} {fields : List (String × Expr)}
    (each : ∀ field ∈ fields, Tracks Eq (f field.2) (g field.2) (h field.2)) :
    Tracks Eq (inOrder (sortFields (fields.map fun field => (field.1, f field.2))))
      (inOrder (sortFields (fields.map fun field => (field.1, g field.2))))
      (inOrder (sortFields (fields.map fun field => (field.1, h field.2)))) := by
  have inTurn : ∀ fields : List (String × Expr),
      (∀ field ∈ fields, Tracks Eq (f field.2) (g field.2) (h field.2)) →
      Tracks Eq (inOrder (fields.map fun field => (field.1, f field.2)))
        (inOrder (fields.map fun field => (field.1, g field.2)))
        (inOrder (fields.map fun field => (field.1, h field.2))) := by
    intro fields each
    induction fields with
    | nil => exact .refl (.pure _)
    | cons field rest ih =>
      rw [forall_mem_cons] at each
      exact .andThen each.1 fun v => .andThen (ih each.2) fun vs => .refl (.pure _)
  rw [sortFields_map, sortFields_map, sortFields_map]
  exact inTurn _ fun field member => each field (mem_mergeSort.mp member)

mutual
theorem expr_tracks (track : calls.Track Body.Prunes calls' later) (e : Expr) {types env env' t}
    (names : Env.Alike Body.Prunes env env') (typed : Check.ExprTyped types e t) :
    Tracks Eq (expr calls env e) (expr calls' env' (Prune.expr e).value) (expr later env e)
      := by
  cases e with
  | int | char | bool =>
    exact .pure rfl
  | ident _ _ name =>
    exact (names.find name).contents
  | subscript _ array index =>
    obtain ⟨-, rooted, base, length, elem, k, arrayTyped, -, indexTyped, -⟩ := typed
    exact ((locate_tracks track array names arrayTyped rooted).element
      (expr_tracks track index names indexTyped)).contents
  | select _ record field =>
    obtain ⟨-, rooted, base, fields, inner, k, recordTyped, -⟩ := typed
    exact ((locate_tracks track record names recordTyped rooted).field field).contents
  | unary _ decl op operand =>
    obtain ⟨-, m, want, got, -, -, -, operandTyped, -⟩ := typed
    exact .andThen (expr_tracks track operand names operandTyped) fun v =>
      track.named names (.cons (.value v) .nil) decl _ op (holds_valued closed_adds)
  | binary _ decl op left right =>
    obtain ⟨-, m, u, v, -, -, leftTyped, rightTyped, -⟩ := typed
    exact .andThen (expr_tracks track left names leftTyped) fun v =>
      .andThen (expr_tracks track right names rightTyped) fun w =>
        track.named names (.cons (.value v) (.cons (.value w) .nil)) decl _ op (holds_valued closed_adds)
  | call _ decl name as =>
    obtain ⟨-, -, wants, b, -, -, argsTyped⟩ := typed
    exact (args_track track as names argsTyped).bind
      (fun _ _ related => track.named names related decl _ name (holds_valued closed_adds))
      (fun actuals => track.add.named env' actuals decl _ name (holds_valued closed_adds))
      fun actuals => track.addLater.named env actuals decl _ name (holds_valued closed_adds)
  | cond _ test yes no =>
    obtain ⟨-, u, v, w, testTyped, -, yesTyped, noTyped, -⟩ := typed
    simp only [Prune.expr, Tally.value_bind, Prune.expr_condExpr]
    refine (expr_tracks track test names testTyped).test fun b => ?_
    cases b
    · exact expr_tracks track no names noTyped
    · exact expr_tracks track yes names yesTyped
  | letIn _ ds body =>
    obtain ⟨-, inner, u, declsTyped, bodyTyped, -⟩ := typed
    exact .inScope ((decls_track track ds names declsTyped).bind
      (fun _ _ found => expr_tracks track body found bodyTyped)
      (fun env => adds_expr track.add env _) fun env => adds_expr track.addLater env body)
  | array _ elems =>
    obtain ⟨-, elem, -, elemsTyped, -⟩ := typed
    exact .andThen (exprs_track track elems names elemsTyped) fun vs => .pure rfl
  | record _ fields =>
    obtain ⟨-, -, fieldTypes, fieldsTyped, -⟩ := typed
    simp only [Prune.expr, Tally.value_bind, Tally.value_pure]
    rw [expr, expr, expr, Prune.fieldExprs_eq, initializers_eq, initializers_eq,
      initializers_eq, map_map]
    exact .andThen (@fields_track _ (fun e => expr calls' env' (Prune.expr e).value) _ _
      (each_field_tracks track fields names fieldsTyped)) fun vs => .pure rfl

theorem exprs_track (track : calls.Track Body.Prunes calls' later) (es : List Expr)
    {types env env' elem} (names : Env.Alike Body.Prunes env env')
    (typed : Check.ElemsTyped types elem es) :
    Tracks Eq (exprs calls env es) (exprs calls' env' (Prune.exprs es).value)
      (exprs later env es) := by
  cases es with
  | nil =>
    exact .pure rfl
  | cons e es =>
    obtain ⟨⟨t, first, -⟩, rest⟩ := typed
    exact .andThen (expr_tracks track e names first) fun v =>
      .andThen (exprs_track track es names rest) fun vs => .pure rfl

theorem each_field_tracks (track : calls.Track Body.Prunes calls' later) :
    ∀ (fields : List (String × Expr)) {types env env' fieldTypes}, Env.Alike Body.Prunes env env' →
    Check.FieldsTyped types fields fieldTypes → ∀ field ∈ fields,
    Tracks Eq (expr calls env field.2) (expr calls' env' (Prune.expr field.2).value)
      (expr later env field.2)
  | [], _, _, _, _, _, _ => by simp
  | (_, e) :: rest, types, env, env', fieldTypes, names, typed => by
    obtain ⟨t, others, first, others, -⟩ := typed
    exact forall_mem_cons.mpr
      ⟨expr_tracks track e names first, each_field_tracks track rest names others⟩

/-- What can be assigned to or selected from is not pruned away. -/
theorem locate_tracks (track : calls.Track Body.Prunes calls' later) (e : Expr) {types env env' t}
    (names : Env.Alike Body.Prunes env env') (typed : Check.ExprTyped types e t)
    (rooted : e.root?.isSome = true) :
    Tracks (Meaning.Alike Body.Prunes) (locate calls env e)
      (locate calls' env' (Prune.expr e).value) (locate later env e) := by
  cases e with
  | ident _ _ name =>
    exact names.find name
  | subscript _ array index =>
    obtain ⟨-, rooted, base, length, elem, k, arrayTyped, -, indexTyped, -⟩ := typed
    exact (locate_tracks track array names arrayTyped rooted).element
      (expr_tracks track index names indexTyped)
  | select _ record field =>
    obtain ⟨-, rooted, base, fields, inner, k, recordTyped, -⟩ := typed
    exact (locate_tracks track record names recordTyped rooted).field field
  | _ =>
    simp [Expr.root?] at rooted

theorem args_track (track : calls.Track Body.Prunes calls' later) (as : List Arg)
    {types env env' wants} (names : Env.Alike Body.Prunes env env')
    (typed : Check.ArgsTyped types as wants) :
    Tracks (List.Forall₂ (Meaning.Alike Body.Prunes)) (args calls env as)
      (args calls' env' (Prune.args as).value) (args later env as) := by
  cases as with
  | nil =>
    exact .pure .nil
  | cons a as =>
    obtain ⟨want, others, first, rest, -⟩ := typed
    exact (arg_tracks track a names first).bind
      (fun m m' alike => (args_track track as names rest).bind
        (fun ms ms' related => .pure (.cons alike related)) (fun _ => .pure _) fun _ => .pure _)
      (fun _ => .bind (holds_args closed_adds track.add.called env' _) fun _ => .pure _)
      fun _ => .bind (holds_args closed_adds track.addLater.called env as) fun _ => .pure _

theorem arg_tracks (track : calls.Track Body.Prunes calls' later) (a : Arg) {types env env' want}
    (names : Env.Alike Body.Prunes env env') (typed : Check.ArgTyped types a want) :
    Tracks (Meaning.Alike Body.Prunes) (arg calls env a)
      (arg calls' env' (Prune.arg a).value) (arg later env a) := by
  cases a with
  | value _ value =>
    obtain ⟨-, -, got, valueTyped, -⟩ := typed
    exact .andThen (expr_tracks track value names valueTyped) fun v => .pure (.value v)
  | var _ target =>
    obtain ⟨inner, got, root, -, targetTyped, -, rooted, -⟩ := typed
    exact (locate_tracks track target names targetTyped (by rw [rooted]; rfl)).place
      fun p => .pure (.place p)
  | func _ _ name =>
    exact names.find name

theorem decls_track (track : calls.Track Body.Prunes calls' later) (ds : List Decl)
    {types env env' final} (names : Env.Alike Body.Prunes env env')
    (typed : Check.DeclsTyped types ds final) :
    Tracks (Env.Alike Body.Prunes) (decls calls env ds)
      (decls calls' env' (Prune.decls ds).value) (decls later env ds) := by
  cases ds with
  | nil =>
    exact .pure names
  | cons d ds =>
    obtain ⟨next, first, rest⟩ := typed
    exact (decl_tracks track d names first).bind (fun _ _ found => decls_track track ds found rest)
      (fun env => holds_decls closed_adds track.add.called env _)
      fun env => holds_decls closed_adds track.addLater.called env ds

theorem decl_tracks (track : calls.Track Body.Prunes calls' later) (d : Decl) {types env env' next}
    (names : Env.Alike Body.Prunes env env') (typed : Check.DeclTyped types d next) :
    Tracks (Env.Alike Body.Prunes) (decl calls env d)
      (decl calls' env' (Prune.decl d).value) (decl later env d) := by
  cases d with
  | const _ name value =>
    obtain ⟨t, valueTyped, -⟩ := typed
    exact .andThen (expr_tracks track value names valueTyped) fun v =>
      .pure (.cons (.value v) names)
  | var i name _ =>
    have slot : i.alone.ty = i.ty := rfl
    rw [Prune.decl, Tally.value_pure, decl, decl, decl, slot]
    cases i.ty with
    | some t => exact .andThen (.refl (closed_adds.allocate _)) fun p => .pure (.cons (.place p) names)
    | none => exact .throw _
  | func _ name params _ body =>
    obtain ⟨wants, result, t, -, -, -, -, bodyTyped, -⟩ := typed
    exact .pure (.cons (.routine names (.value bodyTyped)) names)
  | proc _ name params body =>
    obtain ⟨wants, -, -, -, bodyTyped⟩ := typed
    exact .pure (.cons (.routine names (.command bodyTyped)) names)
  | type =>
    exact .pure names
end

/-! ## Loops -/

section
variable {bound : Nat} {round again after : Run Bool} {i : Info} {test : Expr} {body pre post :
    Stmt}

/-- The first test of a loop that is gone has failed. -/
theorem whileDo_tracks
    (once : Tracks Eq round (do
      if ← truth (← expr calls' env' test) then
        stmt calls' bound env' body
        return true
      else return false) after) :
    Tracks Eq (rounds round bound) (stmt calls' bound env' (Prune.whileDo i test
      body).value)
      (rounds after (bound + 1)) := by
  refine choose_forall (fun s => Tracks Eq _ (stmt calls' bound env' s) _) (fun decided => ?_)
    (fun decided => ?_) fun _ => once.rounds bound
  · rw [test_decided decided] at once
    exact once.rounds bound
  · rw [test_decided decided] at once
    exact once.once (.pure _) bound

theorem repeatUntil_tracks
    (once : Tracks Eq round (do
      stmt calls' bound env' body
      return !(← truth (← expr calls' env' test))) after) (add : calls'.Add) :
    Tracks Eq (rounds round bound)
      (stmt calls' bound env' (Prune.repeatUntil i body test).value)
      (rounds after (bound + 1)) := by
  refine choose_forall (fun s => Tracks Eq _ (stmt calls' bound env' s) _) (fun decided => ?_)
    (fun decided => ?_) fun _ => once.rounds bound
  · simp only [test_decided decided] at once
    exact once.once (adds_stmt add bound env' body) bound
  · simp only [test_decided decided] at once
    exact once.rounds bound

theorem repeatWhile_tracks
    (once : Tracks Eq round (do
      stmt calls' bound env' body
      truth (← expr calls' env' test)) after) (add : calls'.Add) :
    Tracks Eq (rounds round bound)
      (stmt calls' bound env' (Prune.repeatWhile i body test).value)
      (rounds after (bound + 1)) := by
  have decides : ∀ {b}, Prune.decided? test = some b →
      (do truth (← expr calls' env' test)) = (pure b : Run Bool) := by
    intro b decided
    simpa using @test_decided calls' env' Bool test b decided pure
  refine choose_forall (fun s => Tracks Eq _ (stmt calls' bound env' s) _) (fun decided => ?_)
    (fun decided => ?_) fun _ => once.rounds bound
  · rw [decides decided] at once
    exact once.rounds bound
  · rw [decides decided] at once
    exact once.once (adds_stmt add bound env' body) bound

theorem loopWhile_tracks
    (once : Tracks Eq round (do
      stmt calls' bound env' pre
      if ← truth (← expr calls' env' test) then
        stmt calls' bound env' post
        return true
      else return false) after) (add : calls'.Add) :
    Tracks Eq (rounds round bound)
      (stmt calls' bound env' (Prune.loopWhile i pre test post).value)
      (rounds after (bound + 1)) := by
  refine choose_forall (fun s => Tracks Eq _ (stmt calls' bound env' s) _) (fun decided => ?_)
    (fun decided => ?_) fun _ => once.rounds bound
  · simp only [test_decided decided] at once
    rw [stmt, stmt, stmts, stmts, stmts]
    simpa using once.rounds bound
  · simp only [test_decided decided] at once
    exact once.once (adds_stmt add bound env' pre) bound

end

mutual
theorem stmt_tracks (track : calls.Track Body.Prunes calls' later) (bound : Nat) (c : Stmt)
    {types env env'} (names : Env.Alike Body.Prunes env env') (typed : Check.StmtTyped types c) :
    Tracks Eq (stmt calls bound env c) (stmt calls' bound env' (Prune.stmt c).value)
      (stmt later (bound + 1) env c) := by
  cases c with
  | assign _ target value =>
    obtain ⟨t, u, root, targetTyped, valueTyped, -, rooted, -⟩ := typed
    exact .andThen (expr_tracks track value names valueTyped) fun v =>
      (locate_tracks track target names targetTyped (by rw [rooted]; rfl)).place
        fun p => .refl (adds_write p v)
  | call _ decl name as =>
    obtain ⟨wants, b, -, -, argsTyped⟩ := typed
    have done : ∀ r : Option Value, Adds (pure () : Run Unit) := fun _ => .pure _
    exact (args_track track as names argsTyped).bind
      (fun _ _ related => track.named names related decl _ name done)
      (fun actuals => track.add.named env' actuals decl _ name done)
      fun actuals => track.addLater.named env actuals decl _ name done
  | seq _ ss =>
    simp only [Prune.stmt, Tally.value_bind, Prune.stmt_seq]
    exact stmts_track track bound ss names typed
  | letIn _ ds body =>
    obtain ⟨inner, declsTyped, bodyTyped⟩ := typed
    exact .inScope ((decls_track track ds names declsTyped).bind
      (fun _ _ found => stmt_tracks track bound body found bodyTyped)
      (fun env => adds_stmt track.add bound env _)
      fun env => adds_stmt track.addLater (bound + 1) env body)
  | ifThen _ test yes =>
    obtain ⟨⟨t, testTyped, -⟩, yesTyped⟩ := typed
    simp only [Prune.stmt, Tally.value_bind, Prune.stmt_ifThen]
    refine (expr_tracks track test names testTyped).test fun b => ?_
    cases b
    · exact .pure rfl
    · exact stmt_tracks track bound yes names yesTyped
  | ifElse _ test yes no =>
    obtain ⟨⟨t, testTyped, -⟩, yesTyped, noTyped⟩ := typed
    simp only [Prune.stmt, Tally.value_bind, Prune.stmt_ifElse]
    refine (expr_tracks track test names testTyped).test fun b => ?_
    cases b
    · exact stmt_tracks track bound no names noTyped
    · exact stmt_tracks track bound yes names yesTyped
  | whileDo _ test body =>
    obtain ⟨⟨t, testTyped, -⟩, bodyTyped⟩ := typed
    refine whileDo_tracks ((expr_tracks track test names testTyped).test fun b => ?_)
    cases b
    · exact .pure rfl
    · exact .andThen (stmt_tracks track bound body names bodyTyped) fun _ => .pure rfl
  | repeatUntil _ body test =>
    obtain ⟨bodyTyped, t, testTyped, -⟩ := typed
    exact repeatUntil_tracks (.andThen (stmt_tracks track bound body names bodyTyped) fun _ =>
      (expr_tracks track test names testTyped).test fun _ => .pure rfl) track.add
  | repeatWhile _ body test =>
    obtain ⟨bodyTyped, t, testTyped, -⟩ := typed
    exact repeatWhile_tracks (.andThen (stmt_tracks track bound body names bodyTyped) fun _ =>
      .andThen (expr_tracks track test names testTyped) fun v => .refl (holds_truth closed_adds v)) track.add
  | loopWhile _ pre test post =>
    obtain ⟨preTyped, ⟨t, testTyped, -⟩, postTyped⟩ := typed
    refine loopWhile_tracks (.andThen (stmt_tracks track bound pre names preTyped) fun _ =>
      (expr_tracks track test names testTyped).test fun b => ?_) track.add
    cases b
    · exact .pure rfl
    · exact .andThen (stmt_tracks track bound post names postTyped) fun _ => .pure rfl
  | forever _ body =>
    exact .rounds (.andThen (stmt_tracks track bound body names typed) fun _ => .pure rfl) bound
  | skip =>
    exact .pure rfl

theorem stmts_track (track : calls.Track Body.Prunes calls' later) (bound : Nat) (ss : List Stmt)
    {types env env'} (names : Env.Alike Body.Prunes env env') (typed : Check.StmtsTyped types ss) :
    Tracks Eq (stmts calls bound env ss) (stmts calls' bound env' (Prune.stmts ss).value)
      (stmts later (bound + 1) env ss) := by
  cases ss with
  | nil =>
    exact .pure rfl
  | cons c ss =>
    exact .andThen (stmt_tracks track bound c names typed.1) fun _ =>
      stmts_track track bound ss names typed.2
end

/-- Calls before and after pruning. -/
theorem call_prunes (bound : Nat) :
    Calls.Track Body.Prunes (call bound) (call bound) (call (bound + 1)) := by
  refine call_tracks (fun {bound _ _ _ _ _ _ _} track names inner => ?_) bound
  cases inner with
  | value typed => exact .andThen (expr_tracks track _ names typed) fun v => .pure rfl
  | command typed => exact .andThen (stmt_tracks track bound _ names typed) fun _ => .pure rfl

end Semantics
open Semantics

/-! ## Programs -/

namespace Program

/-- The program comes to its end, or stops, with this result. -/
def Ends (p : Program) (input : List UInt8) (result : EStateM.Result Stop State Unit) : Prop :=
  (∀ s, result ≠ .error .unfinished s) ∧ ∃ bound, p.evaluate bound input = result

/-- The program is unfinished under every bound. -/
def Diverges (p : Program) (input : List UInt8) : Prop :=
  ∀ bound, ∃ s, p.evaluate bound input = .error .unfinished s

/-- The program prints this first, whether it ends or not. -/
def Prints (p : Program) (input output : List UInt8) : Prop :=
  ∃ bound, output <+: (reached (p.evaluate bound input)).output

end Program

namespace Semantics

section
variable {x y : Run Unit} {s : State}

/-- What has ended stays as it is. -/
theorem Advances.ended {R : Unit → Unit → Prop} {result : EStateM.Result Stop State Unit}
    (advances : Advances R x y) (ended : x s = result) (finished : ∀ s,
      result ≠ .error .unfinished s) :
    y s = result := by
  subst ended
  cases done : x s with
  | ok a s' =>
    obtain ⟨b, same, -⟩ := advances.done _ _ _ done
    exact same
  | error stop s' =>
    refine advances.stopped _ _ _ done fun unfinished => ?_
    subst unfinished
    exact finished s' done

theorem Advances.unfinished_before {R : Unit → Unit → Prop} (advances : Advances R x y)
    (unfinished : ∃ s', y s = .error .unfinished s') : ∃ s', x s = .error .unfinished s' := by
  obtain ⟨s', later⟩ := unfinished
  by_contra finished
  have same := advances.ended rfl (not_exists.mp finished)
  exact finished ⟨s', same ▸ later⟩

theorem Advances.printed {R : Unit → Unit → Prop} (advances : Advances R x y) :
    (reached (x s)).output <+: (reached (y s)).output := by
  by_cases unfinished : ∃ s', x s = .error .unfinished s'
  · obtain ⟨s', cut⟩ := unfinished
    rw [cut]
    exact advances.cut _ _ cut
  · rw [advances.ended rfl (not_exists.mp unfinished)]

end
end Semantics

/-- Removing what decided tests exclude from an accepted program changes nothing of what the program
does: it ends or stops in the same state, runs forever or not, and prints the same. -/
theorem Program.prune_keeps_behaviour {p q : Program} (accepted : p.check = (q, []))
    (input : List UInt8) :
    (∀ result, q.prune.value.Ends input result ↔ q.Ends input result) ∧
      (q.prune.value.Diverges input ↔ q.Diverges input) ∧
      ∀ output, q.prune.value.Prints input output ↔ q.Prints input output := by
  have tracks : ∀ bound, Tracks Eq (stmt (call bound) bound .standard q.body)
      (stmt (call bound) bound .standard q.prune.value.body)
      (stmt (call (bound + 1)) (bound + 1) .standard q.body) :=
    fun bound => stmt_tracks (call_prunes bound) bound q.body .standard (check_typed accepted)
  refine ⟨fun result => ⟨?_, ?_⟩, ⟨?_, ?_⟩, fun output => ⟨?_, ?_⟩⟩
  · rintro ⟨finished, bound, ended⟩
    exact ⟨finished, bound + 1, (tracks bound).back.ended ended finished⟩
  · rintro ⟨finished, bound, ended⟩
    exact ⟨finished, bound, (tracks bound).forth.ended ended finished⟩
  · intro diverges bound
    exact (tracks bound).forth.unfinished_before (diverges bound)
  · intro diverges bound
    exact (tracks bound).back.unfinished_before (diverges (bound + 1))
  · rintro ⟨bound, printed⟩
    exact ⟨bound + 1, printed.trans (tracks bound).back.printed⟩
  · rintro ⟨bound, printed⟩
    exact ⟨bound, printed.trans (tracks bound).forth.printed⟩

/-- A procedure that calls itself behind a decided test, and loops of one round and of none. -/
def Program.decided : Program :=
  let say (n : Int) : Stmt := .call {} none "putint" [.value {} (.int {} n)]
  let never : Expr := .bool {} false
  ⟨.letIn {} [.proc {} "p" [] (.ifElse {} never (.call {} none "p" []) (say 1))]
    (.seq {} [.whileDo {} never (say 2), .repeatUntil {} (say 3) (.bool {} true),
      .loopWhile {} (.call {} none "p" []) never (say 4)])⟩

theorem Program.decided_keeps_behaviour :
    decided.check.1.prune.value.Ends [] (.ok () { output := [51, 49] }) ∧
      ¬ decided.check.1.prune.value.Diverges [] := by
  have accepted : decided.check = (decided.check.1, []) := rfl
  obtain ⟨ends, diverges, -⟩ := prune_keeps_behaviour accepted []
  refine ⟨(ends _).mpr ⟨fun s same => (by cases same), 1, rfl⟩, fun forever => ?_⟩
  obtain ⟨s, unfinished⟩ := diverges.mp forever 1
  cases (show decided.check.1.evaluate 1 [] = .ok () { output := [51, 49] } from rfl).symm.trans
    unfinished

end Triangle
