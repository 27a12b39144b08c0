import Mathlib
import Triangle.Optimize.Prune
import Triangle.Proofs.Optimize.Undecided
import Triangle.Proofs.Tree.Induction
import Triangle.Proofs.Typing.Replacing

/-! Pruning keeps a tree stable. A conditional that gives way to one of its branches gives way to an
expression of its own type, up to references. -/
namespace Triangle

namespace Optimize.Prune
open Check

variable {env : Env} {i : Info} {test test' : Expr} {body body' yes yes' no no' : Stmt}

/-! ## Decided tests -/

theorem becomes_condExpr {yes yes' no no' : Expr} (sound : env.IsSound)
    (first : Becomes env env test test') (second : Becomes env env yes yes')
    (third : Becomes env env no no') :
    Becomes env env (.cond i test yes no) (condExpr i.alone test' yes' no').value := by
  refine choose_forall (Becomes env env (.cond i test yes no)) (fun _ => ?_) (fun _ => ?_)
    fun _ => .cond (.alone i) first second third
  · refine second.branch rfl fun t stable => ?_
    obtain ⟨_, _, _, v, _, _, _, _, two, _, _, rfl, whole⟩ := expr_cond.mp stable
    obtain ⟨-, -, rfl, -⟩ := Expr.cond.inj whole
    exact ⟨v, two, (expr_typed sound two).2.1.deref.symm⟩
  · refine third.branch rfl fun t stable => ?_
    obtain ⟨_, _, _, v, _, w, _, _, _, three, same, rfl, whole⟩ := expr_cond.mp stable
    obtain ⟨-, -, -, rfl⟩ := Expr.cond.inj whole
    exact ⟨w, three, by rw [same, (expr_typed sound three).2.1.deref]⟩

theorem becomes_ifThen (first : Becomes env env test test') (second : StmtBecomes env env yes yes') :
    StmtBecomes env env (.ifThen i test yes) (ifThen i.alone test' yes').value := by
  refine choose_forall (StmtBecomes env env _) (fun _ stable => ?_) (fun _ _ => rfl)
    fun _ => .ifThen first second
  obtain ⟨_, _, _, _, _, two, whole⟩ := Check.stmt_ifThen.mp stable
  cases whole
  exact second two

theorem becomes_ifElse (first : Becomes env env test test') (second : StmtBecomes env env yes yes')
    (third : StmtBecomes env env no no') :
    StmtBecomes env env (.ifElse i test yes no) (ifElse i.alone test' yes' no').value := by
  refine choose_forall (StmtBecomes env env _) (fun _ stable => ?_) (fun _ stable => ?_)
    fun _ => .ifElse first second third
  · obtain ⟨_, _, _, _, _, _, two, _, whole⟩ := Check.stmt_ifElse.mp stable
    cases whole
    exact second two
  · obtain ⟨_, _, _, _, _, _, _, three, whole⟩ := Check.stmt_ifElse.mp stable
    cases whole
    exact third three

/-- A loop without its test. -/
theorem stable_forever (stable : StmtStable env body) : StmtStable env (.forever i body) :=
  stmt_forever.mpr ⟨body, stable, rfl⟩

theorem becomes_whileDo (first : Becomes env env test test')
    (second : StmtBecomes env env body body') :
    StmtBecomes env env (.whileDo i test body) (whileDo i.alone test' body').value := by
  refine choose_forall (StmtBecomes env env _) (fun _ stable => ?_) (fun _ _ => rfl)
    fun _ => .whileDo first second
  obtain ⟨_, _, _, _, _, two, whole⟩ := stmt_whileDo.mp stable
  cases whole
  exact stable_forever (second two)

theorem becomes_repeatUntil (first : StmtBecomes env env body body')
    (second : Becomes env env test test') :
    StmtBecomes env env (.repeatUntil i body test) (repeatUntil i.alone body' test').value := by
  have inside : StmtStable env (.repeatUntil i body test) → StmtStable env body' := by
    intro stable
    obtain ⟨_, _, _, one, _, _, whole⟩ := stmt_repeatUntil.mp stable
    cases whole
    exact first one
  exact choose_forall (StmtBecomes env env _) (fun _ => inside)
    (fun _ stable => stable_forever (inside stable)) fun _ => .repeatUntil first second

theorem becomes_repeatWhile (first : StmtBecomes env env body body')
    (second : Becomes env env test test') :
    StmtBecomes env env (.repeatWhile i body test) (repeatWhile i.alone body' test').value := by
  have inside : StmtStable env (.repeatWhile i body test) → StmtStable env body' := by
    intro stable
    obtain ⟨_, _, _, one, _, _, whole⟩ := stmt_repeatWhile.mp stable
    cases whole
    exact first one
  exact choose_forall (StmtBecomes env env _) (fun _ stable => stable_forever (inside stable))
    (fun _ => inside) fun _ => .repeatWhile first second

theorem becomes_loopWhile {pre pre' post post' : Stmt} (first : StmtBecomes env env pre pre')
    (second : Becomes env env test test') (third : StmtBecomes env env post post') :
    StmtBecomes env env (.loopWhile i pre test post)
      (loopWhile i.alone pre' test' post').value := by
  refine choose_forall (StmtBecomes env env _) (fun _ stable => ?_) (fun _ stable => ?_)
    fun _ => .loopWhile first second third
  · obtain ⟨_, _, _, _, one, _, _, three, whole⟩ := stmt_loopWhile.mp stable
    cases whole
    exact stable_forever (Check.stmt_seq.mpr ⟨_, stmts_cons.mpr ⟨pre', _, first one,
      stmts_cons.mpr ⟨post', [], third three, by simp only [Check.stmts], rfl⟩, rfl⟩, rfl⟩)
  · obtain ⟨_, _, _, _, one, _, _, _, whole⟩ := stmt_loopWhile.mp stable
    cases whole
    exact first one

/-! ## Sequences -/

theorem stmts_filter_stable (keep : Stmt → Bool) {ss : List Stmt}
    (stable : Check.stmts env ss = (ss, [])) :
    Check.stmts env (ss.filter keep) = (ss.filter keep, []) := by
  induction ss with
  | nil => exact stable
  | cons s ss ih =>
    obtain ⟨_, _, head, tail, whole⟩ := stmts_cons.mp stable
    cases whole
    rw [List.filter_cons]
    split
    · exact stmts_cons.mpr ⟨s, _, head, ih tail, rfl⟩
    · exact ih tail

theorem becomes_seq {ss ss' : List Stmt} (each : List.Forall₂ (StmtBecomes env env) ss ss') :
    StmtBecomes env env (.seq i ss) (seq i.alone ss').value := by
  intro stable
  obtain ⟨_, inner, whole⟩ := Check.stmt_seq.mp stable
  cases whole
  have kept := stmts_filter_stable (fun s => !isSkip s) (StmtBecomes.stmts each inner)
  unfold seq
  simp only
  generalize ss'.filter (fun s => !isSkip s) = kept' at kept
  split
  · rfl
  · obtain ⟨_, _, head, _, whole⟩ := stmts_cons.mp kept
    cases whole
    exact head
  · exact Check.stmt_seq.mpr ⟨_, kept, rfl⟩

/-! ## The tree -/

theorem tree_becomes : Everywhere (fun e => ∀ env, env.IsSound → Becomes env env e (expr e).value)
    (fun fields => ∀ env, env.IsSound → List.Forall₂ (fun f f' => f'.1 = f.1 ∧ Becomes env env f.2 f'.2)
      fields (fieldExprs fields).value)
    (fun es => ∀ env, env.IsSound → List.Forall₂ (Becomes env env) es (exprs es).value)
    (fun ds => ∀ env, env.IsSound → DeclsStable env ds → DeclsBecome env env ds (decls ds).value)
    (fun d => ∀ env, env.IsSound → DeclBecomes env env d (decl d).value)
    (fun s => ∀ env, env.IsSound → StmtBecomes env env s (stmt s).value)
    (fun ss => ∀ env, env.IsSound → List.Forall₂ (StmtBecomes env env) ss (stmts ss).value)
    (fun as => ∀ env, env.IsSound → List.Forall₂ (ArgBecomes env env) as (args as).value)
    fun a => ∀ env, env.IsSound → ArgBecomes env env a (arg a).value := by
  apply tree_induction
  case letIn => -- the blocks
    intro i ds body first second env sound
    exact .letIn (.alone i) (first _ sound.enterBlock) fun declared =>
      second _ (decls_typed sound.enterBlock declared).2
  case letStmt =>
    intro i ds body first second env sound
    exact .letIn (first _ sound.enterBlock) fun declared =>
      second _ (decls_typed sound.enterBlock declared).2
  case func => -- the routines
    intro i name params result body inner env sound
    exact .func (.alone i) (.same (.refl env) params) (.same (.refl env) result)
      fun _ stable formals => inner _ (sound.inside stable formals)
  case proc =>
    intro i name params body inner env sound
    exact .proc (.alone i) (.same (.refl env) params)
      fun _ stable formals => inner _ (sound.inside stable formals)
  case decls =>
    intro d ds first later env sound stable
    obtain ⟨head, tail⟩ := declsStable_cons.mp stable
    exact .cons (first _ sound) (fun _ => later _ (decl_typed sound head).2 tail) head
  all_goals
    intros
    simp [expr, fieldExprs, exprs, decls, decl, stmt, stmts, args, arg, Env.Widens.refl, becomes_condExpr,
      becomes_ifThen, becomes_ifElse, becomes_whileDo, becomes_repeatUntil, becomes_repeatWhile,
      becomes_loopWhile, becomes_seq, *]

end Optimize.Prune

theorem Program.prune_stable {p : Program} (stable : Check.StmtStable .standard p.body) :
    Check.StmtStable .standard p.prune.value.body :=
  Optimize.Prune.tree_becomes.stmt p.body _ .standard stable

end Triangle
