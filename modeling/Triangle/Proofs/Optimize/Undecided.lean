import Mathlib
import Triangle.Optimize.Prune
import Triangle.Proofs.Optimize.Literals
import Triangle.Proofs.Tree.Children
import Triangle.Proofs.Tree.Induction

/-! What pruning leaves. No test that it has passed is a literal. A second run only cleans up the
sequences that the first has made of loops, and a third finds nothing to do. -/
namespace Triangle
open List

namespace Node

/-- The test of a conditional or a loop. -/
def guard? : Node → Option Expr
  | expr (.cond _ test _ _) | stmt (.ifThen _ test _) | stmt (.ifElse _ test _ _)
  | stmt (.whileDo _ test _) | stmt (.repeatUntil _ _ test) | stmt (.repeatWhile _ _ test)
  | stmt (.loopWhile _ _ test _) => some test
  | _ => none

/-- The node has no literal as its test. -/
def Undecided (n : Node) : Prop := ∀ i value, n.guard? ≠ some (.bool i value)

end Node

namespace Optimize

@[simp] theorem Tally.pure_bind {α β : Type} (a : α) (f : α → Tally β) :
    (pure a >>= f : Tally β) = f a := by
  simp [bind, pure]

namespace Prune

/-! ## Tests -/

theorem choose_forall {α : Type} (holds : α → Prop) {test : Expr} {yes no left : α}
    (first : decided? test = some true → holds yes) (second : decided? test = some false → holds no)
    (third : decided? test = none → holds left) : holds (choose test yes no left).value := by
  unfold choose
  split
  · rename_i decided
    exact first decided
  · rename_i decided
    exact second decided
  · rename_i undecided
    exact third undecided

theorem ne_bool_of_undecided {test : Expr} (undecided : decided? test = none) (i : Info) (value : Bool) :
    test ≠ .bool i value := by
  rintro rfl
  cases undecided

/-! ## One run -/

/-- None of the nodes has a literal as its test. -/
def Open (ns : List Node) : Prop := ∀ n ∈ ns, n.Undecided

@[simp] theorem open_nil : Open [] := by simp [Open]

@[simp] theorem open_cons {n : Node} {ns : List Node} : Open (n :: ns) ↔ n.Undecided ∧ Open ns :=
  forall_mem_cons

@[simp] theorem open_append {ns ms : List Node} : Open (ns ++ ms) ↔ Open ns ∧ Open ms :=
  forall_mem_append

theorem undecided_of_guard {n : Node} {test : Expr} (guarded : n.guard? = some test)
    (undecided : decided? test = none) : n.Undecided := by
  intro i value same
  exact ne_bool_of_undecided undecided i value (Option.some.inj (guarded.symm.trans same))

theorem open_choose {test : Expr} {yes no left : Stmt} {below : List Node} (first : Open yes.nodes)
    (second : Open no.nodes) (guarded : (Node.stmt left).guard? = some test)
    (nodes : left.nodes = .stmt left :: below) (inner : Open below) :
    Open (choose test yes no left).value.nodes := by
  refine choose_forall (fun s : Stmt => Open s.nodes) (fun _ => first) (fun _ => second) fun undecided => ?_
  rw [nodes]
  exact open_cons.mpr ⟨undecided_of_guard guarded undecided, inner⟩

theorem open_sig (s : Sig) : Open s.nodes := Node.forall_sig (by simp [Node.Undecided, Node.guard?]) s

theorem open_params (ps : List Param) : Open (Param.listNodes ps) :=
  Node.forall_params (by simp [Node.Undecided, Node.guard?]) (by simp [Node.Undecided, Node.guard?]) ps

theorem open_stmts {ss : List Stmt} : Open (Stmt.listNodes ss) ↔ ∀ s ∈ ss, Open s.nodes := by
  induction ss with
  | nil => simp [Stmt.listNodes]
  | cons s ss ih => simp [Stmt.listNodes, ih]

theorem open_loop {s : Stmt} (i : Info) (inner : Open s.nodes) : Open (Stmt.forever i s).nodes := by
  simp [Stmt.nodes, Node.Undecided, Node.guard?, inner]

theorem open_skip (i : Info) : Open (Stmt.skip i).nodes := by
  simp [Stmt.nodes, Node.Undecided, Node.guard?]

/-- What a sequence is cleaned up to is nothing, one of its commands, or a sequence of some. -/
theorem seq_forall (holds : Stmt → Prop) {i : Info} {ss : List Stmt} (none : holds (.skip i))
    (one : ∀ s ∈ ss, holds s)
    (more : ∀ kept : List Stmt, kept ⊆ ss → (seq i kept) = pure (.seq i kept) → holds (.seq i kept)) :
    holds (seq i ss).value := by
  have inside : ss.filter (fun s => !isSkip s) ⊆ ss := filter_subset_self _
  have again : (ss.filter fun s => !isSkip s).filter (fun s => !isSkip s) =
      ss.filter fun s => !isSkip s := by simp
  unfold seq
  dsimp only
  generalize ss.filter (fun s => !isSkip s) = kept at inside again
  split
  · exact none
  · exact one _ (inside mem_cons_self)
  · rename_i several single
    refine more kept inside ?_
    simp only [seq, again, Nat.sub_self]
    rfl

theorem open_seq {i : Info} {ss : List Stmt} (each : ∀ s ∈ ss, Open s.nodes) :
    Open (seq i ss).value.nodes := by
  refine seq_forall (fun s => Open s.nodes) (open_skip i) each fun kept inside _ => ?_
  simpa [Stmt.nodes, Node.Undecided, Node.guard?, open_stmts] using fun s member => each s (inside member)

theorem open_tree : Everywhere (fun e => Open (expr e).value.nodes)
    (fun fields => Open (Expr.fieldNodes (fieldExprs fields).value))
    (fun es => Open (Expr.listNodes (exprs es).value))
    (fun ds => Open (Decl.listNodes (decls ds).value))
    (fun d => Open (decl d).value.nodes)
    (fun s => Open (stmt s).value.nodes)
    (fun ss => Open (Stmt.listNodes (stmts ss).value))
    (fun as => Open (Arg.listNodes (args as).value))
    fun a => Open (arg a).value.nodes := by
  apply tree_induction
  case cond =>
    intro i test yes no first second third
    refine choose_forall (fun e : Expr => Open e.nodes) (fun _ => second) (fun _ => third) fun undecided => ?_
    exact open_cons.mpr ⟨undecided_of_guard rfl undecided, by simp [first, second, third]⟩
  case seq =>
    intro i ss each
    exact open_seq (open_stmts.mp each)
  case ifThen => -- conditional commands and loops
    intro i test yes first second
    exact open_choose second (open_skip _) rfl rfl (by simp [first, second])
  case ifElse =>
    intro i test yes no first second third
    exact open_choose second third rfl rfl (by simp [first, second, third])
  case whileDo =>
    intro i test body first second
    exact open_choose (open_loop _ second) (open_skip _) rfl rfl (by simp [first, second])
  case repeatUntil =>
    intro i body test first second
    exact open_choose first (open_loop _ first) rfl rfl (by simp [first, second])
  case repeatWhile =>
    intro i body test first second
    exact open_choose (open_loop _ first) first rfl rfl (by simp [first, second])
  case loopWhile =>
    intro i pre test post first second third
    have both : Open (Stmt.seq i.alone [(stmt pre).value, (stmt post).value]).nodes := by
      simp [Stmt.nodes, Stmt.listNodes, Node.Undecided, Node.guard?, first, third]
    exact open_choose (open_loop _ both) first rfl rfl (by simp [first, second, third])
  all_goals
    simp +contextual [expr, Expr.nodes, fieldExprs, Expr.fieldNodes, exprs, Expr.listNodes, decls,
      Decl.listNodes, decl, Decl.nodes, stmt, Stmt.nodes, stmts, Stmt.listNodes, args, Arg.listNodes, arg,
      Arg.nodes, Node.Undecided, Node.guard?, open_sig, open_params]

/-! ## Further runs -/

/-- Pruning leaves the command as it is. -/
def Settled (s : Stmt) : Prop := stmt s = pure s

/-- One run of pruning settles the command. -/
def Nearly (s : Stmt) : Prop := Settled (stmt s).value

/-- One run of pruning settles the expression, which is then a literal only if it was one. -/
@[mk_iff]
structure NearlyExpr (e : Expr) : Prop where
  settled : expr (expr e).value = pure (expr e).value
  decided : decided? (expr e).value = decided? e

theorem settled_stmts {ss : List Stmt} (each : ∀ s ∈ ss, Settled s) : stmts ss = pure ss := by
  induction ss with
  | nil => rfl
  | cons s ss ih =>
    rw [forall_mem_cons] at each
    rw [stmts, each.1, ih each.2]
    simp

theorem value_stmts (ss : List Stmt) : (stmts ss).value = ss.map fun s => (stmt s).value := by
  induction ss with
  | nil => rfl
  | cons s ss ih => simp [stmts, ih]

/-- A sequence of settled commands is settled by cleaning it up. -/
theorem settled_seq {i : Info} {ss : List Stmt} (lone : i.alone = i) (each : ∀ s ∈ ss, Settled s) :
    Settled (seq i ss).value := by
  refine seq_forall Settled ?_ each fun kept inside clean => ?_
  · rw [Settled, stmt, lone]
  · rw [Settled, stmt, settled_stmts fun s member => each s (inside member), Tally.pure_bind, lone, clean]

theorem nearly_seq {i : Info} {ss : List Stmt} (lone : i.alone = i) (each : ∀ s ∈ ss, Nearly s) :
    Nearly (.seq i ss) := by
  have cleaned : (stmt (.seq i ss)).value = (seq i (ss.map fun s => (stmt s).value)).value := by
    rw [stmt, Tally.value_bind, value_stmts, lone]
  rw [Nearly, cleaned]
  exact settled_seq lone (forall_mem_map.mpr each)

theorem nearly_forever {i : Info} {body : Stmt} (lone : i.alone = i) (inner : Nearly body) :
    Nearly (.forever i body) := by
  have inner : stmt (stmt body).value = pure (stmt body).value := inner
  simp [Nearly, Settled, stmt, inner, lone]

theorem nearly_skip (i : Info) : Nearly (.skip i) := by
  simp [Nearly, Settled, stmt, Info.alone]

@[simp] theorem alone_alone (i : Info) : i.alone.alone = i.alone := rfl

theorem nearly_tree : Everywhere (fun e => NearlyExpr (expr e).value)
    (fun fields => fieldExprs (fieldExprs (fieldExprs fields).value).value =
      pure (fieldExprs (fieldExprs fields).value).value)
    (fun es => exprs (exprs (exprs es).value).value = pure (exprs (exprs es).value).value)
    (fun ds => decls (decls (decls ds).value).value = pure (decls (decls ds).value).value)
    (fun d => decl (decl (decl d).value).value = pure (decl (decl d).value).value)
    (fun s => Nearly (stmt s).value)
    (fun ss => ∀ s ∈ (stmts ss).value, Nearly s)
    (fun as => args (args (args as).value).value = pure (args (args as).value).value)
    fun a => arg (arg (arg a).value).value = pure (arg (arg a).value).value := by
  apply tree_induction
  case cond =>
    intro i test yes no first second third
    refine choose_forall NearlyExpr (fun _ => second) (fun _ => third) fun undecided => ?_
    constructor
    · simp [expr, condExpr, choose, first.settled, first.decided, undecided, second.settled, third.settled]
    · simp only [expr, condExpr, choose, Tally.value_bind, first.decided, undecided]
      rfl
  case seq =>
    intro i ss each
    exact seq_forall Nearly (nearly_skip _) each fun kept inside _ =>
      nearly_seq rfl fun s member => each s (inside member)
  case ifThen => -- conditional commands and loops
    intro i test yes first second
    refine choose_forall Nearly (fun _ => second) (fun _ => nearly_skip _) fun undecided => ?_
    simp_all [Nearly, Settled, stmt, ifThen, choose, first.settled, first.decided]
  case ifElse =>
    intro i test yes no first second third
    refine choose_forall Nearly (fun _ => second) (fun _ => third) fun undecided => ?_
    simp_all [Nearly, Settled, stmt, ifElse, choose, first.settled, first.decided]
  case whileDo =>
    intro i test body first second
    refine choose_forall Nearly (fun _ => nearly_forever rfl second) (fun _ => nearly_skip _)
      fun undecided => ?_
    simp_all [Nearly, Settled, stmt, whileDo, choose, first.settled, first.decided]
  case repeatUntil =>
    intro i body test first second
    refine choose_forall Nearly (fun _ => first) (fun _ => nearly_forever rfl first) fun undecided => ?_
    simp_all [Nearly, Settled, stmt, repeatUntil, choose, second.settled, second.decided]
  case repeatWhile =>
    intro i body test first second
    refine choose_forall Nearly (fun _ => nearly_forever rfl first) (fun _ => first) fun undecided => ?_
    simp_all [Nearly, Settled, stmt, repeatWhile, choose, second.settled, second.decided]
  case loopWhile =>
    intro i pre test post first second third
    have both : Nearly (.seq i.alone [(stmt pre).value, (stmt post).value]) :=
      nearly_seq rfl (by simp [first, third])
    refine choose_forall Nearly (fun _ => nearly_forever rfl both) (fun _ => first) fun undecided => ?_
    simp_all [Nearly, Settled, stmt, loopWhile, choose, second.settled, second.decided]
  case forever => exact fun i body inner => nearly_forever rfl inner
  case stmts => exact fun s ss first rest => forall_mem_cons.mpr ⟨first, rest⟩
  all_goals
    simp +contextual [expr, fieldExprs, exprs, decls, decl, stmt, stmts, args, arg, Nearly, Settled,
      nearlyExpr_iff, decided?]

end Prune
end Optimize

open Optimize Optimize.Prune

/-- Pruning leaves no test that is a literal, and what a second run leaves is left as it is by a
third, which counts no removal. -/
theorem Program.prune_settles (p : Program) :
    (∀ n ∈ p.prune.value.nodes, n.Undecided) ∧
      p.prune.value.prune.value.prune = { value := p.prune.value.prune.value, count := 0 } := by
  have settled : stmt (stmt (stmt p.body).value).value = pure (stmt (stmt p.body).value).value :=
    nearly_tree.stmt p.body
  refine ⟨open_tree.stmt p.body, ?_⟩
  simp only [Program.prune, Tally.value_bind, Tally.value_pure, settled, Tally.pure_bind]
  rfl

/-- A loop whose test is true, before a loop whose test is not known. -/
def Program.endless : Program :=
  ⟨.loopWhile {} (.skip {}) (.bool {} true) (.whileDo {} (.ident {} none "x") (.skip {}))⟩

/-- The sequence that the first run makes of the outer loop is cleaned up by the second. -/
theorem Program.endless_settles :
    endless.prune.value.body = .forever {} (.seq {} [.skip {}, .whileDo {} (.ident {} none "x") (.skip {})]) ∧
      endless.prune.value.prune.count = 1 ∧
      (Node.stmt (.whileDo {} (.ident {} none "x") (.skip {}))).Undecided := by
  refine ⟨rfl, rfl, (prune_settles endless).1 _ ?_⟩
  simp [endless, Program.prune, Program.nodes, stmt, loopWhile, whileDo, Prune.choose, expr, decided?,
    Stmt.nodes, Stmt.listNodes, Info.alone]

end Triangle
