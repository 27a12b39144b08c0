import Mathlib
import Triangle.Proofs.Typing.Nodes

/-! What is assigned to, or passed to be assigned to, is a variable. -/
namespace Triangle

/-- What the name at the root of a variable such as `a[i].f` is bound to. -/
def Expr.rootSlot? : Expr → Option Binding
  | .ident _ slot _ => slot
  | .subscript _ base _ => base.rootSlot?
  | .select _ base _ => base.rootSlot?
  | _ => none

/-- What the node writes to, or lets a routine write to. -/
def Node.target? : Node → Option Expr
  | .stmt (.assign _ target _) => some target
  | .arg (.var _ target) => some target
  | _ => none

/-- The binding of a variable or a variable parameter. -/
def Node.variable? : Node → Option Binding
  | .decl (.var i name s) => some (Decl.var i name s).binding
  | .param (.var i name s) => some (Param.var i name s).binding
  | _ => none

namespace Check

/-- The root of an accepted variable is bound to what the environment has under its name. -/
theorem root_slot {env : Env} {e : Expr} {t : Ty} {root : String} (stable : ExprStable env e t)
    (same : e.root? = some root) :
    ∃ u b, env.terms.lookup? root = some (.typed u b) ∧ e.rootSlot? = some b := by
  cases e with
  | ident i slot name =>
    obtain ⟨_, b, found, whole⟩ := expr_ident.mp stable
    obtain ⟨-, rfl, -⟩ := Expr.ident.inj whole
    cases same
    exact ⟨t, b, found, rfl⟩
  | subscript i array index =>
    obtain ⟨_, _, _, _, _, _, _, first, _, _, _, _, whole⟩ := expr_subscript.mp stable
    obtain ⟨-, rfl, -⟩ := Expr.subscript.inj whole
    exact root_slot (e := array) first same
  | select i record field =>
    obtain ⟨_, _, _, _, _, _, first, _, _, _, whole⟩ := expr_select.mp stable
    obtain ⟨-, rfl, -⟩ := Expr.select.inj whole
    exact root_slot (e := record) first same
  | _ => cases same

/-- The target of an accepted node has a root that is not constant where the node stands. -/
theorem target_root {env : Env} {n : Node} {target : Expr} (stable : n.Stable env)
    (writes : n.target? = some target) : ∃ t root, ExprStable env target t ∧
      target.root? = some root ∧ env.terms.isConst root = false := by
  cases n with
  | stmt s =>
    cases s <;> cases writes
    obtain ⟨_, t, _, _, root, first, _, _, named, assignable, whole⟩ := stmt_assign.mp stable
    obtain ⟨-, rfl, -⟩ := Stmt.assign.inj whole
    exact ⟨t, root, first, named, assignable⟩
  | arg a =>
    obtain ⟨callee, index, want, stable⟩ := stable
    cases a <;> cases writes
    obtain ⟨_, _, t, root, _, first, _, named, assignable, whole⟩ := arg_var.mp stable
    obtain ⟨-, rfl⟩ := Arg.var.inj whole
    exact ⟨t, root, first, named, assignable⟩
  | expr | decl | param | sig => cases writes

/-- What can be assigned to is brought into scope by a variable. -/
theorem Enters.variable {v : Node} {x : String} {e : Scope.Entry Meaning} (enters : Enters v x e)
    (assignable : e.constant = false) : v.variable? = some e.value.decl := by
  cases v with
  | decl d =>
    obtain ⟨_, _, t, rfl⟩ := enters
    cases d <;> simp [Decl.kind] at assignable
    rfl
  | param p =>
    obtain ⟨_, t, rfl⟩ := enters
    cases p <;> simp [Param.kind] at assignable
    rfl
  | expr | stmt | arg | sig => cases enters

theorem standard_constant {x : String} {e : Scope.Entry Meaning}
    (found : Env.standard.terms.bound? x = some e) : e.constant = true := by
  rw [Scope.Table.bound?, terms_standard, Option.map_map] at found
  obtain ⟨m, _, rfl⟩ := Option.map_eq_some_iff.mp found
  rfl

end Check

/-- In an accepted program the root of everything that is assigned to, or passed as a variable, is
bound to a variable or a variable parameter of the program. -/
theorem Program.targets_are_variables {p q : Program} (accepted : p.check = (q, [])) :
    ∀ n ∈ q.nodes, ∀ target, n.target? = some target →
      ∃ v ∈ q.nodes, ∃ b, v.variable? = some b ∧ target.rootSlot? = some b := by
  intro n member target writes
  obtain ⟨env, within, stable⟩ := Program.within_stable accepted member
  obtain ⟨t, root, checked, named, assignable⟩ := Check.target_root stable writes
  obtain ⟨u, b, found, slot⟩ := Check.root_slot checked named
  rw [Scope.Table.lookup?_eq_bound?] at found
  obtain ⟨e, known, same⟩ := Option.map_eq_some_iff.mp found
  have loose : e.constant = false := by
    simpa [Scope.Table.isConst_eq_bound?, known] using assignable
  rcases within.entry known with standard | ⟨v, inside, enters⟩
  · cases loose.symm.trans (Check.standard_constant standard)
  · refine ⟨v, inside, b, ?_, slot⟩
    rw [enters.variable loose, same]
    rfl

/-- A variable that a constant and a parameter of the same name hide, and one that hides a constant. -/
def Program.veiled : Program :=
  let integer : Sig := .named {} "Integer"
  let name (x : String) : Expr := .ident {} none x
  let set : Decl := .proc {} "set" [.var {} "r" integer, .value {} "x" integer]
    (.letIn {} [.const {} "y" (name "x")] (.assign {} (name "r") (name "y")))
  ⟨.letIn {} [.var {} "x" (.array {} 2 (.record {} [("n", integer)])), set,
      .const {} "y" (.int {} 1)]
    (.seq {} [.call {} none "set"
        [.var {} (.select {} (.subscript {} (name "x") (name "y")) "n"), .value {} (name "y")],
      .letIn {} [.var {} "y" integer] (.assign {} (name "y") (.int {} 2))])⟩

theorem Program.veiled_targets :
    (veiled.check.1.nodes.filterMap Node.target?).map Expr.rootSlot? =
      [some (.declared .varParam "r" {}), some (.declared .var "x" {}),
        some (.declared .var "y" {})] ∧
    ∀ n ∈ veiled.check.1.nodes, ∀ target, n.target? = some target →
      ∃ v ∈ veiled.check.1.nodes, ∃ b, v.variable? = some b ∧ target.rootSlot? = some b :=
  have accepted : veiled.check.2 = [] := by cbv
  ⟨by cbv, targets_are_variables (p := veiled) (Prod.ext rfl accepted)⟩

end Triangle
