import Mathlib
import Triangle.Proofs.Typing.Nodes

/-! In a tree that checking leaves as it is, no slot is empty. -/
namespace Triangle

def Node.isCommand : Node → Bool
  | .stmt _ => true
  | _ => false

/-- The node has a type unless it is a command, and what it names is bound. -/
def Node.Annotated (n : Node) : Prop :=
  (n.isCommand = false → n.info.ty.isSome) ∧ ∀ slot ∈ n.slot?, slot.isSome

instance (n : Node) : Decidable n.Annotated := inferInstanceAs (Decidable (_ ∧ _))

/-- Every expression, argument, parameter, signature and declaration has a type, and every node that
names something is bound. -/
def Program.Annotated (p : Program) : Prop := ∀ n ∈ p.nodes, n.Annotated

instance (p : Program) : Decidable p.Annotated := inferInstanceAs (Decidable (∀ n ∈ p.nodes, _))

variable {n : Node} {t : Ty}

/-- A node that names nothing, with its type in its slot. -/
theorem Node.annotated_of_eq (same : n.info = n.info.setTy t)
    (unnamed : n.slot? = none) : n.Annotated :=
  ⟨fun _ => by simp [Info.ty_of_eq_setTy same], by simp [unnamed]⟩

/-- A node that names something, with its type and what it is bound to in its slots. -/
theorem Node.annotated_of_bound {b : Binding} (same : n.info = n.info.setTy t)
    (bound : n.slot? = some (some b)) : n.Annotated :=
  ⟨fun _ => by simp [Info.ty_of_eq_setTy same], by simp [bound]⟩

theorem Node.annotated_of_command (command : n.isCommand = true)
    (unnamed : n.slot? = none) : n.Annotated :=
  ⟨fun other => by simp [command] at other, by simp [unnamed]⟩

variable {env : Env}

namespace Check

theorem expr_annotated {e : Expr} (stable : ExprStable env e t) : (Node.expr e).Annotated := by
  cases e with
  | int i value =>
    obtain ⟨_, _, _, whole⟩ := expr_int.mp stable
    exact Node.annotated_of_eq (Expr.int.inj whole).1 rfl
  | char i value =>
    obtain ⟨_, whole⟩ := expr_char.mp stable
    exact Node.annotated_of_eq (Expr.char.inj whole).1 rfl
  | bool i value =>
    obtain ⟨_, whole⟩ := expr_bool.mp stable
    exact Node.annotated_of_eq (Expr.bool.inj whole).1 rfl
  | ident i decl name =>
    obtain ⟨_, _, _, whole⟩ := expr_ident.mp stable
    obtain ⟨info, rfl, -⟩ := Expr.ident.inj whole
    exact Node.annotated_of_bound info rfl
  | subscript i array index =>
    obtain ⟨_, _, _, _, _, _, _, _, _, _, _, _, whole⟩ := expr_subscript.mp stable
    exact Node.annotated_of_eq (Expr.subscript.inj whole).1 rfl
  | select i record field =>
    obtain ⟨_, _, _, _, _, _, _, _, _, _, whole⟩ := expr_select.mp stable
    exact Node.annotated_of_eq (Expr.select.inj whole).1 rfl
  | unary i decl op operand =>
    obtain ⟨_, _, _, _, _, _, _, _, whole⟩ := expr_unary.mp stable
    obtain ⟨info, rfl, -⟩ := Expr.unary.inj whole
    exact Node.annotated_of_bound info rfl
  | binary i decl op left right =>
    obtain ⟨_, _, _, _, _, _, _, _, _, whole⟩ := expr_binary.mp stable
    obtain ⟨info, rfl, -⟩ := Expr.binary.inj whole
    exact Node.annotated_of_bound info rfl
  | call i decl name as =>
    obtain ⟨_, _, _, _, _, _, _, whole⟩ := expr_call.mp stable
    obtain ⟨info, rfl, -⟩ := Expr.call.inj whole
    exact Node.annotated_of_bound info rfl
  | cond i test yes no =>
    obtain ⟨_, _, _, _, _, _, _, _, _, _, _, _, whole⟩ := expr_cond.mp stable
    exact Node.annotated_of_eq (Expr.cond.inj whole).1 rfl
  | letIn i ds body =>
    obtain ⟨_, _, _, _, _, _, _, whole⟩ := expr_letIn.mp stable
    exact Node.annotated_of_eq (Expr.letIn.inj whole).1 rfl
  | array i elems =>
    cases elems with
    | nil => simp [ExprStable, expr] at stable
    | cons e es =>
      obtain ⟨_, _, _, _, _, _, whole⟩ := expr_array.mp stable
      exact Node.annotated_of_eq (Expr.array.inj whole).1 rfl
  | record i fields =>
    obtain ⟨_, _, _, _, whole⟩ := expr_record.mp stable
    exact Node.annotated_of_eq (Expr.record.inj whole).1 rfl

theorem stmt_annotated {s : Stmt} (stable : StmtStable env s) : (Node.stmt s).Annotated := by
  cases s with
  | call i decl name as =>
    obtain ⟨_, _, _, _, _, _, whole⟩ := stmt_call.mp stable
    obtain ⟨-, rfl, -⟩ := Stmt.call.inj whole
    exact ⟨fun other => by simp [Node.isCommand] at other, by simp [Node.slot?]⟩
  | _ => exact Node.annotated_of_command rfl rfl

theorem decl_annotated {d : Decl} (stable : DeclStable env d) : (Node.decl d).Annotated := by
  cases d with
  | const i name value =>
    obtain ⟨_, _, _, _, whole, _⟩ := decl_const.mp stable
    exact Node.annotated_of_eq (Decl.const.inj whole).1 rfl
  | var i name s =>
    obtain ⟨_, _, _, _, whole, _⟩ := decl_var.mp stable
    exact Node.annotated_of_eq (Decl.var.inj whole).1 rfl
  | type i name s =>
    obtain ⟨_, _, _, _, whole, _⟩ := decl_type.mp stable
    exact Node.annotated_of_eq (Decl.type.inj whole).1 rfl
  | func i name ps result body =>
    obtain ⟨_, _, _, _, _, _, _, _, _, whole, _⟩ := decl_func.mp stable
    exact Node.annotated_of_eq (Decl.func.inj whole).1 rfl
  | proc i name ps body =>
    obtain ⟨_, _, _, _, _, whole, _⟩ := decl_proc.mp stable
    exact Node.annotated_of_eq (Decl.proc.inj whole).1 rfl

theorem param_annotated {p : Param}
    (stable : Check.param env p = ⟨p, .ok t, []⟩) : (Node.param p).Annotated := by
  cases p with
  | value i name s =>
    obtain ⟨_, _, whole⟩ := param_value.mp stable
    exact Node.annotated_of_eq (Param.value.inj whole).1 rfl
  | var i name s =>
    obtain ⟨_, _, _, _, whole⟩ := param_var.mp stable
    exact Node.annotated_of_eq (Param.var.inj whole).1 rfl
  | func i name ps result =>
    obtain ⟨_, _, _, _, _, _, _, whole⟩ := param_func.mp stable
    exact Node.annotated_of_eq (Param.func.inj whole).1 rfl

theorem arg_annotated {a : Arg} {callee : String} {index : Nat} {want : Ty}
    (stable : Check.arg env callee index want a = ⟨a, .ok (), []⟩) : (Node.arg a).Annotated := by
  cases a with
  | value i value =>
    obtain ⟨_, _, _, _, _, _, whole⟩ := arg_value.mp stable
    exact Node.annotated_of_eq (Arg.value.inj whole).1 rfl
  | var i target =>
    obtain ⟨_, _, _, _, _, _, _, _, _, whole⟩ := arg_var.mp stable
    exact Node.annotated_of_eq (Arg.var.inj whole).1 rfl
  | func i decl name =>
    obtain ⟨_, _, _, _, _, whole⟩ := arg_func.mp stable
    obtain ⟨info, rfl, -⟩ := Arg.func.inj whole
    exact Node.annotated_of_bound info rfl

theorem sig_annotated {s : Sig} (stable : Check.sig env s = ⟨s, .ok t, []⟩) :
    (Node.sig s).Annotated := by
  cases s with
  | named i name =>
    obtain ⟨_, whole⟩ := sig_named.mp stable
    exact Node.annotated_of_eq (Sig.named.inj whole).1 rfl
  | array i length elem =>
    obtain ⟨_, _, _, _, _, _, whole⟩ := sig_array.mp stable
    exact Node.annotated_of_eq (Sig.array.inj whole).1 rfl
  | record i fields =>
    obtain ⟨_, _, _, _, whole⟩ := sig_record.mp stable
    exact Node.annotated_of_eq (Sig.record.inj whole).1 rfl

end Check

theorem Node.Stable.annotated {env : Check.Env} (stable : n.Stable env) : n.Annotated := by
  cases n with
  | expr e => exact Check.expr_annotated stable.choose_spec
  | stmt s => exact Check.stmt_annotated stable
  | decl d => exact Check.decl_annotated stable
  | param p => exact Check.param_annotated stable.choose_spec
  | arg a =>
    obtain ⟨_, _, _, accepted⟩ := stable
    exact Check.arg_annotated accepted
  | sig s => exact Check.sig_annotated stable.choose_spec

/-- What checking accepts it hands on with no slot empty, and changed in nothing but its slots,
whatever stood in them. -/
theorem Program.accepted_annotated (p : Program) (accepted : p.check.2 = []) :
    p.check.1.Annotated ∧ p.check.1.bare = p.bare := by
  have checked : p.check = (p.check.1, []) := Prod.ext rfl accepted
  refine ⟨fun n member => ?_, p.bare_check⟩
  obtain ⟨env, _, stable⟩ := Program.within_stable checked member
  exact stable.annotated

/-- Routines, lets and signatures inside one another, with slots that are filled wrongly before. -/
def Program.layered : Program :=
  let stale : Info := { ty := some .char }
  let wrong : Option Binding := some (.standard .const "maxint")
  let integer : Sig := .named stale "Integer"
  let next : Decl := .func {} "next" [.value {} "x" integer] integer
    (.letIn stale [.const {} "one" (.int stale 1)]
      (.binary {} none "+" (.ident stale wrong "x") (.ident {} none "one")))
  let twice : Decl := .func {} "twice"
    [.func {} "f" [.value {} "x" integer] (some integer), .value {} "n" integer] integer
    (.call {} wrong "f" [.value {} (.call stale none "f" [.value {} (.ident {} none "n")])])
  let place : Expr := .select {} (.subscript stale (.ident {} wrong "a") (.int {} 0)) "n"
  ⟨.letIn {} [.type {} "Pair" (.record {} [("n", integer), ("c", .named {} "Char")]), twice, next,
      .var stale "a" (.array {} 2 (.named {} "Pair"))]
    (.seq {} [.assign {} place (.call {} none "twice" [.func stale wrong "next",
        .value {} (.unary {} none "-" (.int {} 3))]),
      .call {} wrong "putint" [.value {} place]])⟩

theorem Program.layered_annotated : layered.check.2 = [] ∧ ¬ layered.Annotated ∧
    layered.check.1.Annotated ∧ layered.check.1.bare = layered.bare :=
  have accepted : layered.check.2 = [] := by cbv
  ⟨accepted, by decide, layered.accepted_annotated accepted⟩

end Triangle
