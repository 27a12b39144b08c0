import Mathlib
import Triangle.Proofs.Optimize.Literals
import Triangle.Proofs.Tree.Induction

/-! One pass of folding is enough. The second pass comes to every place of the tree with the same
knowledge of names as the first, and finds that what could be replaced there has been. -/
namespace Triangle.Optimize
open List

namespace Tally
variable {α β : Type}

/-- The second of two passes leaves what the first has made as it is, and reports nothing that the
first has not reported. -/
structure Repeats (once again : Tally α) : Prop where
  value : again.value = once.value
  count : again.count = 0
  reports : again.reports ⊆ once.reports

namespace Repeats

theorem pure (a : α) : Repeats (Pure.pure a) (Pure.pure a) := ⟨rfl, rfl, nil_subset _⟩

theorem bind {x x' : Tally α} {f f' : α → Tally β} (first : Repeats x x')
    (second : Repeats (f x.value) (f' x.value)) : Repeats (x >>= f) (x' >>= f') where
  value := by rw [value_bind, value_bind, first.value, second.value]
  count := by
    show x'.count + (f' x'.value).count = 0
    rw [first.value, first.count, second.count]
  reports := by
    show x'.reports ++ (f' x'.value).reports ⊆ x.reports ++ (f x.value).reports
    rw [first.value]
    exact append_subset.mpr ⟨List.Subset.trans first.reports (subset_append_left _ _),
      List.Subset.trans second.reports (subset_append_right _ _)⟩

end Repeats
end Tally

namespace Fold
open Tally (Repeats)

/-! ## Nodes -/

/-- A node whose value is not known is left as it is, again and again. -/
theorem replace_repeats {e : Expr} {v : Value} (unsettled : ∀ l, v ≠ .literal l) :
    Repeats (v.replace e) (v.replace e) := by
  refine ⟨rfl, ?_, List.Subset.refl _⟩
  cases v with
  | literal l => exact absurd rfl (unsettled l)
  | unknown | overflow => rfl

/-- A literal needs no pass. -/
theorem expr_toExpr (consts : Consts) (l : Literal) (i : Info) :
    expr consts (l.toExpr i) = pure (l.toExpr i.alone) := by
  cases l <;> rw [Literal.toExpr, expr, Literal.toExpr]

/-- Where a pass has put the value of a node, and where it has left the node. -/
theorem again_of_value {consts : Consts} {once : Tally Expr} {e : Expr} {v : Value}
    (made : once.value = (v.replace e).value) (lone : e.info.alone = e.info)
    (left : (∀ l, v ≠ .literal l) → Repeats once (expr consts e)) :
    Repeats once (expr consts once.value) := by
  rw [made]
  cases v with
  | literal l =>
    have made : once.value = l.toExpr e.info := made
    rw [Value.replace, Tally.value_changed, expr_toExpr, lone]
    exact ⟨made.symm, rfl, nil_subset _⟩
  | unknown | overflow => exact left (by simp)

theorem eq_toExpr {e : Expr} {l : Literal} (same : e.literal? = some l) : e = l.toExpr e.info := by
  cases e with
  | int | char | bool =>
    cases same
    rfl
  | _ => cases same

/-! ## The tree -/

/-- The second pass comes to the end of the declarations with the same knowledge of names. -/
theorem tree_again : Everywhere
    (fun e => ∀ consts, Repeats (expr consts e) (expr consts (expr consts e).value))
    (fun fields => ∀ consts,
      Repeats (fieldExprs consts fields) (fieldExprs consts (fieldExprs consts fields).value))
    (fun es => ∀ consts, Repeats (exprs consts es) (exprs consts (exprs consts es).value))
    (fun ds => ∀ consts, Repeats (decls consts ds) (decls consts (decls consts ds).value.2))
    (fun d => ∀ consts, Repeats (decl consts d) (decl consts (decl consts d).value.2))
    (fun s => ∀ consts, Repeats (stmt consts s) (stmt consts (stmt consts s).value))
    (fun ss => ∀ consts, Repeats (stmts consts ss) (stmts consts (stmts consts ss).value))
    (fun as => ∀ consts, Repeats (args consts as) (args consts (args consts as).value))
    fun a => ∀ consts, Repeats (arg consts a) (arg consts (arg consts a).value) := by
  apply tree_induction
  case ident =>
    intro i decl name consts
    rw [expr]
    split
    · rename_i l found
      rw [Tally.value_changed, expr_toExpr]
      exact ⟨rfl, rfl, nil_subset _⟩
    · rename_i unknown
      rw [Tally.value_pure, expr, unknown]
      exact .pure _
  case unary => -- what may have a value
    intro i decl op operand inner consts
    exact again_of_value (e := .unary i.alone decl op (expr consts operand).value) rfl rfl
      fun unsettled => (inner consts).bind (replace_repeats unsettled)
  case binary =>
    intro i decl op left right first second consts
    exact again_of_value
      (e := .binary i.alone decl op (expr consts left).value (expr consts right).value) rfl rfl
      fun unsettled => (first consts).bind ((second consts).bind (replace_repeats unsettled))
  case call =>
    intro i decl name as each consts
    exact again_of_value (e := .call i.alone decl name (args consts as).value) rfl rfl
      fun unsettled => (each consts).bind (replace_repeats unsettled)
  case letIn =>
    intro i ds body declared inside consts
    have inside := inside (decls consts.enterBlock ds).value.1
    cases literal : (expr (decls consts.enterBlock ds).value.1 body).value.literal? with
    | some l =>
      -- the let is gone, and its body stands in the scope around it
      have made : (expr consts (.letIn i ds body)).value =
          (expr (decls consts.enterBlock ds).value.1 body).value := by
        rw [expr, Tally.value_bind, Tally.value_bind, Expr.isLiteral, literal]
        rfl
      have lone := inside.value
      rw [eq_toExpr literal, expr_toExpr] at lone
      rw [made, eq_toExpr literal, expr_toExpr]
      exact ⟨lone.trans ((eq_toExpr literal).symm.trans made.symm), rfl, nil_subset _⟩
    | none =>
      have made : (expr consts (.letIn i ds body)).value = .letIn i.alone
          (decls consts.enterBlock ds).value.2 (expr (decls consts.enterBlock ds).value.1 body).value := by
        rw [expr, Tally.value_bind, Tally.value_bind, Expr.isLiteral, literal]
        rfl
      rw [made, expr, expr]
      refine (declared consts.enterBlock).bind (inside.bind ?_)
      rw [Expr.isLiteral, literal]
      exact .pure _
  all_goals -- one part after the other, each of which is left as it is
    intros
    repeat' first
      | exact .pure _
      | refine Repeats.bind (by solve_by_elim) ?_

/-- The second pass changes nothing, counts nothing and reports nothing new. -/
theorem pass_again (p : Program) : Repeats (pass p) (pass (pass p).value) :=
  (tree_again.stmt p.body .standard).bind (.pure _)

end Fold
end Triangle.Optimize
