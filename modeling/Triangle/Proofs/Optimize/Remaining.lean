import Mathlib
import Triangle.Proofs.Optimize.Legal.Folded
import Triangle.Proofs.Optimize.Rounds
import Triangle.Proofs.Tree.Induction
import Triangle.Proofs.Typing.Operators

/-! What folding leaves. A pass that reports nothing leaves no operator whose value it knows; and in
an accepted program it knows the value of every standard operator over literals, unless that is a
division by zero. -/
namespace Triangle
open List

/-! ## Nodes whose value is not known -/

namespace Node

open Optimize.Fold in
/-- No value is known for the operator at the node. -/
def Idle : Node → Prop
  | expr (.unary _ slot op operand) => valueIf slot (operand.literal?.map (ofUnary op)) = .unknown
  | expr (.binary _ slot op left right) =>
    valueIf slot (do return ofBinary op (← left.literal?) (← right.literal?)) = .unknown
  | _ => True

end Node

namespace Optimize.Fold

/-- No value is known at any of these nodes. -/
def Idle (ns : List Node) : Prop := ∀ n ∈ ns, n.Idle

@[simp] theorem idle_nil : Idle [] := by simp [Idle]

@[simp] theorem idle_cons {n : Node} {ns : List Node} : Idle (n :: ns) ↔ n.Idle ∧ Idle ns :=
  forall_mem_cons

@[simp] theorem idle_append {ns ms : List Node} : Idle (ns ++ ms) ↔ Idle ns ∧ Idle ms :=
  forall_mem_append

theorem idle_sig (s : Sig) : Idle s.nodes := Node.forall_sig (fun _ => trivial) s

theorem idle_params (ps : List Param) : Idle (Param.listNodes ps) :=
  Node.forall_params (fun _ => trivial) (fun _ => trivial) ps

theorem idle_toExpr (l : Literal) (i : Info) : Idle (l.toExpr i).nodes := by
  cases l <;> exact idle_cons.mpr ⟨trivial, idle_nil⟩

/-- Where nothing is reported the node is gone, or its value is not known. -/
theorem idle_replace {e : Expr} {value : Value} {below : List Node}
    (silent : (value.replace e).reports = []) (nodes : e.nodes = .expr e :: below)
    (here : value = .unknown → (Node.expr e).Idle) (inner : Idle below) :
    Idle (value.replace e).value.nodes := by
  cases value with
  | unknown =>
    show Idle e.nodes
    rw [nodes]
    exact idle_cons.mpr ⟨here rfl, inner⟩
  | overflow => cases silent
  | literal l => exact idle_toExpr l _

/-- Neither part of a computation reports anything. -/
theorem silent_bind {α β : Type} {x : Tally α} {f : α → Tally β} :
    (x >>= f).reports = [] ↔ x.reports = [] ∧ (f x.value).reports = [] :=
  append_eq_nil_iff

theorem idle_tree : Everywhere
    (fun e => ∀ consts, (expr consts e).reports = [] → Idle (expr consts e).value.nodes)
    (fun fields => ∀ consts, (fieldExprs consts fields).reports = [] →
      Idle (Expr.fieldNodes (fieldExprs consts fields).value))
    (fun es => ∀ consts, (exprs consts es).reports = [] → Idle (Expr.listNodes (exprs consts es).value))
    (fun ds => ∀ consts, (decls consts ds).reports = [] → Idle (Decl.listNodes (decls consts ds).value.2))
    (fun d => ∀ consts, (decl consts d).reports = [] → Idle (decl consts d).value.2.nodes)
    (fun s => ∀ consts, (stmt consts s).reports = [] → Idle (stmt consts s).value.nodes)
    (fun ss => ∀ consts, (stmts consts ss).reports = [] → Idle (Stmt.listNodes (stmts consts ss).value))
    (fun as => ∀ consts, (args consts as).reports = [] → Idle (Arg.listNodes (args consts as).value))
    fun a => ∀ consts, (arg consts a).reports = [] → Idle (arg consts a).value.nodes := by
  apply tree_induction
  case ident =>
    intro _ _ _ _ _
    rw [expr]
    split
    · exact idle_toExpr _ _
    · simp [Expr.nodes, Node.Idle]
  case unary => -- the operators, whose value is not known, and calls
    intro _ _ _ _ operand consts silent
    obtain ⟨first, last⟩ := silent_bind.mp silent
    exact idle_replace last rfl id (operand consts first)
  case binary =>
    intro _ _ _ _ _ left right consts silent
    obtain ⟨first, rest⟩ := silent_bind.mp silent
    obtain ⟨second, last⟩ := silent_bind.mp rest
    exact idle_replace last rfl id (idle_append.mpr ⟨left consts first, right consts second⟩)
  case call =>
    intro _ _ _ _ as consts silent
    obtain ⟨first, last⟩ := silent_bind.mp silent
    exact idle_replace last rfl (fun _ => trivial) (as consts first)
  case letIn => -- a let, which may go
    intro i ds body declared inner consts silent
    obtain ⟨first, rest⟩ := silent_bind.mp silent
    have whole := inner (decls consts.enterBlock ds).value.1 (silent_bind.mp rest).1
    rw [expr, Tally.value_bind, Tally.value_bind]
    split
    · exact whole
    · exact idle_cons.mpr ⟨trivial, idle_append.mpr ⟨declared _ first, whole⟩⟩
  all_goals
    simp +contextual [silent_bind, expr, Expr.nodes, fieldExprs, Expr.fieldNodes, exprs, Expr.listNodes,
      decls, Decl.listNodes, decl, Decl.nodes, stmt, Stmt.nodes, stmts, Stmt.listNodes, args,
      Arg.listNodes, arg, Arg.nodes, Node.Idle, idle_sig, idle_params]

theorem idle_pass {p : Program} (silent : (pass p).reports = []) : Idle (pass p).value.nodes :=
  idle_tree.stmt p.body .standard (silent_bind.mp silent).1

end Optimize.Fold

/-! ## Operators over literals -/

namespace Node

/-- A standard operator over literals. Of those in front of an operand only minus and not count. -/
def Ripe : Node → Prop
  | expr (.unary _ slot op operand) =>
    slot.any Binding.isStandard ∧ (op = "-" ∨ op = "\\") ∧ operand.isLiteral
  | expr (.binary _ slot _ left right) =>
    slot.any Binding.isStandard ∧ left.isLiteral ∧ right.isLiteral
  | _ => False

/-- A quotient or a remainder by the literal zero. -/
def DividesByZero : Node → Prop
  | expr (.binary _ _ op _ right) => (op = "/" ∨ op = "//") ∧ right.literal? = some (.int 0)
  | _ => False

end Node

namespace Optimize.Fold

theorem ofWord?_ne_unknown (w : Option Word) : ofWord? w ≠ .unknown := by
  cases w <;> simp [ofWord?]

theorem ofUnary_ne_unknown {op : String} {a : Literal} (operator : Check.Prefixed op a.ty) :
    ofUnary op a ≠ .unknown := by
  generalize same : a.ty = t at operator
  cases operator with
  | minus =>
    cases a with
    | int n => exact ofWord?_ne_unknown _
    | char | bool => cases same
  | not =>
    cases a with
    | bool b => simp [ofUnary]
    | int | char => cases same

/-- The only value of standard operators over literals that is not known is that of a division by
zero. -/
theorem ofBinary_eq_unknown {op : String} {a b : Literal} {t : Ty}
    (operator : Check.Infix op a.ty b.ty t) (unknown : ofBinary op a b = .unknown) :
    (op = "/" ∨ op = "//") ∧ b = .int 0 := by
  generalize left : a.ty = u, right : b.ty = v at operator
  cases operator with
  | logical member | comparison member =>
    cases a <;> cases left
    cases b <;> cases right
    fin_cases member <;> cases unknown
  | arithmetic member =>
    cases a <;> cases left
    rename_i x
    cases b <;> cases right
    rename_i y
    obtain ⟨f, known⟩ : ∃ f, arithmetic? op = some f := by fin_cases member <;> exact ⟨_, rfl⟩
    simp only [ofBinary, ofInts, known] at unknown
    split at unknown
    · rename_i zero
      exact ⟨zero.2, by rw [zero.1]⟩
    · exact absurd unknown (ofWord?_ne_unknown _)
  | equality member =>
    subst right
    cases a <;> cases b <;> cases left <;> fin_cases member <;> cases unknown

end Optimize.Fold

open Optimize.Fold Check

theorem Node.Idle.dividesByZero {env : Check.Env} {n : Node} (idle : n.Idle) (genuine : env.Genuine)
    (stable : n.Stable env) (ripe : n.Ripe) : n.DividesByZero := by
  cases n with
  | stmt | decl | param | arg | sig => exact ripe.elim
  | expr e =>
    obtain ⟨t, stable⟩ := stable
    cases e with
    | int | char | bool | ident | subscript | select | call | cond | letIn | array | record =>
      exact ripe.elim
    | unary i slot op operand =>
      obtain ⟨isStandard, named, isLiteral⟩ := ripe
      obtain ⟨a, literal⟩ := Option.isSome_iff_exists.mp isLiteral
      obtain ⟨m, want, _, got, found, signature, inner, same, whole⟩ := expr_unary.mp stable
      obtain ⟨-, rfl, -, rfl⟩ := Expr.unary.inj whole
      obtain ⟨operator, -⟩ := prefixed_of_signature genuine found (by simpa using isStandard)
        signature named
      have typed : a.ty = want := by
        rw [ty_of_literal inner literal, Literal.deref_ty] at same
        cases operator <;> exact same
      rw [Node.Idle, valueIf, if_pos isStandard, literal] at idle
      exact absurd idle (ofUnary_ne_unknown (typed ▸ operator))
    | binary i slot op left right =>
      obtain ⟨isStandard, first, second⟩ := ripe
      obtain ⟨a, leftLiteral⟩ := Option.isSome_iff_exists.mp first
      obtain ⟨b, rightLiteral⟩ := Option.isSome_iff_exists.mp second
      obtain ⟨m, _, u, _, v, found, leftInner, rightInner, joins, whole⟩ := expr_binary.mp stable
      obtain ⟨-, rfl, -, rfl, rfl⟩ := Expr.binary.inj whole
      have operator := infix_of_joins (genuine.lookup found (by simpa using isStandard)) joins
      rw [ty_of_literal leftInner leftLiteral, ty_of_literal rightInner rightLiteral,
        Literal.deref_ty, Literal.deref_ty] at operator
      rw [Node.Idle, valueIf, if_pos isStandard, leftLiteral, rightLiteral] at idle
      obtain ⟨division, rfl⟩ := ofBinary_eq_unknown operator idle
      exact ⟨division, rightLiteral⟩

/-- One pass of folding reaches the end of what can be folded. A second changes nothing, counts
nothing and reports nothing new; so with any threshold that is not negative and any cap, folding makes
at most two passes and has the result of the first. If the program was accepted and nothing is
reported, all that is left of the standard operators over literals are divisions by zero. -/
theorem Program.fold_settles (p : Program) :
    (pass (pass p).value).value = (pass p).value ∧ (pass (pass p).value).count = 0 ∧
    ((pass p).reports ++ (pass (pass p).value).reports).eraseDups = (pass p).reports.eraseDups ∧
    (∀ cfg : FoldConfig, 0 ≤ cfg.threshold →
      (∃ passes ≤ 2, ∃ folded, Rounds cfg 0 p passes folded) ∧
      p.fold? cfg = some { pass p with reports := (pass p).reports.eraseDups }) ∧
    ∀ source : Program, source.check = (p, []) → (pass p).reports = [] →
      ∀ n ∈ (pass p).value.nodes, n.Ripe → n.DividesByZero := by
  obtain ⟨value, count, reports⟩ := pass_again p
  refine ⟨value, count, eraseDups_append_of_subset reports, fun cfg threshold => ⟨?_, ?_⟩, ?_⟩
  · obtain ⟨passes, folded, rounds⟩ := ends_iff.mpr (.inl threshold)
    refine ⟨passes, ?_, folded, rounds⟩
    rcases rounds_iff.mp rounds with ⟨-, rfl, -⟩ | ⟨-, -, rfl, -⟩ <;> decide
  · rw [p.fold?_eq, if_pos (.inl threshold)]
  · intro source accepted silent n member
    have stable : StmtStable .standard (pass p).value.body :=
      tree_becomes.stmt p.body _ _ .standard (Program.check_stable accepted)
    obtain ⟨env, within⟩ := Within.of_mem (.stmt (pass p).value.body) .standard n member
    exact (idle_pass silent n member).dividesByZero (within.genuine .standard) (within.stable stable)

/-- A constant is folded, its uses are, and a division by zero is left. -/
def Program.ruined : Program :=
  let n : Expr := .ident {} none "n"
  ⟨.letIn {} [.const {} "n" (.binary {} none "//" (.int {} 6) (.int {} 4))]
    (.call {} none "putint" [.value {} (.binary {} none "/" n (.binary {} none "-" n n))])⟩

theorem Program.ruined_settles :
    (∃ folded, ruined.check.1.fold? { threshold := 3, cap := 1 } = some folded ∧
      folded.count = 5 ∧ folded.reports = []) ∧
    (∃ n ∈ (pass ruined.check.1).value.nodes, n.Ripe) ∧
    ∀ n ∈ (pass ruined.check.1).value.nodes, n.Ripe → n.DividesByZero := by
  obtain ⟨-, -, -, loop, left⟩ := fold_settles ruined.check.1
  have silent : (pass ruined.check.1).reports = [] := by cbv
  refine ⟨⟨_, (loop _ (by decide)).2, by cbv, by rw [silent]; rfl⟩, ?_, left ruined rfl silent⟩
  exact ⟨_, mem_of_getElem? (i := 5) rfl, rfl, rfl, rfl⟩

end Triangle
