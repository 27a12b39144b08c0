import Mathlib
import Triangle.Proofs.Typing.Slotless

/-! Checking what a check leaves behind comes to the same: the same slots, the same result and the same
reports, also where the first check stopped at a mistake. -/
namespace Triangle

@[simp] theorem Info.setTy_setTy (i : Info) (t u : Ty) : (i.setTy t).setTy u = i.setTy u := rfl

variable {j : Info} {env : Env}

namespace Check
open Checked

attribute [local simp] andThen settle Checked.pass fail sig sigFields param params param_name expr elements
  recordFields args arg twice? decl decls declsOfStmt stmt stmts Decl.setInfo Decl.binding Decl.kind
  Decl.name Decl.pos Decl.info

/-! ## Signatures and parameters -/

mutual
theorem sig_checked (env : Env) : ∀ s : Sig, sig env (sig env s).node = sig env s
  | .named i name => by
    cases found : namedType env i.pos name <;> simp [found]
  | .array i length elem => by
    have inner := sig_checked env elem
    by_cases empty : length ≤ 0
    · simp [empty]
    by_cases large : maxInt < length
    · simp [empty, large]
    cases got : (sig env elem).result <;> simp [empty, large, got, inner]
  | .record i fields => by
    have inner := sigFields_checked env i.pos [] fields
    cases got : (sigFields env i.pos [] fields).result <;>
      simp [got, inner]

theorem sigFields_checked (env : Env) (pos : Pos) (seen : List String) :
    ∀ fields : List (String × Sig),
      sigFields env pos seen (sigFields env pos seen fields).node = sigFields env pos seen fields
  | [] => rfl
  | (name, s) :: rest => by
    have head := sig_checked env s
    have tail := sigFields_checked env pos (name :: seen) rest
    by_cases again : name ∈ seen
    · simp [again]
    cases got : (sig env s).result with
    | error d => simp [again, got, head]
    | ok t =>
      cases more : (sigFields env pos (name :: seen) rest).result <;>
        simp [again, got, more, head, tail]
end

theorem resultSig_checked (env : Env) (s : Option Sig) :
    resultSig env (resultSig env s).node = resultSig env s := by
  cases s with
  | none => rfl
  | some s =>
    have inner := sig_checked env s
    cases got : (sig env s).result <;> simp [resultSig, got, inner]

mutual
theorem param_checked (env : Env) : ∀ p : Param, param env (param env p).node = param env p
  | .value i name s | .var i name s => by
    have inner := sig_checked env s
    cases got : (sig env s).result <;> simp [got, inner]
  | .func i name ps result => by
    have formals := params_checked env [] ps
    have returned := resultSig_checked env result
    cases got : (params env [] ps).result with
    | error d => simp [got, formals]
    | ok ts =>
      cases more : (resultSig env result).result <;>
        simp [got, more, formals, returned]

theorem params_checked (env : Env) (seen : List String) : ∀ ps : List Param,
    params env seen (params env seen ps).node = params env seen ps
  | [] => rfl
  | p :: ps => by
    have head := param_checked env p
    have tail := params_checked env (p.name :: seen) ps
    by_cases again : p.name ∈ seen
    · simp [again]
    cases got : (param env p).result with
    | error d => simp [again, got, head]
    | ok t =>
      cases more : (params env (p.name :: seen) ps).result <;>
        simp [again, got, more, head, tail]
end

/-! ## A node and its own slots -/

/-- The check of a node that stands in the same place with other slots of its own. -/
def Checked.withInfo (c : Checked Expr Ty) (j : Info) : Checked Expr Ty :=
  match c.result with
  | .ok t => { c with node := c.node.setInfo (j.setTy t) }
  | .error _ => { c with node := c.node.setInfo j }

theorem andThen_withInfo {α β : Type} {c : Checked α β} {rebuild rebuild' : α → Expr}
    {next next' : α → β → Checked Expr Ty} (rebuilt : rebuild' c.node = (rebuild c.node).setInfo j)
    (later : ∀ b, next' c.node b = (next c.node b).withInfo j) :
    c.andThen rebuild' next' = (c.andThen rebuild next).withInfo j := by
  unfold andThen
  cases c.result with
  | error d => simp only [withInfo, rebuilt]
  | ok b =>
    simp only [withInfo, later]
    cases (next c.node b).result <;> rfl

theorem settle_withInfo {make : Info → Expr} {i : Info}
    (makes : ∀ i j, make j = (make i).setInfo j) (result : Except Diagnostic Ty) :
    settle make j result = (settle make i result).withInfo j := by
  cases result with
  | error d => simp only [settle, fail, withInfo, makes i j]
  | ok t => simp only [settle, Checked.pass, withInfo, makes (i.setTy t) (j.setTy t)]

theorem expr_setInfo (env : Env) (e : Expr) (same : j.pos = e.pos) :
    expr env (e.setInfo j) = (expr env e).withInfo j := by
  have place : j.pos = e.info.pos := same
  cases e with
  | array i elems =>
    cases elems with
    | nil =>
      rw [Expr.setInfo, expr, expr, place]
      rfl
    | cons e es =>
      refine andThen_withInfo rfl fun t => ?_
      exact andThen_withInfo rfl fun _ => settle_withInfo (fun _ _ => rfl) _
  | _ =>
    simp only [Expr.setInfo, expr, place, Expr.info]
    -- a check fails, settles the type, or goes on after the check of a part
    repeat' first
      | rfl
      | exact settle_withInfo (fun _ _ => rfl) _
      | refine andThen_withInfo rfl fun _ => ?_
      | split

/-- An accepted expression has a type, so that there is nothing to fill in. -/
theorem fillTy_expr {e : Expr} {t : Ty} (accepted : (expr env e).result = .ok t) (u : Ty) :
    (expr env e).node.fillTy u = (expr env e).node := by
  have own : expr env e = (expr env e).withInfo e.info := by
    rw [← expr_setInfo env e rfl, Expr.setInfo_info]
  have typed : (expr env e).node.info = e.info.setTy t := by
    rw [own]
    simp [withInfo, accepted]
  exact Expr.fillTy_of_isSome (by rw [typed]; rfl) u

/-- With other slots of its own, a declaration is checked with the same outcome. -/
theorem decl_setInfo (env : Env) (d : Decl) : ∃ t : Option Ty, ∀ j, j.pos = d.pos →
    decl env (d.setInfo j) =
      { decl env d with node := (decl env d).node.setInfo (t.elim j j.setTy) } := by
  cases d with
  | const i name value =>
    by_cases again : env.terms.declaredHere name
    · exact ⟨none, fun j same => by simp_all⟩
    cases got : (expr env value).result with
    | error e => exact ⟨none, fun j same => by simp [again, got]⟩
    | ok t => exact ⟨t.deref, fun j same => by simp_all⟩
  | var i name s =>
    by_cases again : env.terms.declaredHere name
    · exact ⟨none, fun j same => by simp_all⟩
    cases got : (sig env s).result with
    | error e => exact ⟨none, fun j same => by simp [again, got]⟩
    | ok t => exact ⟨t, fun j same => by simp_all⟩
  | type i name s =>
    by_cases again : env.types.declaredHere name
    · exact ⟨none, fun j same => by simp_all⟩
    cases got : (sig env s).result with
    | error e => exact ⟨none, fun j same => by simp [again, got]⟩
    | ok t => exact ⟨t, fun j same => by simp [again, got]⟩
  | func i name ps result body =>
    by_cases again : env.terms.declaredHere name
    · exact ⟨none, fun j same => by simp_all⟩
    cases formals : (params env [] ps).result with
    | error e => exact ⟨none, fun j same => by simp [again, formals]⟩
    | ok ts =>
      cases returned : (sig env result).result with
      | error e => exact ⟨none, fun j same => by simp [again, formals, returned]⟩
      | ok r =>
        refine ⟨some (.func ts r), fun j same => ?_⟩
        have place : j.pos = i.pos := same
        simp only [decl, Decl.setInfo, twice?, Decl.name, again, Bool.false_eq_true, if_false, formals,
          returned, Info.pos_setTy, place]
        split
        · rfl
        · split <;> rfl
  | proc i name ps body =>
    by_cases again : env.terms.declaredHere name
    · exact ⟨none, fun j same => by simp_all⟩
    cases formals : (params env [] ps).result with
    | error e => exact ⟨none, fun j same => by simp [again, formals]⟩
    | ok ts => exact ⟨some (.func ts .void), fun j same => by simp_all⟩

/-! ## Expressions, declarations and commands -/

@[simp] theorem root?_expr (env : Env) (e : Expr) : (expr env e).node.root? = e.root? := by
  rw [← Expr.root?_erased, (expr_agrees Slots.pos_emptied env e).node, Expr.root?_erased]

@[simp] theorem text_expr (env : Env) (e : Expr) : (expr env e).node.text = e.text := by
  rw [← Expr.text_erased, (expr_agrees Slots.pos_emptied env e).node, Expr.text_erased]

@[simp] theorem pos_expr (env : Env) (e : Expr) : (expr env e).node.pos = e.pos := by
  rw [← Expr.pos_erased, (expr_agrees Slots.pos_emptied env e).node, Expr.pos_erased]

@[simp] theorem elemRule_expr (env : Env) (pos : Pos) (array : Expr) (t : Ty) :
    elemRule pos (expr env array).node t = elemRule pos array t := by
  simp only [elemRule, text_expr]

@[simp] theorem fieldRule_expr (env : Env) (pos : Pos) (record : Expr) (field : String) (t : Ty) :
    fieldRule pos (expr env record).node field t = fieldRule pos record field t := by
  simp only [fieldRule, text_expr]

@[simp] theorem length_args (env : Env) (callee : String) (index : Nat) (wants : List Ty) (as : List Arg) :
    (args env callee index wants as).node.length = as.length := by
  rw [← Arg.length_erasedList, (args_agrees Slots.pos_emptied env callee index wants as).node,
    Arg.length_erasedList]

@[simp] theorem length_elements (env : Env) (want : Ty) (index : Nat) (es : List Expr) :
    (elements env want index es).node.length = es.length := by
  rw [← Expr.length_erasedList, (elements_agrees Slots.pos_emptied env want index es).node,
    Expr.length_erasedList]

theorem routineArgument_checked (env : Env) (callee : String) (index : Nat) (ps : List Ty) (r : Ty)
    (i : Info) (decl : Option Binding) (name : String) :
    arg env callee index (.func ps r)
        (routineArgument env callee index (.func ps r) i decl name).node =
      routineArgument env callee index (.func ps r) i decl name := by
  cases found : env.terms.lookup? name with
  | none => simp [routineArgument, found]
  | some m =>
    unfold routineArgument
    rw [found]
    split
    · contradiction
    · rename_i qs q d same
      cases same
      by_cases fits : (Ty.func qs q).identical (.func ps r) <;>
        simp [routineArgument, found, fits]
    · rename_i other _ same
      cases same
      simp [routineArgument, found]

theorem asVariable_checked {target : Expr}
    (inner : expr env (expr env target).node = expr env target) :
    asVariable env (asVariable env target (expr env target)).node
        (expr env (asVariable env target (expr env target)).node) =
      asVariable env target (expr env target) := by
  cases root : target.root? with
  | none => simp [asVariable, root]
  | some name =>
    cases got : (expr env target).result with
    | error d => simp [asVariable, root, got, inner]
    | ok t =>
      by_cases held : env.terms.isConst name <;>
        simp [asVariable, root, got, held, inner]

/-- An expression that failed was given a type, and fails as before. -/
theorem expr_filled {e : Expr} {d : Diagnostic} (failed : (expr env e).result = .error d)
    (inner : expr env (expr env e).node = expr env e) (t : Ty) :
    expr env ((expr env e).node.fillTy t) = { expr env e with node := (expr env e).node.fillTy t } := by
  rw [Expr.fillTy, expr_setInfo env _ (Info.pos_fillTy _ _), inner]
  simp only [withInfo, failed]

@[simp] theorem text_fillTy (e : Expr) (t : Ty) : (e.fillTy t).text = e.text := by
  rw [← Expr.text_erased, Expr.erased_fillTy, Expr.text_erased]

@[simp] theorem pos_fillTy (e : Expr) (t : Ty) : (e.fillTy t).pos = e.pos := by
  rw [← Expr.pos_erased, Expr.erased_fillTy, Expr.pos_erased]

@[simp] theorem root?_fillTy (e : Expr) (t : Ty) : (e.fillTy t).root? = e.root? := by
  rw [← Expr.root?_erased, Expr.erased_fillTy, Expr.root?_erased]

@[simp] theorem fillTy_fillTy (e : Expr) (t u : Ty) : (e.fillTy t).fillTy u = e.fillTy t :=
  Expr.fillTy_of_isSome (by rw [Expr.fillTy, Expr.info_setInfo]; exact Info.isSome_fillTy _ _) u

theorem settled_settled (c : Checked Expr Ty) :
    settled { c with node := (settled c).1 } = settled c := by
  cases got : c.result <;> simp [settled, got]

theorem expr_settled {e : Expr} (inner : expr env (expr env e).node = expr env e) :
    expr env (settled (expr env e)).1 = { expr env e with node := (settled (expr env e)).1 } := by
  cases got : (expr env e).result with
  | error d =>
    have filled := expr_filled got inner .void
    simp [settled, got, filled]
  | ok t =>
    simp only [settled, got, inner]
    rw [← got]

theorem asVariable_settled {target : Expr} {checked : Checked Expr Ty}
    (is : checked = asVariable env target (expr env target))
    (inner : expr env (expr env target).node = expr env target) :
    asVariable env (settled checked).1 (expr env (settled checked).1) =
      { checked with node := (settled checked).1 } := by
  subst is
  cases root : target.root? with
  | none => simp [asVariable, root, settled]
  | some name =>
    cases got : (expr env target).result with
    | error d =>
      have filled := expr_filled got inner .void
      simp [asVariable, root, settled, got, filled]
    | ok t =>
      have typed := fillTy_expr got .void
      by_cases held : env.terms.isConst name <;>
        simp [asVariable, root, settled, got, held, typed, inner]

theorem condition_checked {test : Expr} (inner : expr env (expr env test).node = expr env test) :
    conditionReports (conditionReports test (expr env test)).1
        (expr env (conditionReports test (expr env test)).1) =
      conditionReports test (expr env test) := by
  cases got : (expr env test).result with
  | error d =>
    have filled := expr_filled got inner .void
    simp [conditionReports, got, filled]
  | ok t =>
    by_cases boolean : t.equal .boolean <;>
      simp [conditionReports, got, inner, boolean]

theorem fallback_fallback (env env' : Env) (d : Decl) :
    fallback env (fallback env' d).1 = fallback env d := by
  have same := Info.fillTy_of_isSome (Info.isSome_fillTy d.info .void) .void
  cases d <;> simp only [Decl.info] at same <;>
    simp [fallback, same]

theorem decl_fallback (outer : Env) {d : Decl} (inner : decl env (decl env d).node = decl env d) :
    decl env (fallback outer (decl env d).node).1 =
      { decl env d with node := (fallback outer (decl env d).node).1 } := by
  have made : (fallback outer (decl env d).node).1 =
      (decl env d).node.setInfo ((decl env d).node.info.fillTy .void) := by
    cases (decl env d).node <;> rfl
  obtain ⟨t, moved⟩ := decl_setInfo env (decl env d).node
  have own := moved (decl env d).node.info rfl
  rw [made]
  rw [Decl.setInfo_info, inner] at own
  cases t with
  | none =>
    rw [moved _ (Info.pos_fillTy _ _), inner]
    rfl
  | some t =>
    have kept := congrArg (fun c : Declared => c.node.info.ty) own
    rw [Decl.info_setInfo] at kept
    rw [Info.fillTy_of_isSome (by rw [kept]; rfl), Decl.setInfo_info, inner]

mutual
theorem expr_checked (env : Env) : ∀ e : Expr, expr env (expr env e).node = expr env e
  | .int i value => by
    by_cases small : value < minInt ∨ maxInt < value <;>
      simp [small]
  | .char i value | .bool i value => rfl
  | .ident i decl name => by
    cases found : env.terms.lookup? name with
    | none => simp [found]
    | some m =>
      cases got : identRule i.pos name m <;> simp [found, got]
  | .subscript i array index => by
    have first := expr_checked env array
    have second := expr_checked env index
    cases root : array.root? with
    | none => simp [root]
    | some name =>
      cases got : (expr env array).result with
      | error d => simp [root, got, first]
      | ok base =>
        cases elem : elemRule i.pos array base with
        | error d => simp [root, got, first, elem]
        | ok elem =>
          cases more : (expr env index).result with
          | error d => simp [root, got, first, elem, more, second]
          | ok t =>
            by_cases integer : t.equal .integer <;>
              simp [root, got, first, elem, more, second, integer]
  | .select i record field => by
    have first := expr_checked env record
    cases root : record.root? with
    | none => simp [root]
    | some name =>
      cases got : (expr env record).result with
      | error d => simp [root, got, first]
      | ok base =>
        cases found : fieldRule i.pos record field base <;>
          simp [root, got, first, found]
  | .unary i decl op operand => by
    have first := expr_checked env operand
    cases found : env.unary? op with
    | none => simp [found]
    | some m =>
      cases rule : unaryRule i.pos op m with
      | error d => simp [found, rule]
      | ok shape =>
        cases got : (expr env operand).result with
        | error d => simp [found, rule, got, first]
        | ok t =>
          cases fits : operandRule i.pos op shape.1 shape.2 t <;>
            simp [found, rule, got, first, fits]
  | .binary i decl op left right => by
    have first := expr_checked env left
    have second := expr_checked env right
    cases found : env.terms.lookup? op with
    | none => simp [found]
    | some m =>
      cases got : (expr env left).result with
      | error d => simp [found, got, first]
      | ok t =>
        cases more : (expr env right).result with
        | error d => simp [found, got, first, more, second]
        | ok u =>
          cases fits : binaryRule i.pos op m t u <;>
            simp [found, got, first, more, second, fits]
  | .call i decl name as => by
    cases found : env.terms.lookup? name with
    | none => simp [found]
    | some m =>
      cases rule : functionRule i.pos name m with
      | error d => simp [found, rule]
      | ok shape =>
        have inner := args_checked env name 1 shape.1 as
        by_cases arity : as.length = shape.1.length
        · cases got : (args env name 1 shape.1 as).result <;>
            simp [found, rule, arity, got, inner]
        · simp [found, rule, arity]
  | .cond i test yes no => by
    have first := expr_checked env test
    have second := expr_checked env yes
    have third := expr_checked env no
    cases got : (expr env test).result with
    | error d => simp [got, first]
    | ok t =>
      by_cases boolean : t.equal .boolean
      · cases one : (expr env yes).result with
        | error d => simp [got, first, boolean, one, second]
        | ok u =>
          cases other : (expr env no).result with
          | error d => simp [got, first, boolean, one, second, other, third]
          | ok v =>
            by_cases agree : u.equal v <;>
              simp [got, first, boolean, one, second, other, third, agree]
      · simp [got, first, boolean]
  | .letIn i ds body => by
    have first := decls_checked env.enterBlock ds
    cases got : (decls env.enterBlock ds).result with
    | error d => simp [got, first]
    | ok inner =>
      have second := expr_checked inner body
      cases more : (expr inner body).result <;>
        simp [got, first, more, second]
  | .array i [] => rfl
  | .array i (e :: es) => by
    have head := expr_checked env e
    cases got : (expr env e).result with
    | error d => simp [got, head]
    | ok t =>
      have tail := elements_checked env t.deref 1 es
      cases more : (elements env t.deref 1 es).result <;>
        simp [got, head, more, tail]
  | .record i fields => by
    have inner := recordFields_checked env i.pos [] fields
    cases got : (recordFields env i.pos [] fields).result <;>
      simp [got, inner]

theorem elements_checked (env : Env) (want : Ty) (index : Nat) : ∀ es : List Expr,
    elements env want index (elements env want index es).node = elements env want index es
  | [] => rfl
  | e :: es => by
    have head := expr_checked env e
    have tail := elements_checked env want (index + 1) es
    cases got : (expr env e).result with
    | error d => simp [got, head]
    | ok t =>
      by_cases fits : t.deref.equal want
      · cases more : (elements env want (index + 1) es).result <;>
          simp [got, head, fits, more, tail]
      · simp [got, head, fits]

theorem recordFields_checked (env : Env) (pos : Pos) (seen : List String) :
    ∀ fields : List (String × Expr),
      recordFields env pos seen (recordFields env pos seen fields).node =
        recordFields env pos seen fields
  | [] => rfl
  | (name, e) :: rest => by
    have head := expr_checked env e
    have tail := recordFields_checked env pos (name :: seen) rest
    by_cases again : name ∈ seen
    · simp [again]
    cases got : (expr env e).result with
    | error d => simp [again, got, head]
    | ok t =>
      cases more : (recordFields env pos (name :: seen) rest).result <;>
        simp [again, got, head, more, tail]

theorem args_checked (env : Env) (callee : String) (index : Nat) (wants : List Ty) :
    ∀ as : List Arg,
      args env callee index wants (args env callee index wants as).node =
        args env callee index wants as
  | [] => rfl
  | a :: as => by
    cases wants with
    | nil => rfl
    | cons want wants =>
      have head := arg_checked env callee index want a
      have tail := args_checked env callee (index + 1) wants as
      cases got : (arg env callee index want a).result with
      | error d => simp [got, head]
      | ok =>
        cases more : (args env callee (index + 1) wants as).result <;>
          simp [got, head, more, tail]

theorem arg_checked (env : Env) (callee : String) (index : Nat) (want : Ty) : ∀ a : Arg,
    arg env callee index want (arg env callee index want a).node = arg env callee index want a
  | .value i value => by
    have inner := expr_checked env value
    cases want with
    | ref | func => rfl
    | _ =>
      simp only [arg]
      cases got : (expr env value).result with
      | error d => simp [got, inner]
      | ok t =>
        simp only [andThen, got]
        split <;> simp [*]
  | .var i target => by
    have inner := asVariable_checked (expr_checked env target)
    cases want with
    | ref want =>
      cases got : (asVariable env target (expr env target)).result with
      | error d => simp [got, inner]
      | ok t =>
        by_cases fits : t.deref.equal want <;>
          simp [got, inner, fits]
    | _ => rfl
  | .func i decl name => by
    cases want with
    | func ps r => exact routineArgument_checked env callee index ps r i decl name
    | _ => rfl

theorem decls_checked (env : Env) : ∀ ds : List Decl,
    decls env (decls env ds).node = decls env ds
  | [] => rfl
  | d :: ds => by
    have head := decl_checked env d
    have tail := decls_checked (decl env d).env ds
    cases got : (decl env d).result with
    | error e => simp [got, head]
    | ok => simp [got, head, tail]

theorem decl_checked (env : Env) : ∀ d : Decl, decl env (decl env d).node = decl env d
  | .const i name value => by
    have inner := expr_checked env value
    by_cases again : env.terms.declaredHere name
    · simp [again]
    cases got : (expr env value).result <;> simp [again, got, inner]
  | .var i name s => by
    have inner := sig_checked env s
    by_cases again : env.terms.declaredHere name
    · simp [again]
    cases got : (sig env s).result <;> simp [again, got, inner]
  | .type i name s => by
    have inner := sig_checked env s
    by_cases again : env.types.declaredHere name
    · simp [again]
    cases got : (sig env s).result <;> simp [again, got, inner]
  | .func i name ps result body => by
    have formals := params_checked env [] ps
    have returned := sig_checked env result
    by_cases again : env.terms.declaredHere name
    · simp [again]
    cases got : (params env [] ps).result with
    | error e => simp [again, got, formals]
    | ok ts =>
      cases more : (sig env result).result with
      | error e => simp [again, got, formals, more, returned]
      | ok r =>
        have inner := expr_checked ((env.addConst name (.typed (.func ts r)
          (.declared .func name i.pos))).enterRoutine.bindParams (params env [] ps).node ts) body
        cases value : (expr ((env.addConst name (.typed (.func ts r)
            (.declared .func name i.pos))).enterRoutine.bindParams (params env [] ps).node ts)
            body).result with
        | error e => simp [again, got, formals, more, returned, inner, value]
        | ok t =>
          by_cases fits : t.equal r <;>
            simp [again, got, formals, more, returned, inner, value, fits]
  | .proc i name ps body => by
    have formals := params_checked env [] ps
    by_cases again : env.terms.declaredHere name
    · simp [again]
    cases got : (params env [] ps).result with
    | error e => simp [again, got, formals]
    | ok ts =>
      have inner := stmt_checked ((env.addConst name (.typed (.func ts .void)
        (.declared .proc name i.pos))).enterRoutine.bindParams (params env [] ps).node ts) body
      simp [again, got, formals, inner]

theorem declsOfStmt_checked (env : Env) : ∀ ds : List Decl,
    declsOfStmt env (declsOfStmt env ds).1 = declsOfStmt env ds
  | [] => rfl
  | d :: ds => by
    have head := decl_checked env d
    cases got : (decl env d).result with
    | ok =>
      have tail := declsOfStmt_checked (decl env d).env ds
      simp [got, head, tail]
    | error e =>
      have tail := declsOfStmt_checked (fallback (decl env d).env (decl env d).node).2 ds
      have filled := decl_fallback (decl env d).env head
      simp [got, filled, fallback_fallback, tail]

theorem stmt_checked (env : Env) : ∀ s : Stmt, stmt env (stmt env s).1 = stmt env s
  | .assign i target value => by
    have left := asVariable_settled rfl (expr_checked env target)
    have right := expr_settled (expr_checked env value)
    have text : (settled (asVariable env target (expr env target))).1.text = target.text := by
      rw [← Expr.text_erased, (settled_agrees (asVariable_agrees Slots.pos_emptied env
        (expr_agrees Slots.pos_emptied env target))).1, Expr.text_erased]
    simp [left, right, settled_settled, assignReports, text]
  | .call i decl name as => by
    cases found : env.terms.lookup? name with
    | none => simp [found]
    | some m =>
      cases rule : procedureRule i.pos name m with
      | error d => simp [found, rule]
      | ok wants =>
        have inner := args_checked env name 1 wants as
        by_cases arity : as.length = wants.length
        · cases got : (args env name 1 wants as).result <;>
            simp [found, rule, arity, got, inner]
        · simp [found, rule, arity]
  | .seq i ss => by
    have inner := stmts_checked env ss
    simp [inner]
  | .letIn i ds body => by
    have first := declsOfStmt_checked env.enterBlock ds
    have second := stmt_checked (declsOfStmt env.enterBlock ds).2.1 body
    simp [first, second]
  | .ifThen i test yes | .whileDo i test yes => by
    have first := condition_checked (expr_checked env test)
    have second := stmt_checked env yes
    simp [first, second]
  | .ifElse i test yes no => by
    have first := condition_checked (expr_checked env test)
    have second := stmt_checked env yes
    have third := stmt_checked env no
    simp [first, second, third]
  | .repeatUntil i body test | .repeatWhile i body test => by
    have first := stmt_checked env body
    have second := condition_checked (expr_checked env test)
    simp [first, second]
  | .loopWhile i pre test post => by
    have first := stmt_checked env pre
    have second := condition_checked (expr_checked env test)
    have third := stmt_checked env post
    simp [first, second, third]
  | .forever i body => by
    have inner := stmt_checked env body
    simp [inner]
  | .skip i => rfl

theorem stmts_checked (env : Env) : ∀ ss : List Stmt, stmts env (stmts env ss).1 = stmts env ss
  | [] => rfl
  | s :: ss => by
    have head := stmt_checked env s
    have tail := stmts_checked env ss
    simp [head, tail]
end

end Check

/-- The mistakes that checking finds do not depend on the slots, which are all that it changes. Checking
the result once more finds the same mistakes and leaves every slot as it is. -/
theorem Program.check_slotless (p q : Program) :
    (p.erased = q.erased → p.check.2 = q.check.2) ∧ p.check.1.erased = p.erased ∧
      p.check.1.check = p.check := by
  have reports (r : Program) : r.check.2 = r.erased.check.2 := by
    have same := (Check.stmt_agrees Slots.pos_emptied .standard r.body).2
    rw [Check.Env.place_id, ← erased_eq.stmt] at same
    exact (same.trans (List.map_id _)).symm
  refine ⟨fun same => ?_, ?_, ?_⟩
  · rw [reports p, reports q, same]
  · exact p.erased_check
  · have again := Check.stmt_checked .standard p.body
    exact Prod.ext (congrArg (Program.mk ·.1) again) (congrArg (·.2) again)

/-- Mistakes in a declaration, a routine, a condition and an assignment, over slots filled with `i`
and `b`. -/
def Program.mistaken (i : Info) (b : Option Binding) : Program :=
  let name (x : String) : Expr := .ident i b x
  let half : Decl := .func i "half" [.value i "n" (.named i "Integer")] (.named i "Char")
    (.binary i b "/" (name "n") (.int i 2))
  ⟨.letIn i [.const i "c" (name "nowhere"), half, .var i "v" (.array i 3 (.named i "Char"))]
    (.whileDo i (name "c") (.seq i [.assign i (name "half") (.int i 1),
      .assign i (.subscript i (name "v") (.int i 0)) (.call i b "half" [.value i (name "c")])]))⟩

def Program.mistakenClean : Program := mistaken {} none

def Program.mistakenStale : Program :=
  mistaken { ty := some .char } (some (.standard .const "maxint"))

theorem Program.mistaken_slotless :
    mistakenClean.erased = mistakenStale.erased ∧ mistakenClean.check.2.length = 5 ∧
      mistakenClean.check.2 = mistakenStale.check.2 ∧
      mistakenStale.check.1.erased = mistakenStale.erased ∧
      mistakenStale.check.1.check = mistakenStale.check := by
  have same : mistakenClean.erased = mistakenStale.erased := rfl
  have found : mistakenClean.check.2.length = 5 := rfl
  exact ⟨same, found, (check_slotless _ _).1 same, (check_slotless _ mistakenClean).2⟩

end Triangle
