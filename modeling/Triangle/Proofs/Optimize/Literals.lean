import Mathlib
import Triangle.Optimize.Fold
import Triangle.Proofs.Layout.Values
import Triangle.Proofs.Scope
import Triangle.Proofs.Tree.Induction
import Triangle.Proofs.Typing.Basic

/-! Integers written in a program are machine words: the checker sees to this, and constant folding
writes no others. -/
namespace Triangle

/-- An integer is one that a word can hold. -/
def Literal.Fits : Literal → Prop
  | .int n => -0x8000 ≤ n ∧ n < 0x8000
  | _ => True

mutual
/-- Every integer in the tree fits. -/
def Expr.Fits : Expr → Prop
  | .int _ n => (Literal.int n).Fits
  | .char _ _ | .bool _ _ | .ident _ _ _ => True
  | .subscript _ array index => array.Fits ∧ index.Fits
  | .select _ record _ => record.Fits
  | .unary _ _ _ operand => operand.Fits
  | .binary _ _ _ left right => left.Fits ∧ right.Fits
  | .call _ _ _ args => ArgsFit args
  | .cond _ test yes no => test.Fits ∧ yes.Fits ∧ no.Fits
  | .letIn _ decls body => DeclsFit decls ∧ body.Fits
  | .array _ elems => ExprsFit elems
  | .record _ fields => FieldsFit fields

def ExprsFit : List Expr → Prop
  | [] => True
  | e :: es => e.Fits ∧ ExprsFit es

def FieldsFit : List (String × Expr) → Prop
  | [] => True
  | (_, e) :: rest => e.Fits ∧ FieldsFit rest

def Arg.Fits : Arg → Prop
  | .value _ value => value.Fits
  | .var _ target => target.Fits
  | .func _ _ _ => True

def ArgsFit : List Arg → Prop
  | [] => True
  | a :: as => a.Fits ∧ ArgsFit as

def Decl.Fits : Decl → Prop
  | .const _ _ value => value.Fits
  | .func _ _ _ _ body => body.Fits
  | .proc _ _ _ body => body.Fits
  | .var _ _ _ | .type _ _ _ => True

def DeclsFit : List Decl → Prop
  | [] => True
  | d :: ds => d.Fits ∧ DeclsFit ds

def Stmt.Fits : Stmt → Prop
  | .assign _ target value => target.Fits ∧ value.Fits
  | .call _ _ _ args => ArgsFit args
  | .seq _ stmts => StmtsFit stmts
  | .letIn _ decls body => DeclsFit decls ∧ body.Fits
  | .ifThen _ test yes => test.Fits ∧ yes.Fits
  | .ifElse _ test yes no => test.Fits ∧ yes.Fits ∧ no.Fits
  | .whileDo _ test body => test.Fits ∧ body.Fits
  | .repeatUntil _ body test => body.Fits ∧ test.Fits
  | .repeatWhile _ body test => body.Fits ∧ test.Fits
  | .loopWhile _ pre test post => pre.Fits ∧ test.Fits ∧ post.Fits
  | .forever _ body => body.Fits
  | .skip _ => True

def StmtsFit : List Stmt → Prop
  | [] => True
  | s :: ss => s.Fits ∧ StmtsFit ss
end

theorem Expr.Fits.literal {e : Expr} (fits : e.Fits) (same : e.literal? = some l) : l.Fits := by
  cases e <;> simp only [Expr.literal?, Option.some.injEq, reduceCtorEq] at same <;> subst same
  · simpa only [Expr.Fits] using fits
  · trivial
  · trivial

theorem Literal.Fits.toExpr {l : Literal} (fits : l.Fits) (i : Info) : (l.toExpr i).Fits := by
  cases l with
  | int n => simpa only [Literal.toExpr, Expr.Fits] using fits
  | char | bool => simp only [Literal.toExpr, Expr.Fits]

/-! ## What the checker accepts -/

namespace Check

/-- The checker bounds the integers that are written down, and its rules reach every part. -/
theorem fits_of_typed : Everywhere (fun e => ∀ {env t}, ExprTyped env e t → e.Fits)
    (fun fields => ∀ {env types}, FieldsTyped env fields types → FieldsFit fields)
    (fun es => ∀ {env elem}, ElemsTyped env elem es → ExprsFit es)
    (fun ds => ∀ {env final}, DeclsTyped env ds final → DeclsFit ds)
    (fun d => ∀ {env next}, DeclTyped env d next → d.Fits)
    (fun s => ∀ {env}, StmtTyped env s → s.Fits)
    (fun ss => ∀ {env}, StmtsTyped env ss → StmtsFit ss)
    (fun as => ∀ {env wants}, ArgsTyped env as wants → ArgsFit as)
    (fun a => ∀ {env want}, ArgTyped env a want → a.Fits) := by
  apply tree_induction
  case int =>
    rintro _ n _ _ ⟨-, -, lower, upper⟩
    simp only [Expr.Fits, Literal.Fits, minInt, maxInt] at lower upper ⊢
    omega
  all_goals
    intros
    simp_all only [ExprTyped, FieldsTyped, ElemsTyped, DeclsTyped, DeclTyped, StmtTyped, StmtsTyped,
      ArgsTyped, ArgTyped, Expr.Fits, FieldsFit, ExprsFit, DeclsFit, Decl.Fits, Stmt.Fits,
      StmtsFit, ArgsFit, Arg.Fits]
    try grind

theorem StmtTyped.fits {c : Stmt} {env : Env} (typed : StmtTyped env c) : c.Fits :=
  fits_of_typed.stmt c typed

end Check

namespace Optimize

/-! ## What folding writes -/

namespace Tally

variable {α β : Type}

@[simp] theorem value_pure (a : α) : (pure a : Tally α).value = a := rfl

@[simp] theorem value_bind (x : Tally α) (f : α → Tally β) : (x >>= f).value = (f x.value).value := rfl

@[simp] theorem value_changed (a : α) : (changed a).value = a := rfl

end Tally

namespace Fold

/-- All literals that names stand for fit. -/
def Consts.Fit (consts : Consts) : Prop := ∀ x l, consts.literal? x = some l → l.Fits

namespace Consts

variable {consts : Consts}

@[simp] theorem literal?_enterBlock (x : String) :
    literal? (consts.enterBlock : Consts) x = consts.literal? x := by
  simp [literal?]

@[simp] theorem literal?_enterScope (state : Int) (x : String) :
    literal? (consts.enterScope state : Consts) x = consts.literal? x := by
  simp [literal?]

@[simp] theorem literal?_hide (name x : String) :
    (consts.hide name).literal? x = if x = name then none else consts.literal? x := by
  simp only [literal?, hide, Scope.Table.add, Scope.Table.lookup?_insert]
  split <;> rfl

/-- A name is known to be a literal after a declaration only if the value is one. -/
theorem literal?_bind (name : String) (value : Expr) (x : String) :
    (consts.bind name value).literal? x =
      if x = name then value.literal? else consts.literal? x := by
  cases same : value.literal? with
  | some l =>
    simp only [Consts.bind, same, literal?, Scope.Table.addConst, Scope.Table.lookup?_insert]
    split <;> rfl
  | none => simp only [Consts.bind, same, literal?_hide]

theorem literal?_inside (params : List Param) (x : String) :
    (consts.inside params).literal? x =
      if x ∈ params.map Param.name then none else consts.literal? x := by
  have hidden : ∀ (params : List Param) (t : Consts),
      (params.foldl (fun t p => t.hide p.name) t).literal? x =
        if x ∈ params.map Param.name then none else t.literal? x := by
    intro params
    induction params with
    | nil => simp
    | cons p params ih =>
      intro t
      rw [List.foldl_cons, ih, literal?_hide]
      grind
  rw [inside, hidden, literal?_enterScope]

theorem Fit.hide (fit : consts.Fit) (name : String) : (consts.hide name).Fit := by
  intro x l found
  rw [literal?_hide] at found
  split at found
  · cases found
  · exact fit x l found

theorem Fit.inside (fit : consts.Fit) (params : List Param) : (consts.inside params).Fit := by
  intro x l found
  rw [literal?_inside] at found
  split at found
  · cases found
  · exact fit x l found

theorem Fit.enterBlock (fit : consts.Fit) : Fit consts.enterBlock :=
  fun x l found => fit x l (by simpa using found)

theorem Fit.bind {value : Expr} (fit : consts.Fit) (fits : value.Fits) (name : String) :
    (consts.bind name value).Fit := by
  intro x l found
  rw [literal?_bind] at found
  split at found
  · exact fits.literal found
  · exact fit x l found

end Consts

theorem fits_ofWord? {w : Option Word} (found : ofWord? w = .literal l) : l.Fits := by
  cases w with
  | none => cases found
  | some w =>
    cases found
    exact ⟨w.le_toInt, w.toInt_lt⟩

theorem fits_ofUnary {op : String} {operand : Literal} (found : ofUnary op operand = .literal l) :
    l.Fits := by
  unfold ofUnary at found
  split at found
  · exact fits_ofWord? found
  · cases found
    trivial
  · cases found

theorem fits_ofBinary {op : String} {left right : Literal}
    (found : ofBinary op left right = .literal l) : l.Fits := by
  unfold ofBinary ofInts ofBools ofChars at found
  split at found
  · split at found
    · split at found
      · cases found
      · exact fits_ofWord? found
    · split at found <;> cases found <;> trivial
  · split at found <;> cases found <;> trivial
  · split at found <;> cases found <;> trivial
  · cases found

theorem fits_ofCall {name : String} {arg : Literal} (found : ofCall name arg = .literal l) :
    l.Fits := by
  unfold ofCall at found
  split at found
  · split at found <;> cases found
    trivial
  · rename_i c
    split at found <;> cases found
    rename_i small
    simp only [Literal.Fits, Word.greatest] at small ⊢
    omega
  · cases found

/-- What stands in the place of a node: a literal that is known to be its value, or the node. -/
theorem value_replace (e : Expr) (v : Value) :
    (v.replace e).value = match v with
      | .literal l => l.toExpr e.info
      | _ => e := by
  cases v <;> rfl

theorem fits_replace {e : Expr} {v : Value} (fits : e.Fits)
    (known : ∀ l, v = .literal l → l.Fits) : (v.replace e).value.Fits := by
  rw [value_replace]
  split
  · exact (known _ rfl).toExpr _
  · exact fits

/-- A value is only known of a standard routine. -/
theorem valueIf_literal {decl : Option Binding} {value : Option Value}
    (found : valueIf decl value = .literal l) :
    decl.any Binding.isStandard = true ∧ value = some (.literal l) := by
  unfold valueIf at found
  split at found
  · rename_i standard
    refine ⟨standard, ?_⟩
    cases value with
    | none => cases found
    | some v => exact congrArg some found
  · cases found

theorem fits_tree : Everywhere
    (fun e => ∀ consts : Consts, consts.Fit → e.Fits → (expr consts e).value.Fits)
    (fun fields => ∀ consts : Consts, consts.Fit → FieldsFit fields →
      FieldsFit (fieldExprs consts fields).value)
    (fun es => ∀ consts : Consts, consts.Fit → ExprsFit es → ExprsFit (exprs consts es).value)
    (fun ds => ∀ consts : Consts, consts.Fit → DeclsFit ds →
      (decls consts ds).value.1.Fit ∧ DeclsFit (decls consts ds).value.2)
    (fun d => ∀ consts : Consts, consts.Fit → d.Fits →
      (decl consts d).value.1.Fit ∧ (decl consts d).value.2.Fits)
    (fun s => ∀ consts : Consts, consts.Fit → s.Fits → (stmt consts s).value.Fits)
    (fun ss => ∀ consts : Consts, consts.Fit → StmtsFit ss → StmtsFit (stmts consts ss).value)
    (fun as => ∀ consts : Consts, consts.Fit → ArgsFit as → ArgsFit (args consts as).value)
    fun a => ∀ consts : Consts, consts.Fit → a.Fits → (arg consts a).value.Fits := by
  apply tree_induction
  case ident =>
    intro _ _ name consts known fits
    rw [expr]
    split
    · rename_i l found
      exact (known name l found).toExpr _
    · exact fits
  case unary => -- the operators and calls
    intro _ _ _ _ operand consts known fits
    refine fits_replace (operand consts known fits) fun l found => ?_
    obtain ⟨a, -, same⟩ := Option.map_eq_some_iff.mp (valueIf_literal found).2
    exact fits_ofUnary same
  case binary =>
    intro _ _ _ _ _ left right consts known fits
    refine fits_replace ⟨left consts known fits.1, right consts known fits.2⟩ fun l found => ?_
    have value := (valueIf_literal found).2
    simp only [Option.bind_eq_bind, Option.bind_eq_some_iff, Option.pure_def,
      Option.some.injEq] at value
    obtain ⟨a, -, b, -, same⟩ := value
    exact fits_ofBinary same
  case call =>
    intro _ _ _ _ as consts known fits
    refine fits_replace (as consts known fits) fun l found => ?_
    have value := (valueIf_literal found).2
    split at value
    · obtain ⟨a, -, same⟩ := Option.map_eq_some_iff.mp value
      exact fits_ofCall same
    · cases value
  case letIn => -- a let, which may go
    intro _ _ _ first second consts known fits
    obtain ⟨inner, declared⟩ := first _ known.enterBlock fits.1
    simp only [expr, Tally.value_bind]
    split
    · exact second _ inner fits.2
    · exact ⟨declared, second _ inner fits.2⟩
  case letStmt =>
    intro _ _ _ first second consts known fits
    obtain ⟨inner, declared⟩ := first _ known.enterBlock fits.1
    exact ⟨declared, second _ inner fits.2⟩
  case const => -- a constant, and the routines
    intro _ name _ value consts known fits
    exact ⟨known.bind (value consts known fits) name, value consts known fits⟩
  case func =>
    intro _ name params _ _ body consts known fits
    exact ⟨known.hide name, body _ ((known.hide name).inside params) fits⟩
  case proc =>
    intro _ name params _ body consts known fits
    exact ⟨known.hide name, body _ ((known.hide name).inside params) fits⟩
  all_goals
    simp +contextual [expr, Expr.Fits, fieldExprs, FieldsFit, exprs, ExprsFit, decls, DeclsFit, decl,
      Decl.Fits, stmt, Stmt.Fits, stmts, StmtsFit, args, ArgsFit, arg, Arg.Fits, Consts.Fit.hide]

theorem fits_expr (e : Expr) {consts : Consts} (known : consts.Fit) (fits : e.Fits) :
    (expr consts e).value.Fits := fits_tree.expr e consts known fits

end Fold
end Optimize
end Triangle
