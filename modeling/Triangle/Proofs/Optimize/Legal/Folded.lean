import Mathlib
import Triangle.Proofs.Optimize.Folding
import Triangle.Proofs.Tree.Declared
import Triangle.Proofs.Tree.Induction
import Triangle.Proofs.Typing.Replacing

/-! Folding keeps a tree stable: a literal that stands for a node has the node's type, and a name that
stands for a literal is a constant. -/
namespace Triangle

variable {e : Expr}

namespace Check

variable {env env' : Env} {t : Ty}

theorem stable_toExpr {l : Literal} {i : Info} (fits : l.Fits) (filled : i.ty = some l.ty) :
    ExprStable env (l.toExpr i) l.ty := by
  have info := Info.eq_setTy filled
  cases l with
  | int n =>
    simp only [Literal.Fits] at fits
    have low : minInt ≤ n := by simpa only [minInt] using fits.1
    have high : n ≤ maxInt := by simp only [maxInt]; omega
    exact expr_int.mpr ⟨low, high, rfl, congrArg (Expr.int · n) info⟩
  | char c => exact expr_char.mpr ⟨rfl, congrArg (Expr.char · c) info⟩
  | bool b => exact expr_bool.mpr ⟨rfl, congrArg (Expr.bool · b) info⟩

/-- A stable literal is stable everywhere. -/
theorem stable_of_literal {l : Literal} (stable : ExprStable env e t)
    (same : e.literal? = some l) : ExprStable env' e t := by
  cases e with
  | int => exact expr_int.mpr (expr_int.mp stable)
  | char => exact expr_char.mpr (expr_char.mp stable)
  | bool => exact expr_bool.mpr (expr_bool.mp stable)
  | _ => cases same

theorem fits_of_literal {l : Literal} (stable : ExprStable env e t)
    (same : e.literal? = some l) : l.Fits := by
  cases e with
  | int i n =>
    cases same
    obtain ⟨low, high, -⟩ := expr_int.mp stable
    exact ⟨by simpa only [minInt] using low, by simp only [maxInt] at high; omega⟩
  | char | bool =>
    cases same
    trivial
  | _ => cases same

end Check

variable {op name : String}

namespace Optimize.Fold
open Check

variable {env : Env} {t u v want : Ty} {l : Literal} {m : Check.Meaning} {consts : Consts}

/-! ## Types of known values -/

theorem ty_ofWord? {w : Option Word} (found : ofWord? w = .literal l) : l.ty = .integer := by
  cases w with
  | none => cases found
  | some w =>
    cases found
    rfl

/-- The value of a standard operator before a literal has the operator's type. -/
theorem ty_ofUnary {a : Literal} (genuine : env.Genuine)
    (found : env.unary? op = some m) (isStandard : m.decl.isStandard = true)
    (signature : m.signature? = some ([want], t)) (value : ofUnary op a = .literal l) :
    t = l.ty := by
  obtain ⟨b, rfl⟩ := Meaning.signature?_ok.mp signature
  have known : Check.standardTerms.lookup op = some (.typed (.func [want] t) b) ∨
      Check.standardTerms.lookup (unaryKey op) = some (.typed (.func [want] t) b) :=
    (Env.unary?_found found).imp (genuine.lookup · isStandard) (genuine.lookup · isStandard)
  unfold ofUnary at value
  split at value
  · rw [ty_ofWord? value]
    rcases known with infix' | own
    · cases infix'
    · cases own
      rfl
  · cases value
    rcases known with infix' | own
    · cases infix'
    · cases own
      rfl
  · cases value

theorem joined_func {ps : List Ty} {r : Ty} {b : Binding}
    (joins : (Check.Meaning.typed (.func ps r) b).Joins u v t) : r = t := by
  obtain ⟨p, q, same, _⟩ := joins
  cases same
  rfl

theorem ty_ofBinary {a b : Literal} (genuine : env.Genuine)
    (found : env.terms.lookup? op = some m) (isStandard : m.decl.isStandard = true)
    (joins : m.Joins u v t) (value : ofBinary op a b = .literal l) : t = l.ty := by
  have known := genuine.lookup found isStandard
  unfold ofBinary at value
  split at value
  · unfold ofInts at value
    split at value
    · rename_i f arithmetic
      split at value
      · cases value
      · rw [ty_ofWord? value]
        unfold arithmetic? at arithmetic
        split at arithmetic <;> cases arithmetic <;> cases known <;> exact (joined_func joins).symm
    · split at value <;> cases value <;> cases known <;>
        first | exact joins.2 | exact (joined_func joins).symm
  · unfold ofBools at value
    split at value <;> cases value <;> cases known <;>
      first | exact joins.2 | exact (joined_func joins).symm
  · unfold ofChars at value
    split at value <;> cases value <;> cases known <;> exact joins.2
  · cases value

theorem ty_ofCall {wants : List Ty} {b : Binding} {a : Literal}
    (genuine : env.Genuine) (found : env.terms.lookup? name = some (.typed (.func wants t) b))
    (isStandard : b.isStandard = true) (value : ofCall name a = .literal l) : t = l.ty := by
  have known := genuine.lookup found isStandard
  unfold ofCall at value
  split at value
  · split at value <;> cases value
    cases known
    rfl
  · split at value <;> cases value
    cases known
    rfl
  · cases value

/-! ## Known constants -/

/-- Names that stand for literals are constants of the literals' types. -/
def Consts.Typed (consts : Consts) (env : Env) : Prop :=
  ∀ x l, consts.literal? x = some l → l.Fits ∧ ∃ b, env.terms.bound? x = some ⟨.typed l.ty b, true⟩

namespace Consts.Typed

theorem standard : Consts.standard.Typed Env.standard := by
  intro x l found
  simp only [literal?, Consts.standard, Scope.Table.addConst, Scope.Table.lookup?_insert] at found
  split at found
  · cases found
    subst x
    exact ⟨by simp [Literal.Fits, Word.greatest], _, rfl⟩
  · split at found
    · cases found
      subst x
      exact ⟨trivial, _, rfl⟩
    · split at found
      · cases found
        subst x
        exact ⟨trivial, _, rfl⟩
      · cases found

theorem enterBlock (known : consts.Typed env) : Consts.Typed consts.enterBlock env.enterBlock := by
  intro x l found
  simpa [Env.enterBlock] using known x l (by simpa using found)

/-- A name that is no literal may be declared as anything. -/
theorem hide (known : consts.Typed env) (d : Decl) :
    (consts.hide d.name).Typed (env.declare d) := by
  intro x l found
  rw [literal?_hide] at found
  split at found
  · cases found
  · rename_i other
    simpa [bound?_declare, other] using known x l found

theorem type (known : consts.Typed env) (i : Info) (name : String) (s : Sig) :
    consts.Typed (env.declare (.type i name s)) := by
  intro x l found
  simpa [bound?_declare, Decl.kind] using known x l found

theorem bind (known : consts.Typed env) {i : Info} {value value' : Expr}
    (stable : ExprStable env value' t) (filled : i.ty = some t.deref) :
    (consts.bind name value').Typed (env.declare (.const i name value)) := by
  intro x l found
  rw [literal?_bind] at found
  rw [bound?_declare]
  split at found
  · rename_i same
    have fits := fits_of_literal stable found
    obtain rfl := ty_of_literal stable found
    refine ⟨fits, (Decl.const i name value).binding, ?_⟩
    rw [if_pos ⟨by simp [Decl.kind], same⟩]
    simp [Decl.info, filled, Decl.kind]
  · rename_i other
    rw [if_neg (by simp [Decl.name, other])]
    exact known x l found

theorem inside (known : consts.Typed env) (params : List Param) (types : List Ty) :
    (consts.inside params).Typed (env.enterRoutine.bindParams params types) := by
  intro x l found
  rw [literal?_inside] at found
  split at found
  · cases found
  · rename_i other
    rw [bound?_bindParams_of_not_mem other]
    simpa [Env.enterRoutine] using known x l found

end Consts.Typed

/-- What folding relies on where it stands. -/
structure Footing (consts : Consts) (env : Env) : Prop where
  sound : env.IsSound
  genuine : env.Genuine
  typed : consts.Typed env

namespace Footing

theorem standard : Footing .standard .standard := ⟨.standard, .standard, .standard⟩

theorem enterBlock (known : Footing consts env) : Footing consts.enterBlock env.enterBlock :=
  ⟨known.sound.enterBlock, known.genuine.enterBlock, known.typed.enterBlock⟩

theorem hide {d : Decl} (known : Footing consts env) (stable : DeclStable env d) :
    Footing (consts.hide d.name) (env.declare d) :=
  ⟨(decl_typed known.sound stable).2, known.genuine.declare d, known.typed.hide d⟩

theorem inside {d : Decl} {ps : List Param} {ts : List Ty} (known : Footing consts env)
    (stable : DeclStable env d) (formals : Check.params env [] ps = ⟨ps, .ok ts, []⟩) :
    Footing ((consts.hide d.name).inside ps) ((env.declare d).enterRoutine.bindParams ps ts) :=
  ⟨known.sound.inside stable formals, (known.genuine.declare d).enterRoutine.bindParams ps ts,
    (known.typed.hide d).inside ps ts⟩

end Footing

/-! ## Values in the place of nodes -/

section
variable {i : Info} {decl : Option Binding}

/-- A node that is replaced by its value, if that is known. -/
theorem becomes_replace {e' : Expr} {value : Value} (sound : env.IsSound) (rootless : e.root? = none)
    (becomes : Becomes env env e e')
    (known : ∀ l t, value = .literal l → ExprStable env e' t → t = l.ty ∧ l.Fits) :
    Becomes env env e (value.replace e').value := by
  rw [value_replace]
  split
  · rename_i l
    intro t stable
    obtain ⟨t', stable', deref, -⟩ := becomes t stable
    obtain ⟨rfl, fits⟩ := known l t' rfl stable'
    refine ⟨l.ty, stable_toExpr fits (expr_typed sound stable').1.slot, deref, fun root same => ?_⟩
    cases rootless.symm.trans same
  · exact becomes

theorem becomes_foldUnary {operand operand' : Expr} (known : Footing consts env)
    (inner : Becomes env env operand operand') :
    Becomes env env (.unary i decl op operand) (foldUnary i.alone decl op operand').value := by
  refine becomes_replace known.sound rfl (.unary (.refl env) (.alone i) decl op inner)
    fun l t found stable => ?_
  obtain ⟨isStandard, value⟩ := valueIf_literal found
  obtain ⟨a, -, folded⟩ := Option.map_eq_some_iff.mp value
  obtain ⟨m, want, _, got, called, signature, -, -, whole⟩ := expr_unary.mp stable
  obtain ⟨-, rfl, -⟩ := Expr.unary.inj whole
  exact ⟨ty_ofUnary known.genuine called (by simpa using isStandard) signature folded,
    fits_ofUnary folded⟩

theorem becomes_foldBinary {left left' right right' : Expr}
    (known : Footing consts env) (first : Becomes env env left left')
    (second : Becomes env env right right') : Becomes env env (.binary i decl op left right)
      (foldBinary i.alone decl op left' right').value := by
  refine becomes_replace known.sound rfl (.binary (.refl env) (.alone i) decl op first second)
    fun l t found stable => ?_
  obtain ⟨isStandard, value⟩ := valueIf_literal found
  obtain ⟨a, -, b, -, folded⟩ : ∃ a, left'.literal? = some a ∧ ∃ b, right'.literal? = some b ∧
      ofBinary op a b = .literal l := by
    simpa [Option.bind_eq_some_iff] using value
  obtain ⟨m, _, u, _, v, called, -, -, joins, whole⟩ := expr_binary.mp stable
  obtain ⟨-, rfl, -⟩ := Expr.binary.inj whole
  exact ⟨ty_ofBinary known.genuine called (by simpa using isStandard) joins folded,
    fits_ofBinary folded⟩

theorem becomes_foldCall {as as' : List Arg} (known : Footing consts env)
    (each : List.Forall₂ (ArgBecomes env env) as as') :
    Becomes env env (.call i decl name as) (foldCall i.alone decl name as').value := by
  refine becomes_replace known.sound rfl (.call (.refl env) (.alone i) decl name each)
    fun l t found stable => ?_
  obtain ⟨isStandard, value⟩ := valueIf_literal found
  obtain ⟨a, folded⟩ : ∃ a, ofCall name a = .literal l := by
    split at value
    · obtain ⟨a, -, folded⟩ := Option.map_eq_some_iff.mp value
      exact ⟨a, folded⟩
    · cases value
  obtain ⟨-, wants, b, _, called, -, -, whole⟩ := expr_call.mp stable
  obtain ⟨-, rfl, -⟩ := Expr.call.inj whole
  exact ⟨ty_ofCall known.genuine called (by simpa using isStandard) folded, fits_ofCall folded⟩

/-- A name that stands for a literal. -/
theorem becomes_literal (known : Footing consts env) (found : consts.literal? name = some l) :
    Becomes env env (.ident i decl name) (l.toExpr i.alone) := by
  intro t stable
  obtain ⟨fits, b, bound⟩ := known.typed name l found
  obtain ⟨-, c, called, whole⟩ := expr_ident.mp stable
  rw [Scope.Table.lookup?_eq_bound?, bound] at called
  cases called
  obtain ⟨info, -⟩ := Expr.ident.inj whole
  refine ⟨l.ty, stable_toExpr fits (Info.ty_of_eq_setTy (Info.alone_eq_setTy info)), rfl, ?_⟩
  rintro root ⟨⟩
  refine .inr ⟨?_, l, by cases l <;> rfl⟩
  rw [Scope.Table.isConst_eq_bound?, bound]
  rfl

/-- A let whose body has become a literal is no longer needed. -/
theorem becomes_letIn {ds ds' : List Decl} {body body' : Expr} (known : Footing consts env)
    (declared : DeclsStable env.enterBlock ds →
      DeclsBecome env.enterBlock env.enterBlock ds ds')
    (inside : DeclsStable env.enterBlock ds →
      Becomes (env.enterBlock.declareAll ds) (env.enterBlock.declareAll ds) body body') :
    Becomes env env (.letIn i ds body)
      (if body'.isLiteral then Tally.changed body' else pure (.letIn i.alone ds' body')).value := by
  split
  · rename_i isLiteral
    obtain ⟨l, same⟩ := Option.isSome_iff_exists.mp isLiteral
    intro t stable
    obtain ⟨_, inner, _, u, first, second, rfl, whole⟩ := expr_letIn.mp stable
    obtain ⟨-, rfl, rfl⟩ := Expr.letIn.inj whole
    obtain rfl := (decls_stable first).1
    obtain ⟨u', second', deref, -⟩ := inside first u second
    have data := (expr_typed (decls_typed known.sound.enterBlock first).2 second).2.1
    refine ⟨u', stable_of_literal second' same, by rw [deref, data.deref], fun root found => ?_⟩
    cases found
  · exact .letIn (.alone i) declared inside

end

/-! ## The tree -/

/-- Later declarations are folded on the footing that earlier ones leave. -/
theorem tree_becomes : Everywhere
    (fun e => ∀ consts env, Footing consts env → Becomes env env e (expr consts e).value)
    (fun fields => ∀ consts env, Footing consts env → List.Forall₂ (fun f f' => f'.1 = f.1 ∧
      Becomes env env f.2 f'.2) fields (fieldExprs consts fields).value)
    (fun es => ∀ consts env, Footing consts env →
      List.Forall₂ (Becomes env env) es (exprs consts es).value)
    (fun ds => ∀ consts env, Footing consts env → DeclsStable env ds →
      DeclsBecome env env ds (decls consts ds).value.2 ∧
        Footing (decls consts ds).value.1 (env.declareAll ds))
    (fun d => ∀ consts env, Footing consts env → DeclBecomes env env d (decl consts d).value.2 ∧
      (DeclStable env d → Footing (decl consts d).value.1 (env.declare d)))
    (fun s => ∀ consts env, Footing consts env → StmtBecomes env env s (stmt consts s).value)
    (fun ss => ∀ consts env, Footing consts env →
      List.Forall₂ (StmtBecomes env env) ss (stmts consts ss).value)
    (fun as => ∀ consts env, Footing consts env →
      List.Forall₂ (ArgBecomes env env) as (args consts as).value)
    fun a => ∀ consts env, Footing consts env → ArgBecomes env env a (arg consts a).value := by
  apply tree_induction
  case ident =>
    intro i decl name consts env known
    rw [expr]
    split
    · rename_i l found
      exact becomes_literal known found
    · exact .refl env _
  case unary => -- what may have a value
    intro i decl op operand inner consts env known
    exact becomes_foldUnary known (inner _ _ known)
  case binary =>
    intro i decl op left right first second consts env known
    exact becomes_foldBinary known (first _ _ known) (second _ _ known)
  case call =>
    intro i decl name as each consts env known
    exact becomes_foldCall known (each _ _ known)
  case letIn => -- the blocks
    intro i ds body first second consts env known
    exact becomes_letIn known (fun stable => (first _ _ known.enterBlock stable).1)
      fun stable => second _ _ (first _ _ known.enterBlock stable).2
  case letStmt =>
    intro i ds body first second consts env known
    exact .letIn (fun stable => (first _ _ known.enterBlock stable).1)
      fun stable => second _ _ (first _ _ known.enterBlock stable).2
  case const => -- the declarations
    intro i name value inner consts env known
    have inner := inner _ _ known
    refine ⟨.const (.alone i) inner, fun stable => ?_⟩
    refine ⟨(decl_typed known.sound stable).2, known.genuine.declare _, ?_⟩
    obtain ⟨-, _, t, first, whole, -⟩ := decl_const.mp stable
    obtain ⟨info, -, rfl⟩ := Decl.const.inj whole
    obtain ⟨t', first', deref, -⟩ := inner t first
    exact known.typed.bind first' (deref ▸ Info.ty_of_eq_setTy info)
  case var => exact fun i name sig consts env known => ⟨decl_same (.refl env) _, known.hide⟩
  case func =>
    intro i name params result body inner consts env known
    exact ⟨.func (.alone i) (.same (.refl env) params) (.same (.refl env) result)
      fun _ stable formals => inner _ _ (known.inside stable formals), known.hide⟩
  case proc =>
    intro i name params body inner consts env known
    exact ⟨.proc (.alone i) (.same (.refl env) params)
      fun _ stable formals => inner _ _ (known.inside stable formals), known.hide⟩
  case type =>
    intro i name sig consts env known
    exact ⟨decl_same (.refl env) _, fun stable => ⟨(decl_typed known.sound stable).2,
      known.genuine.declare _, known.typed.type i name sig⟩⟩
  case noDecls => exact fun consts env known _ => ⟨.nil env env, known⟩
  case decls =>
    intro d ds first later consts env known stable
    obtain ⟨head, tail⟩ := declsStable_cons.mp stable
    obtain ⟨first, next⟩ := first _ _ known
    obtain ⟨rest, final⟩ := later _ _ (next head) tail
    exact ⟨.cons first (fun _ => rest) head, final⟩
  all_goals
    intros
    simp [expr, fieldExprs, exprs, stmt, stmts, args, arg, Env.Widens.refl, *]

/-! ## What is declared -/

variable {deep : Bool} {P : DeclKind → String → Prop}

theorem declares_toExpr (l : Literal) (i : Info) : (l.toExpr i).Declares deep P := by
  cases l <;> trivial

theorem declares_replace (value : Value) (declared : e.Declares deep P) :
    (value.replace e).value.Declares deep P := by
  rw [value_replace]
  split
  · exact declares_toExpr _ _
  · exact declared

/-- Folding declares nothing new. -/
theorem declares_tree : Everywhere
    (fun e => ∀ consts, e.Declares deep P → (expr consts e).value.Declares deep P)
    (fun fields => ∀ consts, Expr.FieldsDeclare deep P fields →
      Expr.FieldsDeclare deep P (fieldExprs consts fields).value)
    (fun es => ∀ consts, Expr.Declare deep P es → Expr.Declare deep P (exprs consts es).value)
    (fun ds => ∀ consts, Decl.Declare deep P ds → Decl.Declare deep P (decls consts ds).value.2)
    (fun d => ∀ consts, d.Declares deep P → (decl consts d).value.2.Declares deep P)
    (fun s => ∀ consts, s.Declares deep P → (stmt consts s).value.Declares deep P)
    (fun ss => ∀ consts, Stmt.Declare deep P ss → Stmt.Declare deep P (stmts consts ss).value)
    (fun as => ∀ consts, Arg.Declare deep P as → Arg.Declare deep P (args consts as).value)
    (fun a => ∀ consts, a.Declares deep P → (arg consts a).value.Declares deep P) := by
  apply tree_induction
  case ident =>
    intro i decl name consts declared
    rw [expr]
    split
    · exact declares_toExpr _ _
    · trivial
  case unary | binary | call => -- an operator or a call
    intros
    refine declares_replace _ ?_
    simp_all [Expr.Declares]
  case letIn => -- a let, which may go
    intro i ds body outer inner consts declared
    simp only [expr, Tally.value_bind]
    split
    · exact inner _ declared.2
    · exact ⟨outer _ declared.1, inner _ declared.2⟩
  case func => -- the routines
    intro _ _ _ _ _ inner _ declared
    exact ⟨declared.1, fun deep => ⟨(declared.2 deep).1, inner _ (declared.2 deep).2⟩⟩
  case proc =>
    intro _ _ _ _ inner _ declared
    exact ⟨declared.1, fun deep => ⟨(declared.2 deep).1, inner _ (declared.2 deep).2⟩⟩
  all_goals
    simp +contextual [expr, Expr.Declares, fieldExprs, Expr.FieldsDeclare, exprs, Expr.Declare, decls,
      Decl.Declare, decl, Decl.Declares, stmt, Stmt.Declares, stmts, Stmt.Declare, args, Arg.Declare, arg,
      Arg.Declares]

end Optimize.Fold

/-- Folding comes to an end, keeps a stable program stable and declares nothing new. -/
theorem Program.fold_stable {p : Program} {cfg : FoldConfig} (threshold : 0 ≤ cfg.threshold)
    (stable : Check.StmtStable .standard p.body) :
    ∃ t, p.fold? cfg = some t ∧ Check.StmtStable .standard t.value.body ∧
      ∀ P, p.body.Declares true P → t.value.body.Declares true P := by
  obtain ⟨t, same, value⟩ := p.fold?_value threshold
  refine ⟨t, same, ?_, fun P declared => ?_⟩ <;> rw [value]
  · exact Optimize.Fold.tree_becomes.stmt p.body _ _ .standard stable
  · exact Optimize.Fold.declares_tree.stmt p.body _ declared

end Triangle
