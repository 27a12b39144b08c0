import Mathlib
import Triangle.Proofs.Generate.Limits
import Triangle.Proofs.Tree.Children
import Triangle.Proofs.Typing.Measured

/-! The generator makes code of every accepted tree, within the limits of the machine. It gets stuck
only in front of an operand: there the checker accepts names under which the generator has no
routine. The code is in form where the sizes of its values are. -/
namespace Triangle.Generate

open List (cons_append)
open Code (isIdentifier)

variable {allowed : Fault → Prop} {fits : Prop} {types : Check.Env} {env : Env} {t : Ty}

/-! ## Operators in front -/

/-- A standard routine in front of an operand that is no operator there. -/
def Foreign : Node → Prop
  | .expr (.unary _ (some (.standard _ _)) op _) => op ≠ "-" ∧ op ≠ "\\"
  | _ => False

attribute [local simp] Foreign Expr.nodes Stmt.nodes Decl.nodes

/-- The name under which the generator looks for an operator, where it is a wrong one: that of a
foreign routine, or of one that is declared under the key of the operator. -/
def Lost (node : Node) (name : String) : Prop :=
  match node with
  | .expr (.unary i (some (.standard kind key)) op operand) =>
    Foreign (.expr (.unary i (some (.standard kind key)) op operand)) ∧ name = Check.unaryKey op
  | .expr (.unary _ (some (.declared _ key _)) op _) => key = Check.unaryKey op ∧ name = op
  | _ => False

/-- It is allowed to fail at an operator that is lost, and the value of the node is one that a word
can count, if values fit. -/
def Covered (allowed : Fault → Prop) (fits : Prop) (node : Node) : Prop :=
  (∀ name pos, Lost node name → allowed (.fatal pos (.malformed (.noRoutine name)))) ∧
    (fits → ∀ t ∈ node.info.ty, t.deref.trueSize < 0x8000)

/-- All of these nodes are covered. -/
def Covers (allowed : Fault → Prop) (fits : Prop) (nodes : List Node) : Prop :=
  ∀ node ∈ nodes, Covered allowed fits node

@[simp] theorem covers_cons {node : Node} {nodes : List Node} :
    Covers allowed fits (node :: nodes) ↔
      Covered allowed fits node ∧ Covers allowed fits nodes :=
  List.forall_mem_cons

@[simp] theorem covers_append {nodes more : List Node} :
    Covers allowed fits (nodes ++ more) ↔
      Covers allowed fits nodes ∧ Covers allowed fits more :=
  List.forall_mem_append

/-- None of these nodes is a foreign routine. -/
def Clear (nodes : List Node) : Prop := ∀ node ∈ nodes, ¬Foreign node

@[simp] theorem clear_nil : Clear [] := by simp [Clear]

@[simp] theorem clear_cons {node : Node} {nodes : List Node} :
    Clear (node :: nodes) ↔ ¬Foreign node ∧ Clear nodes := by
  simp [Clear]

@[simp] theorem clear_append {nodes more : List Node} :
    Clear (nodes ++ more) ↔ Clear nodes ∧ Clear more := by
  simp only [Clear, List.mem_append, or_imp, forall_and]

@[simp] theorem clear_sig (s : Sig) : Clear s.nodes := Node.forall_sig (fun _ => id) s

@[simp] theorem clear_params (ps : List Param) : Clear (Param.listNodes ps) :=
  Node.forall_params (fun _ => id) (fun _ => id) ps

theorem clear_fieldNodes {fields : List (String × Expr)} (each : ∀ f ∈ fields, Clear f.2.nodes) :
    Clear (Expr.fieldNodes fields) := by
  induction fields with
  | nil => simp [Expr.fieldNodes]
  | cons f rest ih =>
    rw [List.forall_mem_cons] at each
    simp [Expr.fieldNodes, each.1, ih each.2]

/-- An operator means what has its name, or what has its key. -/
theorem unary_cases {op : String} {m : Check.Meaning} (found : types.unary? op = some m) :
    types.terms.lookup? op = some m ∧
        (m.decl.isStandard = true → types.terms.lookup? (Check.unaryKey op) = none) ∨
      types.terms.lookup? (Check.unaryKey op) = some m := by
  simp only [Check.Env.unary?] at found
  split at found
  · rename_i own same
    cases found
    split at same
    · rename_i known
      split at same
      · cases same
      · rename_i declared
        cases same
        exact .inl ⟨known, fun standard => absurd standard declared⟩
    · cases same
  · split at found
    · rename_i known
      cases found
      exact .inr known
    · rename_i missing
      exact .inl ⟨found, fun _ => missing⟩

/-- Only two operators have a standard meaning under their key. -/
theorem standard_prefixes {op : String} {m : Check.Meaning}
    (found : Check.standardTerms.lookup (Check.unaryKey op) = some m) : op = "-" ∨ op = "\\" := by
  have start (x : String) : (Check.unaryKey x).toList = "unary ".toList ++ x.toList :=
    String.toList_append
  have table : ∀ row ∈ Check.standardTerms, row.1.toList.take 6 = "unary ".toList →
      row.1 = Check.unaryKey "-" ∨ row.1 = Check.unaryKey "\\" := by decide
  have cancel {x : String} (same : Check.unaryKey op = Check.unaryKey x) : op = x := by
    have same := congrArg String.toList same
    rw [start, start] at same
    exact String.toList_inj.mp (List.append_cancel_left same)
  have keyed : (Check.unaryKey op).toList.take 6 = "unary ".toList := by
    rw [start]
    exact List.take_left' rfl
  exact (table _ (Scope.mem_of_lookup found) keyed).imp cancel cancel

/-- The generator knows what the checker does, routines start at labels, and names stand for terms
of a known size. -/
structure Known (types : Check.Env) (env : Env) : Prop extends Provides types env where
  labelled : env.Labelled
  measured : types.Measured

theorem Known.enterBlock (known : Known types env) : Known types.enterBlock env.enterBlock :=
  ⟨known.toProvides.enterBlock, known.labelled.enterBlock, known.measured.enterBlock⟩

theorem makes_prefixed {i : Info} {op : String} {operand : Expr} {m : Check.Meaning} {ps : List Ty}
    (limits : ∀ fault : Fault, fault.IsLimit → allowed fault) (known : Known types env)
    (found : types.unary? op = some m) (signature : m.signature? = some (ps, t))
    (covers : Covered allowed fits (.expr (.unary i (some m.decl) op operand))) :
    Makes allowed (invoke env (if m.decl.isStandard then Check.unaryKey op else op))
      fun code => ¬Foreign (.expr (.unary i (some m.decl) op operand)) ∧ Tidy fits code := by
  obtain ⟨b, rfl⟩ := Check.Meaning.signature?_ok.mp signature
  have called : IsRoutine (.typed (.func ps t) b) := rfl
  change Covered allowed fits (.expr (.unary i (some b) op operand)) at covers
  change Makes allowed (invoke env (if b.isStandard then Check.unaryKey op else op))
    fun code => ¬Foreign (.expr (.unary i (some b) op operand)) ∧ Tidy fits code
  cases named : env.callables.lookupWithDepth? (if b.isStandard then Check.unaryKey op else op) with
  | some c =>
    refine (makes_invoke limits fits (makes_callable limits known.labelled named)).weaken
      fun _ tidy => ⟨fun foreign => ?_, tidy⟩
    cases b with
    | declared => exact foreign
    | standard kind name =>
      rcases unary_cases found with ⟨-, missing⟩ | under
      · have none := known.hidden (missing rfl)
        simp [Binding.isStandard, none] at named
      · obtain ⟨m', standard⟩ := known.standard under
        rcases standard_prefixes standard with same | same
        · exact foreign.1 same
        · exact foreign.2 same
  | none =>
    have lost : Lost (.expr (.unary i (some b) op operand))
        (if b.isStandard then Check.unaryKey op else op) := by
      cases b with
      | standard kind name =>
        have missing : types.terms.lookup? (Check.unaryKey op) = none := by
          rcases unary_cases found with ⟨-, missing⟩ | under
          · exact missing rfl
          · obtain ⟨c, served⟩ := known.routine under called
            simp [Binding.isStandard, served] at named
        refine ⟨⟨fun same => ?_, fun same => ?_⟩, rfl⟩
        · exact known.prefixes op (by simp [same]) missing
        · exact known.prefixes op (by simp [same]) missing
      | declared kind name pos =>
        rcases unary_cases found with ⟨own, -⟩ | under
        · obtain ⟨c, served⟩ := known.routine own called
          simp [Binding.isStandard, served] at named
        · exact ⟨known.declared under, rfl⟩
    have stuck : callable env (if b.isStandard then Check.unaryKey op else op) =
        fail (.malformed (.noRoutine (if b.isStandard then Check.unaryKey op else op))) := by
      unfold callable
      rw [named]
    rw [invoke, stuck]
    exact (makes_fail fun pos => covers.1 _ pos lost).bind fun _ never => never.elim

/-! ## Trees -/

theorem works_paramsSize {params : List Param} {ts : List Ty}
    (formals : List.Forall₂ Check.ParamTyped params ts) :
    ∀ size, Works allowed (paramsSize size params) := by
  induction formals with
  | nil => exact fun _ => works_pure
  | cons typed _ ih => exact fun _ => (makes_typeOf typed.1).then fun _ => ih _

/-- Parameters are known in the body of their routine. -/
theorem makes_bindParams {params : List Param} {ts : List Ty}
    (formals : List.Forall₂ Check.ParamTyped params ts) :
    ∀ {types env} start, Provides types env → env.Labelled →
      Makes allowed (bindParams env start params) fun inner =>
        Provides (types.bindParams params ts) inner ∧ inner.Labelled := by
  induction formals with
  | nil => exact fun _ provides labelled => makes_pure ⟨provides, labelled⟩
  | @cons p t ps ts typed _ ih =>
    intro types env start provides labelled
    obtain ⟨slot, kind⟩ := typed
    refine (makes_typeOf slot).then fun _ => ?_
    cases p with
    | value i name sig =>
      exact ih _ (provides.bindValue kind.data.notFunc (by simp) ⟨_, _, rfl⟩) labelled
    | var i name sig =>
      obtain ⟨inner, rfl, value⟩ := kind
      have plain : inner.ref.isFunc = false := by
        have own := value.data.notFunc
        rwa [Ty.isFunc, value.data.deref] at own
      exact ih _ (provides.bindValue plain (by simp) ⟨_, _, rfl⟩) labelled
    | func i name formals result =>
      obtain ⟨qs, r, rfl, -⟩ := kind
      exact ih _ (provides.bindRoutine rfl ⟨_, _, rfl⟩) (labelled.addCallable _ (by simp))

theorem makes_routine {name : String} {params : List Param} {ts : List Ty} {r : Ty} {n : Int}
    {kind : DeclKind} {pos : Pos} {body : Env → Gen Code} {P : Prop}
    (limits : ∀ fault : Fault, fault.IsLimit → allowed fault) (known : Known types env)
    (formals : List.Forall₂ Check.ParamTyped params ts)
    (measured : (types.addConst name (.typed (.func ts r) (.declared kind name pos))).Measured)
    (made : ∀ inner, Known ((types.addConst name (.typed (.func ts r)
      (.declared kind name pos))).enterRoutine.bindParams params ts) inner →
        Makes allowed (body inner) fun code => P ∧ Tidy fits code) :
    Makes allowed (routine env name params n body) fun made =>
      Known (types.addConst name (.typed (.func ts r) (.declared kind name pos))) made.1 ∧ P ∧
        Tidy fits made.2 := by
  refine (makes_routineLabel _).bind fun entry named => ?_
  -- the routine is known in its own body and after it
  have bound : Known (types.addConst name (.typed (.func ts r) (.declared kind name pos)))
      (env.addCallable name (.routine entry)) :=
    ⟨known.bindRoutine rfl ⟨_, _, rfl⟩, known.labelled.addCallable name (by simp [named]), measured⟩
  refine (makes_newLabel (by decide)).bind fun skip skipped =>
    (makes_jump limits fits skipped).bind fun _ past =>
    (makes_label limits fits named).bind fun _ start =>
    (makes_within (P := fun code => P ∧ Tidy fits code) ?_).bind fun _ inside =>
    (makes_label limits fits skipped).bind fun _ finish =>
    makes_pure ⟨bound, inside.1, by simp [past, start, inside.2, finish]⟩
  exact (works_paramsSize formals _).then fun _ =>
    (makes_bindParams formals _ bound.toProvides.enterFrame bound.labelled.enterFrame).bind
    fun inner opened => (made inner ⟨opened.1, opened.2,
      measured.enterRoutine.bindParams formals⟩).bind fun _ code =>
    (makes_emit limits fits (by simp)).bind fun _ back =>
    makes_pure ⟨code.1, by simp [code.2, back]⟩

/-- The value of a measured type takes no negative number of words. -/
theorem makes_sizeOf {i : Info} (slot : i.ty = some t) (measured : t.Measured)
    (small : fits → ∀ t ∈ i.ty, t.deref.trueSize < 0x8000) :
    Makes allowed (sizeOf i) fun n => fits → 0 ≤ n := by
  refine (makes_typeOf slot).bind fun _ same => makes_pure fun fits => ?_
  subst same
  rw [measured.deref.size_eq (small fits _ slot)]
  omega

mutual
theorem expr_makes (limits : ∀ fault : Fault, fault.IsLimit → allowed fault) (e : Expr)
    {types env t} (known : Known types env) (typed : Check.ExprTyped types e t)
    (covers : Covers allowed fits e.nodes) :
    Makes allowed (expr env e) fun code => Clear e.nodes ∧ Tidy fits code := by
  cases e with
  | int i value | char i value | bool i value =>
    exact (works_moveTo _).then fun _ => (makes_emit limits fits (by simp)).weaken fun _ code => by
      simp [code]
  | ident i decl name =>
    obtain ⟨slot, plain, b, -, found⟩ := typed
    obtain ⟨e, depth, named, -⟩ := known.value found plain
    have clear : Clear (Expr.nodes (.ident i decl name)) := by simp
    refine (works_moveTo _).then fun _ => (makes_entity named).bind fun _ same => ?_
    subst same
    cases e with
    | known v => exact (makes_emit limits fits (by simp)).weaken fun _ code => ⟨clear, code⟩
    | stored off | indirect off =>
      exact (makes_locateName limits fits named (by simp)).bind fun _ base =>
        (works_sizeOf slot).then fun _ => (makes_load limits fits _ _).bind fun _ value =>
        makes_pure (by simp [base, value])
  | subscript i array index =>
    obtain ⟨slot, rooted, base, length, elem, k, arrayTyped, shape, indexTyped, -, -⟩ := typed
    simp only [Expr.nodes, cons_append, covers_cons, covers_append] at covers
    obtain ⟨root, rooted⟩ := Option.isSome_iff_exists.mp rooted
    have located := locate_makes limits array known arrayTyped covers.2.1 rooted
      (.inl (by simp [shape, IsScalar]))
    have counted := expr_makes limits index known indexTyped covers.2.2
    exact (works_moveTo _).then fun _ =>
      (makes_locateElement limits fits slot located counted
        (by simp +contextual [Expr.nodes, Foreign])).bind fun _ made =>
      (works_sizeOf slot).then fun _ => (makes_load limits fits _ _).bind fun _ value =>
      makes_pure (by simp [made, value])
  | select i record field =>
    obtain ⟨slot, rooted, base, fields, inner, k, recordTyped, shape, found, -⟩ := typed
    simp only [Expr.nodes, covers_cons] at covers
    obtain ⟨root, rooted⟩ := Option.isSome_iff_exists.mp rooted
    have located := locate_makes limits record known recordTyped covers.2 rooted
      (.inl (by simp [shape, IsScalar]))
    exact (works_moveTo _).then fun _ =>
      (makes_locateField recordTyped.slot shape found located).bind fun _ made =>
      (works_sizeOf slot).then fun _ => (makes_load limits fits _ _).bind fun _ value =>
      makes_pure (by simp [made, value])
  | unary i decl op operand =>
    obtain ⟨slot, m, want, got, found, rfl, signature, operandTyped, -⟩ := typed
    simp only [Expr.nodes, covers_cons] at covers
    exact (works_moveTo _).then fun _ => works_offset.then fun _ =>
      (expr_makes limits operand known operandTyped covers.2).bind fun _ made =>
      (makes_prefixed limits known found signature covers.1).bind fun _ own =>
      (works_sizeOf slot).then fun _ => (works_setOffset _).then fun _ =>
      makes_pure ⟨by rw [Expr.nodes, clear_cons]; exact ⟨own.1, made.1⟩, by simp [own.2, made.2]⟩
  | binary i decl op left right =>
    obtain ⟨slot, m, u, v, found, -, leftTyped, rightTyped, joins⟩ := typed
    simp only [Expr.nodes, cons_append, covers_cons, covers_append] at covers
    have called : IsRoutine m := by
      cases m with
      | equality b => trivial
      | typed s b =>
        obtain ⟨_, _, rfl, -⟩ := joins
        rfl
    obtain ⟨c, named⟩ := known.routine found called
    have callable := makes_callable limits known.labelled named
    exact (works_moveTo _).then fun _ => works_offset.then fun _ =>
      (expr_makes limits left known leftTyped covers.2.1).bind fun _ first =>
      (expr_makes limits right known rightTyped covers.2.2).bind fun _ second =>
      (makes_comparedSize limits fits callable leftTyped.slot).bind fun _ size =>
      (makes_invoke limits fits callable).bind fun _ called => (works_sizeOf slot).then fun _ =>
      (works_setOffset _).then fun _ =>
      makes_pure (by simp [first, second, size, called])
  | call i decl name as =>
    obtain ⟨slot, -, wants, b, -, found, argsTyped⟩ := typed
    simp only [Expr.nodes, covers_cons] at covers
    obtain ⟨c, named⟩ := known.routine found rfl
    exact (works_moveTo _).then fun _ => works_offset.then fun _ =>
      (args_make limits as known argsTyped covers.2).bind fun _ pushed =>
      (makes_invoke limits fits (makes_callable limits known.labelled named)).bind fun _ called =>
      (works_sizeOf slot).then fun _ => (works_setOffset _).then fun _ =>
      makes_pure (by simp [pushed, called])
  | cond i test yes no =>
    obtain ⟨slot, u, v, w, testTyped, -, yesTyped, noTyped, -, -⟩ := typed
    simp only [Expr.nodes, cons_append, covers_cons, covers_append] at covers
    exact (works_moveTo _).then fun _ => works_offset.then fun _ =>
      (makes_newLabel (by decide)).bind fun _ other => (makes_newLabel (by decide)).bind
      fun _ done => (expr_makes limits test known testTyped covers.2.1.1).bind fun _ tested =>
      (makes_jumpIf limits fits other _).bind fun _ branch =>
      (expr_makes limits yes known yesTyped covers.2.1.2).bind fun _ first =>
      (makes_jump limits fits done).bind fun _ past =>
      (makes_label limits fits other).bind fun _ middle => (works_setOffset _).then fun _ =>
      (expr_makes limits no known noTyped covers.2.2).bind fun _ second =>
      (makes_label limits fits done).bind fun _ finish => (works_sizeOf slot).then fun _ =>
      (works_setOffset _).then fun _ => makes_pure (by
        simp [tested, branch, first, past, middle, second, finish])
  | letIn i ds body =>
    have measured := Check.ExprTyped.measured _ known.measured typed
    obtain ⟨slot, final, u, declsTyped, bodyTyped, -⟩ := typed
    simp only [Expr.nodes, cons_append, covers_cons, covers_append] at covers
    refine (works_moveTo _).then fun _ => works_offset.then fun _ =>
      (makes_within (P := fun code => Clear (Expr.nodes (.letIn i ds body)) ∧ Tidy fits code) ?_).bind
      fun _ made => (works_sizeOf slot).then fun _ => (works_setOffset _).then fun _ =>
      makes_pure made
    exact (decls_make limits ds known.enterBlock declsTyped covers.2.1).bind fun _ inner =>
      works_offset.then fun _ => (expr_makes limits body inner.1 bodyTyped covers.2.2).bind
      fun _ value => (makes_sizeOf slot measured covers.1.2).bind fun _ least =>
      (makes_pop limits fits least _).bind fun _ popped =>
      makes_pure (by simp [inner.2, value, popped])
  | array i elems =>
    obtain ⟨-, elem, -, elemsTyped, -⟩ := typed
    simp only [Expr.nodes, covers_cons] at covers
    exact (works_moveTo _).then fun _ =>
      (exprs_make limits elems known elemsTyped covers.2).weaken fun _ made => by
        simp [made]
  | record i fields =>
    obtain ⟨slot, distinct, fieldTypes, fieldsTyped, shape⟩ := typed
    simp only [Expr.nodes, covers_cons] at covers
    have made : ∀ v ∈ initializers env fields,
        Makes allowed v.2 fun code =>
          (∀ e, (v.1, e) ∈ fields → Clear e.nodes) ∧ Tidy fits code := by
      intro v member
      obtain ⟨e, entry, made⟩ := initializers_make limits fields known fieldsTyped covers.2 v member
      refine made.weaken fun _ ⟨clear, tidy⟩ => ⟨fun e' entry' => ?_, tidy⟩
      have same := (Scope.lookup_of_mem distinct entry).symm.trans
        (Scope.lookup_of_mem distinct entry')
      cases same
      exact clear
    refine (works_moveTo _).then fun _ => (makes_typeOf slot).bind fun _ same => ?_
    rw [same, shape]
    have named : ∀ f ∈ fieldTypes, f.1 ∈ (initializers env fields).map Prod.fst := by
      intro f member
      rw [initializers_names, ← fieldsTyped.names]
      exact List.mem_map_of_mem member
    refine (makes_fieldValues (P := fun name => ∀ e, (name, e) ∈ fields → Clear e.nodes)
      (fun f member => named f (List.mem_mergeSort.mp member)) made).weaken
      fun _ ⟨clear, tidy⟩ => ?_
    have each : ∀ f ∈ fields, Clear f.2.nodes := by
      intro f member
      have typed : f.1 ∈ fieldTypes.map Prod.fst := by
        rw [fieldsTyped.names]
        exact List.mem_map_of_mem member
      obtain ⟨g, found, same⟩ := List.mem_map.mp typed
      exact clear g (List.mem_mergeSort.mpr found) f.2 (by rw [same]; exact member)
    simp [clear_fieldNodes each, tidy]

theorem exprs_make (limits : ∀ fault : Fault, fault.IsLimit → allowed fault) (es : List Expr)
    {types env elem} (known : Known types env) (typed : Check.ElemsTyped types elem es)
    (covers : Covers allowed fits (Expr.listNodes es)) :
    Makes allowed (exprs env es) fun code => Clear (Expr.listNodes es) ∧ Tidy fits code := by
  cases es with
  | nil =>
    exact makes_pure (by simp [Expr.listNodes])
  | cons e es =>
    obtain ⟨⟨u, headTyped, -⟩, restTyped⟩ := typed
    simp only [Expr.listNodes, covers_append] at covers
    exact (expr_makes limits e known headTyped covers.1).bind fun _ first =>
      (exprs_make limits es known restTyped covers.2).bind fun _ others =>
      makes_pure (by simp [Expr.listNodes, first, others])

theorem initializers_make (limits : ∀ fault : Fault, fault.IsLimit → allowed fault) :
    ∀ (fields : List (String × Expr)) {types env fieldTypes}, Known types env →
      Check.FieldsTyped types fields fieldTypes → Covers allowed fits (Expr.fieldNodes fields) →
      ∀ v ∈ initializers env fields, ∃ e, (v.1, e) ∈ fields ∧
        Makes allowed v.2 fun code => Clear e.nodes ∧ Tidy fits code
  | [], types, env, fieldTypes, known, typed, covers => by simp [initializers]
  | (name, e) :: rest, types, env, fieldTypes, known, typed, covers => by
    obtain ⟨u, others, headTyped, restTyped, -⟩ := typed
    simp only [Expr.fieldNodes, covers_append] at covers
    have first := expr_makes limits e known headTyped covers.1
    have later := initializers_make limits rest known restTyped covers.2
    intro v member
    simp only [initializers, List.mem_cons] at member
    rcases member with rfl | member
    · exact ⟨e, List.mem_cons_self, first⟩
    · obtain ⟨e', entry, made⟩ := later v member
      exact ⟨e', List.mem_cons_of_mem _ entry, made⟩

/-- A variable has storage if it can be assigned to or is no scalar. -/
theorem locate_makes (limits : ∀ fault : Fault, fault.IsLimit → allowed fault) (e : Expr)
    {types env t root} (known : Known types env) (typed : Check.ExprTyped types e t)
    (covers : Covers allowed fits e.nodes) (rooted : e.root? = some root)
    (stored : (¬IsScalar t.deref ∨ types.terms.isConst root = false)) :
    Makes allowed (locate env e) fun made => Clear e.nodes ∧ Tidy fits made.1 := by
  cases e with
  | ident i decl name =>
    obtain ⟨slot, plain, b, -, found⟩ := typed
    obtain ⟨e, depth, named, literal⟩ := known.value found plain
    cases rooted
    have placed : ∀ v, e ≠ .known v := by
      intro v same
      obtain ⟨constant, scalar⟩ := literal v same
      rcases stored with composite | assignable
      · cases t <;> simp_all [IsScalar, Ty.deref]
      · simp [constant] at assignable
    exact (works_moveTo _).then fun _ => (makes_locateName limits fits named placed).weaken
      fun _ base => by simp [base]
  | subscript i array index =>
    obtain ⟨slot, -, base, length, elem, k, arrayTyped, shape, indexTyped, -, -⟩ := typed
    simp only [Expr.nodes, cons_append, covers_cons, covers_append] at covers
    have located := locate_makes limits array known arrayTyped covers.2.1 rooted
      (.inl (by simp [shape, IsScalar]))
    have counted := expr_makes limits index known indexTyped covers.2.2
    exact (works_moveTo _).then fun _ => (makes_locateElement limits fits slot located counted
      (by simp +contextual [Expr.nodes, Foreign])).weaken fun _ made => by
        simp [made]
  | select i record field =>
    obtain ⟨slot, -, base, fields, inner, k, recordTyped, shape, found, -⟩ := typed
    simp only [Expr.nodes, covers_cons] at covers
    have located := locate_makes limits record known recordTyped covers.2 rooted
      (.inl (by simp [shape, IsScalar]))
    exact (works_moveTo _).then fun _ =>
      (makes_locateField recordTyped.slot shape found located).weaken fun _ made => by
        simp [made]
  | _ =>
    simp [Expr.root?] at rooted

theorem args_make (limits : ∀ fault : Fault, fault.IsLimit → allowed fault) (as : List Arg)
    {types env wants} (known : Known types env) (typed : Check.ArgsTyped types as wants)
    (covers : Covers allowed fits (Arg.listNodes as)) :
    Makes allowed (args env as) fun code => Clear (Arg.listNodes as) ∧ Tidy fits code := by
  cases as with
  | nil =>
    exact makes_pure (by simp [Arg.listNodes])
  | cons a as =>
    obtain ⟨want, others, headTyped, restTyped, -⟩ := typed
    simp only [Arg.listNodes, covers_append] at covers
    exact (arg_makes limits a known headTyped covers.1).bind fun _ first =>
      (args_make limits as known restTyped covers.2).bind fun _ others =>
      makes_pure (by simp [Arg.listNodes, first, others])

theorem arg_makes (limits : ∀ fault : Fault, fault.IsLimit → allowed fault) (a : Arg)
    {types env want} (known : Known types env) (typed : Check.ArgTyped types a want)
    (covers : Covers allowed fits a.nodes) :
    Makes allowed (arg env a) fun code => Clear a.nodes ∧ Tidy fits code := by
  cases a with
  | value i value =>
    obtain ⟨-, -, got, valueTyped, -⟩ := typed
    simp only [Arg.nodes, covers_cons] at covers
    exact (works_moveTo _).then fun _ =>
      (expr_makes limits value known valueTyped covers.2).weaken fun _ made => by
        simp [Arg.nodes, made]
  | var i target =>
    obtain ⟨inner, got, root, -, targetTyped, -, rooted, assignable⟩ := typed
    simp only [Arg.nodes, covers_cons] at covers
    exact (works_moveTo _).then fun _ => (locate_makes limits target known targetTyped covers.2
      rooted (.inr assignable)).bind fun _ made => (makes_address limits fits _).bind fun _ base =>
      makes_pure (by simp [Arg.nodes, made, base])
  | func i decl name =>
    obtain ⟨slot, params, result, b, rfl, -, found⟩ := typed
    obtain ⟨c, named⟩ := known.routine found rfl
    exact (works_moveTo _).then fun _ =>
      (makes_closure limits fits (makes_callable limits known.labelled named) slot).weaken
      fun _ made => by simp [Arg.nodes, made]

theorem decls_make (limits : ∀ fault : Fault, fault.IsLimit → allowed fault) (ds : List Decl)
    {types env final} (known : Known types env) (typed : Check.DeclsTyped types ds final)
    (covers : Covers allowed fits (Decl.listNodes ds)) :
    Makes allowed (decls env ds) fun made => Known final made.1 ∧ Clear (Decl.listNodes ds) ∧ Tidy
      fits made.2 := by
  cases ds with
  | nil =>
    subst typed
    exact makes_pure ⟨known, by simp [Decl.listNodes]⟩
  | cons d ds =>
    obtain ⟨next, headTyped, restTyped⟩ := typed
    simp only [Decl.listNodes, covers_append] at covers
    exact (decl_makes limits d known headTyped covers.1).bind fun _ inner =>
      (decls_make limits ds inner.1 restTyped covers.2).bind fun _ last =>
      makes_pure ⟨last.1, by simp [Decl.listNodes, inner.2, last.2]⟩

theorem decl_makes (limits : ∀ fault : Fault, fault.IsLimit → allowed fault) (d : Decl)
    {types env next} (known : Known types env) (typed : Check.DeclTyped types d next)
    (covers : Covers allowed fits d.nodes) :
    Makes allowed (decl env d) fun made => Known next made.1 ∧ Clear d.nodes ∧ Tidy fits made.2 :=
      by
  cases d with
  | const i name value =>
    have measured := Check.DeclTyped.measured _ known.measured typed
    obtain ⟨u, valueTyped, data, -, rfl⟩ := typed
    simp only [Decl.nodes, covers_cons] at covers
    have plain := data.notFunc
    refine (works_moveTo _).then fun _ => ?_
    cases literal : value.literal? with
    | some l =>
      have scalar : IsScalar u.deref := by
        have own := scalar_of_literal valueTyped literal
        cases u <;> simp_all [IsScalar, Ty.deref]
      refine makes_pure ⟨⟨known.bindValue plain (fun _ _ => ⟨rfl, scalar⟩) ⟨_, _, rfl⟩,
        known.labelled, measured⟩, ?_, tidy_nil⟩
      cases value <;> simp_all [Expr.literal?]
    | none =>
      exact works_offset.then fun _ =>
        (expr_makes limits value known valueTyped covers.2).bind fun _ made =>
        makes_pure ⟨⟨known.bindValue plain (by simp) ⟨_, _, rfl⟩, known.labelled, measured⟩, by
          simp [made]⟩
  | var i name sig =>
    have measured := Check.DeclTyped.measured _ known.measured typed
    obtain ⟨u, value, slot, rfl⟩ := typed
    have plain := value.data.notFunc
    exact (works_moveTo _).then fun _ => works_offset.then fun _ => (makes_typeOf slot).then fun _ =>
      (makes_emit limits fits (by simp)).bind fun _ room =>
      makes_pure ⟨⟨known.bindValue plain (by simp) ⟨_, _, rfl⟩, known.labelled, measured⟩, by
        simp [room]⟩
  | func i name params result body =>
    have measured := Check.DeclTyped.measured _ known.measured typed
    obtain ⟨ts, r, u, slot, formals, -, rfl, bodyTyped, -⟩ := typed
    simp only [Decl.nodes, cons_append, covers_cons, covers_append] at covers
    refine (works_moveTo _).then fun _ => (makes_typeOf slot).bind fun _ same => ?_
    subst same
    exact (makes_routine limits known formals measured fun inner within =>
      expr_makes limits body within bodyTyped covers.2.2).weaken fun _ made =>
        ⟨made.1, by simp [made.2]⟩
  | proc i name params body =>
    have measured := Check.DeclTyped.measured _ known.measured typed
    obtain ⟨ts, slot, formals, rfl, bodyTyped⟩ := typed
    simp only [Decl.nodes, cons_append, covers_cons, covers_append] at covers
    exact (works_moveTo _).then fun _ =>
      (makes_routine limits known formals measured fun inner within =>
        stmt_makes limits body within bodyTyped covers.2.2).weaken fun _ made =>
          ⟨made.1, by simp [made.2]⟩
  | type i name sig =>
    obtain ⟨u, rfl⟩ := typed
    exact (works_moveTo _).then fun _ =>
      makes_pure ⟨{ known with }, by simp⟩

theorem stmt_makes (limits : ∀ fault : Fault, fault.IsLimit → allowed fault) (c : Stmt) {types env}
    (known : Known types env) (typed : Check.StmtTyped types c)
    (covers : Covers allowed fits c.nodes) :
    Makes allowed (stmt env c) fun code => Clear c.nodes ∧ Tidy fits code := by
  cases c with
  | assign i target value =>
    obtain ⟨u, v, root, targetTyped, valueTyped, -, rooted, assignable⟩ := typed
    simp only [Stmt.nodes, cons_append, covers_cons, covers_append] at covers
    exact (works_moveTo _).then fun _ =>
      (expr_makes limits value known valueTyped covers.2.2).bind fun _ first =>
      (locate_makes limits target known targetTyped covers.2.1 rooted (.inr assignable)).bind
      fun _ second => (works_sizeOf valueTyped.slot).then fun _ =>
      (makes_store limits fits _ _).bind fun _ last =>
      makes_pure (by simp [first, second, last])
  | call i decl name as =>
    obtain ⟨wants, b, -, found, argsTyped⟩ := typed
    simp only [Stmt.nodes, covers_cons] at covers
    obtain ⟨c, named⟩ := known.routine found rfl
    exact (works_moveTo _).then fun _ => works_offset.then fun _ =>
      (args_make limits as known argsTyped covers.2).bind fun _ pushed =>
      (makes_invoke limits fits (makes_callable limits known.labelled named)).bind fun _ called =>
      (works_setOffset _).then fun _ => makes_pure (by simp [pushed, called])
  | seq i cs =>
    simp only [Stmt.nodes, covers_cons] at covers
    exact (works_moveTo _).then fun _ =>
      (stmts_make limits cs known typed covers.2).weaken fun _ made => by
        simp [made]
  | letIn i ds body =>
    obtain ⟨final, declsTyped, bodyTyped⟩ := typed
    simp only [Stmt.nodes, cons_append, covers_cons, covers_append] at covers
    exact (works_moveTo _).then fun _ => works_offset.then fun _ => makes_within <|
      (decls_make limits ds known.enterBlock declsTyped covers.2.1).bind fun _ inner =>
      works_offset.then fun _ => (stmt_makes limits body inner.1 bodyTyped covers.2.2).bind
      fun _ made => (makes_pop limits fits (fun _ => Int.le_refl 0) _).bind fun _ popped =>
      makes_pure (by simp [inner.2, made, popped])
  | ifThen i test yes =>
    obtain ⟨⟨u, testTyped, -⟩, yesTyped⟩ := typed
    simp only [Stmt.nodes, cons_append, covers_cons, covers_append] at covers
    exact (works_moveTo _).then fun _ => (makes_newLabel (by decide)).bind fun _ other =>
      (makes_newLabel (by decide)).bind fun _ done =>
      (expr_makes limits test known testTyped covers.2.1).bind fun _ tested =>
      (makes_jumpIf limits fits other _).bind fun _ branch =>
      (stmt_makes limits yes known yesTyped covers.2.2).bind fun _ first =>
      (makes_jump limits fits done).bind fun _ past =>
      (makes_label limits fits other).bind fun _ middle =>
      (makes_label limits fits done).bind fun _ finish =>
      makes_pure (by simp [tested, branch, first, past, middle, finish])
  | ifElse i test yes no =>
    obtain ⟨⟨u, testTyped, -⟩, yesTyped, noTyped⟩ := typed
    simp only [Stmt.nodes, cons_append, covers_cons, covers_append] at covers
    exact (works_moveTo _).then fun _ => (makes_newLabel (by decide)).bind fun _ other =>
      (makes_newLabel (by decide)).bind fun _ done =>
      (expr_makes limits test known testTyped covers.2.1.1).bind fun _ tested =>
      (makes_jumpIf limits fits other _).bind fun _ branch =>
      (stmt_makes limits yes known yesTyped covers.2.1.2).bind fun _ first =>
      (makes_jump limits fits done).bind fun _ past =>
      (makes_label limits fits other).bind fun _ middle =>
      (stmt_makes limits no known noTyped covers.2.2).bind fun _ second =>
      (makes_label limits fits done).bind fun _ finish => makes_pure (by
        simp [tested, branch, first, past, middle, second, finish])
  | whileDo i test body =>
    obtain ⟨⟨u, testTyped, -⟩, bodyTyped⟩ := typed
    simp only [Stmt.nodes, cons_append, covers_cons, covers_append] at covers
    exact (works_moveTo _).then fun _ => (makes_newLabel (by decide)).bind fun _ loop =>
      (makes_newLabel (by decide)).bind fun _ check => (makes_jump limits fits check).bind
      fun _ past => (makes_label limits fits loop).bind fun _ start =>
      (stmt_makes limits body known bodyTyped covers.2.2).bind fun _ made =>
      (makes_label limits fits check).bind fun _ middle =>
      (expr_makes limits test known testTyped covers.2.1).bind fun _ tested =>
      (makes_jumpIf limits fits loop _).bind fun _ branch =>
      makes_pure (by simp [past, start, made, middle, tested, branch])
  | repeatUntil i body test | repeatWhile i body test =>
    obtain ⟨bodyTyped, u, testTyped, -⟩ := typed
    simp only [Stmt.nodes, cons_append, covers_cons, covers_append] at covers
    exact (works_moveTo _).then fun _ => (makes_newLabel (by decide)).bind fun _ loop =>
      (makes_label limits fits loop).bind fun _ start =>
      (stmt_makes limits body known bodyTyped covers.2.1).bind fun _ made =>
      (expr_makes limits test known testTyped covers.2.2).bind fun _ tested =>
      (makes_jumpIf limits fits loop _).bind fun _ branch =>
      makes_pure (by simp [start, made, tested, branch])
  | loopWhile i pre test post =>
    obtain ⟨preTyped, ⟨u, testTyped, -⟩, postTyped⟩ := typed
    simp only [Stmt.nodes, cons_append, covers_cons, covers_append] at covers
    exact (works_moveTo _).then fun _ => (makes_newLabel (by decide)).bind fun _ loop =>
      (makes_newLabel (by decide)).bind fun _ done =>
      (makes_label limits fits loop).bind fun _ start =>
      (stmt_makes limits pre known preTyped covers.2.1.1).bind fun _ first =>
      (expr_makes limits test known testTyped covers.2.1.2).bind fun _ tested =>
      (makes_jumpIf limits fits done _).bind fun _ branch =>
      (stmt_makes limits post known postTyped covers.2.2).bind fun _ second =>
      (makes_jump limits fits loop).bind fun _ back =>
      (makes_label limits fits done).bind fun _ finish => makes_pure (by
        simp [start, first, tested, branch, second, back, finish])
  | forever i body =>
    simp only [Stmt.nodes, covers_cons] at covers
    exact (works_moveTo _).then fun _ => (makes_newLabel (by decide)).bind fun _ loop =>
      (makes_label limits fits loop).bind fun _ start =>
      (stmt_makes limits body known typed covers.2).bind fun _ made =>
      (makes_jump limits fits loop).bind fun _ back =>
      makes_pure (by simp [start, made, back])
  | skip i =>
    exact (works_moveTo _).then fun _ => makes_pure (by simp)

theorem stmts_make (limits : ∀ fault : Fault, fault.IsLimit → allowed fault) (cs : List Stmt)
    {types env} (known : Known types env) (typed : Check.StmtsTyped types cs)
    (covers : Covers allowed fits (Stmt.listNodes cs)) :
    Makes allowed (stmts env cs) fun code => Clear (Stmt.listNodes cs) ∧ Tidy fits code := by
  cases cs with
  | nil =>
    exact makes_pure (by simp [Stmt.listNodes])
  | cons c cs =>
    simp only [Stmt.listNodes, covers_append] at covers
    exact (stmt_makes limits c known typed.1 covers.1).bind fun _ first =>
      (stmts_make limits cs known typed.2 covers.2).bind fun _ others =>
      makes_pure (by simp [Stmt.listNodes, first, others])
end

end Triangle.Generate

namespace Triangle

theorem Program.generate_makes {p q : Program} {allowed : Generate.Fault → Prop} {fits : Prop}
    (accepted : p.check = (q, [])) (limits : ∀ fault : Generate.Fault, fault.IsLimit → allowed fault)
    (covers : Generate.Covers allowed fits q.body.nodes) :
    (∃ code, q.generate = .ok code ∧ Generate.Clear q.body.nodes ∧ Generate.Tidy fits code) ∨
      ∃ fault, q.generate = .error fault ∧ allowed fault := by
  have body := Generate.stmt_makes limits q.body ⟨.initial, .initial, .initial⟩
    (Program.check_typed accepted) covers
  have made : Generate.Makes allowed
      (do return (← Generate.stmt .standard q.body) ++ (← Generate.emit .halt))
      fun code => Generate.Clear q.body.nodes ∧ Generate.Tidy fits code :=
    body.bind fun _ first => (Generate.makes_emit limits fits (by simp)).bind fun _ last =>
      Generate.makes_pure ⟨first.1, by simp [first.2, last]⟩
  specialize made {}
  simp only [Program.generate, EStateM.run]
  split
  · rename_i code st done
    rw [done] at made
    exact .inl ⟨code, rfl, made⟩
  · rename_i fault st done
    rw [done] at made
    exact .inr ⟨fault, rfl, made⟩

/-- The ways in which no code is made of an accepted program: a limit of the machine is in the way,
or an operator under whose name there is no routine. -/
def Program.Stops (q : Program) (fault : Generate.Fault) : Prop :=
  fault.IsLimit ∨ ∃ node ∈ q.nodes, ∃ name pos,
    Generate.Lost node name ∧ fault = .fatal pos (.malformed (.noRoutine name))

/-- Code is made of an accepted program, unless it stops in one of these ways. With a standard
routine in front of an operand that is no operator there, no code is made. -/
theorem Program.generate_progress {p q : Program} (accepted : p.check = (q, [])) :
    (∃ code, q.generate = .ok code ∧ ∀ node ∈ q.nodes, ¬Generate.Foreign node) ∨
      ∃ fault, q.generate = .error fault ∧ q.Stops fault := by
  have covers : Generate.Covers q.Stops False q.body.nodes := fun node member =>
    ⟨fun name pos lost => .inr ⟨node, member, name, pos, lost, rfl⟩, False.elim⟩
  rcases generate_makes accepted (fun _ => .inl) covers with ⟨code, made, clear, -⟩ | failed
  · exact .inl ⟨code, made, clear⟩
  · exact .inr failed

/-- Declares an operator of its own and puts it in front of the standard one. -/
def Program.negated : Program :=
  let integer : Sig := .named {} "Integer"
  ⟨.letIn {} [.func {} "~" [.value {} "n" integer] integer
      (.unary {} none "-" (.ident {} none "n"))]
    (.call {} none "putint" [.value {} (.unary {} none "~" (.unary {} none "-" (.int {} 5)))])⟩

theorem Program.negated_generates : ∃ code, negated.check.1.generate = .ok code ∧
    ∀ node ∈ negated.check.1.nodes, ¬Generate.Foreign node := by
  have accepted : negated.check = (negated.check.1, []) := rfl
  rcases generate_progress accepted with made | ⟨fault, failed, -⟩
  · exact made
  · cases failed

/-- A conversion in front of its operand is accepted, and no code is made of it. -/
theorem Program.conversion_in_front_is_lost :
    let p : Program := ⟨.call {} none "put" [.value {} (.unary {} none "chr" (.int {} 65))]⟩
    p.check.2 = [] ∧ ∃ pos, p.check.1.generate = .error (.fatal pos
      (.malformed (.noRoutine (Check.unaryKey "chr")))) :=
  ⟨rfl, _, rfl⟩

end Triangle
