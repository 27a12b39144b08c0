import Mathlib
import Triangle.Check.Basic
import Triangle.Proofs.Layout.Types

/-! The rules of typing, for trees whose slots are filled. They say what types the parts of a tree
have and what names are bound to, and nothing about mistakes. -/
namespace Triangle.Ty

mutual
/-- The type of something that a name can stand for. -/
def Proper : Ty → Prop
  | .func params result => ProperAll params ∧ (result = .void ∨ result.IsValue)
  | .ref inner => inner.IsValue
  | .void => False
  | .boolean => True
  | .integer => True
  | .char => True
  | .array length elem => IsValue (.array length elem)
  | .record fields => IsValue (.record fields)

def ProperAll : List Ty → Prop
  | [] => True
  | t :: ts => t.Proper ∧ ProperAll ts
end

mutual
/-- A type with neither references nor routines in it. -/
def IsData : Ty → Prop
  | void | boolean | integer | char => True
  | array _ elem => elem.IsData
  | record fields => FieldsAreData fields
  | func _ _ | ref _ => False

def FieldsAreData : List (String × Ty) → Prop
  | [] => True
  | (_, t) :: rest => t.IsData ∧ FieldsAreData rest
end

theorem IsData.deref {t : Ty} (data : t.IsData) : t.deref = t := by
  cases t with
  | ref inner => simp [IsData] at data
  | _ => rfl

theorem IsData.notFunc {t : Ty} (data : t.IsData) : t.isFunc = false := by
  cases t with
  | func | ref => simp [IsData] at data
  | _ => rfl

theorem IsData.deref_isData {t : Ty} (data : t.IsData) : t.deref.IsData := by
  rw [data.deref]
  exact data

mutual
theorem IsValue.data : ∀ {t : Ty}, t.IsValue → t.IsData
  | .boolean, _ | .integer, _ | .char, _ => trivial
  | .array _ elem, value => by
    simp only [IsValue] at value
    exact value.2.data
  | .record fields, values => fieldsAreData (by simpa only [IsValue] using values)

theorem fieldsAreData : ∀ {fields : List (String × Ty)}, FieldsAreValues fields →
    FieldsAreData fields
  | [], _ => trivial
  | (_, t) :: rest, values => by
    simp only [FieldsAreValues] at values
    exact ⟨values.1.data, fieldsAreData values.2⟩
end

theorem fieldsAreData_iff {fields : List (String × Ty)} :
    FieldsAreData fields ↔ ∀ f ∈ fields, f.2.IsData := by
  induction fields with
  | nil => simp [FieldsAreData]
  | cons f fields ih => simp [FieldsAreData, ih]

theorem IsValue.proper {t : Ty} (value : t.IsValue) : t.Proper := by
  cases t <;> simp_all [IsValue, Proper]

end Triangle.Ty

namespace Triangle.Check

/-- What an infix operator makes of operands of types `left` and `right`. -/
def Meaning.Joins (m : Meaning) (left right result : Ty) : Prop :=
  match m with
  | .equality _ => left.deref = right.deref ∧ result = .boolean
  | .typed t _ => ∃ p q, t = .func [p, q] result ∧ left.deref = p.deref ∧ right.deref = q.deref

/-- A parameter has its type in its slot, and the type shows its kind. -/
def ParamTyped (p : Param) (t : Ty) : Prop :=
  p.info.ty = some t ∧
    match p with
    | .value _ _ _ => t.IsValue
    | .var _ _ _ => ∃ inner, t = .ref inner ∧ inner.IsValue
    | .func _ _ _ _ => ∃ params result, t = .func params result ∧ t.Proper

mutual
def ExprTyped (env : Env) : Expr → Ty → Prop
  | .int i value, t => i.ty = some t ∧ t = .integer ∧ minInt ≤ value ∧ value ≤ maxInt
  | .char i _, t => i.ty = some t ∧ t = .char
  | .bool i _, t => i.ty = some t ∧ t = .boolean
  | .ident i decl name, t =>
    i.ty = some t ∧ t.isFunc = false ∧
      ∃ b, decl = some b ∧ env.terms.lookup? name = some (.typed t b)
  | .subscript i array index, t =>
    i.ty = some t ∧ array.root?.isSome ∧ ∃ base length elem k, ExprTyped env array base ∧
      base.deref = .array length elem ∧ ExprTyped env index k ∧ k.deref = .integer ∧
      t = propagate base elem
  | .select i record field, t =>
    i.ty = some t ∧ record.root?.isSome ∧ ∃ base fields inner k, ExprTyped env record base ∧
      base.deref = .record fields ∧ Ty.field? field 0 fields = some (inner, k) ∧
      t = propagate base inner
  | .unary i decl op operand, t =>
    i.ty = some t ∧ ∃ m want got, env.unary? op = some m ∧ decl = some m.decl ∧
      m.signature? = some ([want], t) ∧ ExprTyped env operand got ∧ got.deref = want.deref
  | .binary i decl op left right, t =>
    i.ty = some t ∧ ∃ m u v, env.terms.lookup? op = some m ∧ decl = some m.decl ∧
      ExprTyped env left u ∧ ExprTyped env right v ∧ m.Joins u v t
  | .call i decl name args, t =>
    i.ty = some t ∧ t ≠ .void ∧ ∃ wants b, decl = some b ∧
      env.terms.lookup? name = some (.typed (.func wants t) b) ∧ ArgsTyped env args wants
  | .cond i test yes no, t =>
    i.ty = some t ∧ ∃ u v w, ExprTyped env test u ∧ u.deref = .boolean ∧ ExprTyped env yes v ∧
      ExprTyped env no w ∧ v.deref = w.deref ∧ t = v.deref
  | .letIn i decls body, t =>
    i.ty = some t ∧ ∃ inner u, DeclsTyped env.enterBlock decls inner ∧ ExprTyped inner body u ∧
      t = u.deref
  | .array i elems, t =>
    i.ty = some t ∧ ∃ elem, elems ≠ [] ∧ ElemsTyped env elem elems ∧
      t = .array elems.length elem
  | .record i fields, t =>
    i.ty = some t ∧ (fields.map Prod.fst).Nodup ∧ ∃ types, FieldsTyped env fields types ∧
      t = .ofFields types

/-- All elements have values of one type. -/
def ElemsTyped (env : Env) (elem : Ty) : List Expr → Prop
  | [] => True
  | e :: es => (∃ t, ExprTyped env e t ∧ t.deref = elem) ∧ ElemsTyped env elem es

def FieldsTyped (env : Env) : List (String × Expr) → List (String × Ty) → Prop
  | [], types => types = []
  | (name, e) :: rest, types =>
    ∃ t others, ExprTyped env e t ∧ FieldsTyped env rest others ∧ types = (name, t.deref) :: others

def ArgsTyped (env : Env) : List Arg → List Ty → Prop
  | [], wants => wants = []
  | a :: as, wants => ∃ want others, ArgTyped env a want ∧ ArgsTyped env as others ∧
      wants = want :: others

def ArgTyped (env : Env) : Arg → Ty → Prop
  | .value _ value, want =>
    want.isRef = false ∧ want.isFunc = false ∧ ∃ got, ExprTyped env value got ∧ got.deref = want.deref
  | .var _ target, want =>
    ∃ inner got root, want = .ref inner ∧ ExprTyped env target got ∧
      got.deref.deref = inner.deref ∧ target.root? = some root ∧ env.terms.isConst root = false
  | .func i decl name, want =>
    i.ty = some want ∧ ∃ params result b, want = .func params result ∧ decl = some b ∧
      env.terms.lookup? name = some (.typed want b)

/-- The declarations turn the first environment into the second. -/
def DeclsTyped (env : Env) : List Decl → Env → Prop
  | [], final => final = env
  | d :: ds, final => ∃ next, DeclTyped env d next ∧ DeclsTyped next ds final

def DeclTyped (env : Env) : Decl → Env → Prop
  | .const i name value, next =>
    ∃ t, ExprTyped env value t ∧ t.deref.IsData ∧ i.ty = some t.deref ∧
      next = env.addConst name (.typed t.deref (.declared .const name i.pos))
  | .var i name _, next =>
    ∃ t, t.IsValue ∧ i.ty = some t ∧
      next = env.addVar name (.typed t (.declared .var name i.pos))
  | .func i name params _ body, next =>
    ∃ types result t, i.ty = some (.func types result) ∧ List.Forall₂ ParamTyped params types ∧
      result.IsValue ∧ next = env.addConst name
        (.typed (.func types result) (.declared .func name i.pos)) ∧
      ExprTyped (next.enterRoutine.bindParams params types) body t ∧ t.deref = result
  | .proc i name params body, next =>
    ∃ types, i.ty = some (.func types .void) ∧ List.Forall₂ ParamTyped params types ∧
      next = env.addConst name (.typed (.func types .void) (.declared .proc name i.pos)) ∧
      StmtTyped (next.enterRoutine.bindParams params types) body
  | .type _ name _, next => ∃ t, next = env.addType name t

def StmtTyped (env : Env) : Stmt → Prop
  | .assign _ target value =>
    ∃ t u root, ExprTyped env target t ∧ ExprTyped env value u ∧ t.deref = u.deref ∧
      target.root? = some root ∧ env.terms.isConst root = false
  | .call _ decl name args =>
    ∃ wants b, decl = some b ∧
      env.terms.lookup? name = some (.typed (.func wants .void) b) ∧ ArgsTyped env args wants
  | .seq _ stmts => StmtsTyped env stmts
  | .letIn _ decls body => ∃ inner, DeclsTyped env.enterBlock decls inner ∧ StmtTyped inner body
  | .ifThen _ test yes =>
    (∃ t, ExprTyped env test t ∧ t.deref = .boolean) ∧ StmtTyped env yes
  | .ifElse _ test yes no =>
    (∃ t, ExprTyped env test t ∧ t.deref = .boolean) ∧ StmtTyped env yes ∧ StmtTyped env no
  | .whileDo _ test body =>
    (∃ t, ExprTyped env test t ∧ t.deref = .boolean) ∧ StmtTyped env body
  | .repeatUntil _ body test =>
    StmtTyped env body ∧ ∃ t, ExprTyped env test t ∧ t.deref = .boolean
  | .repeatWhile _ body test =>
    StmtTyped env body ∧ ∃ t, ExprTyped env test t ∧ t.deref = .boolean
  | .loopWhile _ pre test post =>
    StmtTyped env pre ∧ (∃ t, ExprTyped env test t ∧ t.deref = .boolean) ∧ StmtTyped env post
  | .forever _ body => StmtTyped env body
  | .skip _ => True

def StmtsTyped (env : Env) : List Stmt → Prop
  | [] => True
  | s :: ss => StmtTyped env s ∧ StmtsTyped env ss
end

/-- The slot of a typed expression holds its type. -/
theorem ExprTyped.slot {env : Env} {e : Expr} (typed : ExprTyped env e t) :
    e.info.ty = some t := by
  cases e <;> simp only [ExprTyped] at typed <;> exact typed.1

/-- The fields of a record literal with their expressions and types. -/
theorem FieldsTyped.rows {env : Env} {fields : List (String × Expr)} {types : List (String × Ty)}
    (typed : FieldsTyped env fields types) :
    ∃ rows : List (String × Expr × Ty), fields = rows.map (fun row => (row.1, row.2.1)) ∧
      types = rows.map (fun row => (row.1, row.2.2)) ∧
      ∀ row ∈ rows, ∃ t, ExprTyped env row.2.1 t ∧ t.deref = row.2.2 := by
  induction fields generalizing types with
  | nil =>
    simp only [FieldsTyped] at typed
    exact ⟨[], rfl, typed, by simp⟩
  | cons field rest ih =>
    simp only [FieldsTyped] at typed
    obtain ⟨t, others, head, tail, rfl⟩ := typed
    obtain ⟨rows, rfl, rfl, each⟩ := ih tail
    refine ⟨(field.1, field.2, t.deref) :: rows, rfl, rfl, fun row member => ?_⟩
    rcases List.mem_cons.mp member with rfl | later
    · exact ⟨t, head, rfl⟩
    · exact each row later

theorem FieldsTyped.names {env : Env} {fields : List (String × Expr)} {types : List (String × Ty)}
    (typed : FieldsTyped env fields types) : types.map Prod.fst = fields.map Prod.fst := by
  induction fields generalizing types with
  | nil =>
    simp only [FieldsTyped] at typed
    rw [typed]
    rfl
  | cons field rest ih =>
    simp only [FieldsTyped] at typed
    obtain ⟨t, others, -, tail, rfl⟩ := typed
    simp [ih tail]

end Triangle.Check
