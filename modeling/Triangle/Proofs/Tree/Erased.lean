import Mathlib
import Triangle.Proofs.Tree.Bare
import Triangle.Proofs.Tree.Induction
import Triangle.Tree.Printer
import Triangle.Tree.Twin

/-! Trees with their slots emptied. What fills the slots of a tree has no part in its text, its names
and its positions. -/
namespace Triangle

/-! ## A node and its own slots -/

/-- A node without its type; its position and its places in the tree stay. -/
def Info.untyped (i : Info) : Info := { i with ty := none }

@[simp] theorem Info.untyped_setTy (i : Info) (t : Ty) : (i.setTy t).untyped = i.untyped := rfl

@[simp] theorem Info.untyped_fillTy (i : Info) (t : Ty) : (i.fillTy t).untyped = i.untyped := by
  rw [fillTy]
  split <;> rfl

@[simp] theorem Info.pos_untyped (i : Info) : i.untyped.pos = i.pos := rfl

@[simp] theorem Info.pos_setTy (i : Info) (t : Ty) : (i.setTy t).pos = i.pos := rfl

@[simp] theorem Info.pos_fillTy (i : Info) (t : Ty) : (i.fillTy t).pos = i.pos := by
  unfold Info.fillTy
  split <;> rfl

@[simp] theorem Expr.setInfo_info (e : Expr) : e.setInfo e.info = e := by
  cases e <;> rfl

@[simp] theorem Expr.info_setInfo (i : Info) (e : Expr) : (e.setInfo i).info = i := by
  cases e <;> rfl

@[simp] theorem Decl.setInfo_info (d : Decl) : d.setInfo d.info = d := by
  cases d <;> rfl

@[simp] theorem Decl.info_setInfo (i : Info) (d : Decl) : (d.setInfo i).info = i := by
  cases d <;> rfl

theorem Info.fillTy_of_isSome {i : Info} (filled : i.ty.isSome) (t : Ty) : i.fillTy t = i := if_pos filled

theorem Info.isSome_fillTy (i : Info) (t : Ty) : (i.fillTy t).ty.isSome := by
  unfold Info.fillTy
  split
  · assumption
  · rfl

theorem Expr.fillTy_of_isSome {e : Expr} (filled : e.info.ty.isSome) (t : Ty) : e.fillTy t = e := by
  rw [Expr.fillTy, Info.fillTy_of_isSome filled, Expr.setInfo_info]

/-! ## Trees -/

mutual
@[simp] def Sig.erased : Sig → Sig
  | .named i name => .named i.untyped name
  | .array i length elem => .array i.untyped length elem.erased
  | .record i fields => .record i.untyped (Sig.erasedFields fields)

@[simp] def Sig.erasedFields : List (String × Sig) → List (String × Sig)
  | [] => []
  | (name, sig) :: rest => (name, sig.erased) :: Sig.erasedFields rest
end

mutual
@[simp] def Param.erased : Param → Param
  | .value i name sig => .value i.untyped name sig.erased
  | .var i name sig => .var i.untyped name sig.erased
  | .func i name params result =>
    .func i.untyped name (Param.erasedList params) (result.map Sig.erased)

@[simp] def Param.erasedList : List Param → List Param
  | [] => []
  | p :: ps => p.erased :: Param.erasedList ps
end

mutual
@[simp] def Expr.erased : Expr → Expr
  | .int i value => .int i.untyped value
  | .char i value => .char i.untyped value
  | .bool i value => .bool i.untyped value
  | .ident i _ name => .ident i.untyped none name
  | .subscript i array index => .subscript i.untyped array.erased index.erased
  | .select i record field => .select i.untyped record.erased field
  | .unary i _ op operand => .unary i.untyped none op operand.erased
  | .binary i _ op left right => .binary i.untyped none op left.erased right.erased
  | .call i _ name args => .call i.untyped none name (Arg.erasedList args)
  | .cond i test yes no => .cond i.untyped test.erased yes.erased no.erased
  | .letIn i decls body => .letIn i.untyped (Decl.erasedList decls) body.erased
  | .array i elems => .array i.untyped (Expr.erasedList elems)
  | .record i fields => .record i.untyped (Expr.erasedFields fields)

@[simp] def Expr.erasedList : List Expr → List Expr
  | [] => []
  | e :: es => e.erased :: Expr.erasedList es

@[simp] def Expr.erasedFields : List (String × Expr) → List (String × Expr)
  | [] => []
  | (name, value) :: rest => (name, value.erased) :: Expr.erasedFields rest

@[simp] def Stmt.erased : Stmt → Stmt
  | .assign i target value => .assign i.untyped target.erased value.erased
  | .call i _ name args => .call i.untyped none name (Arg.erasedList args)
  | .seq i stmts => .seq i.untyped (Stmt.erasedList stmts)
  | .letIn i decls body => .letIn i.untyped (Decl.erasedList decls) body.erased
  | .ifThen i test yes => .ifThen i.untyped test.erased yes.erased
  | .ifElse i test yes no => .ifElse i.untyped test.erased yes.erased no.erased
  | .whileDo i test body => .whileDo i.untyped test.erased body.erased
  | .repeatUntil i body test => .repeatUntil i.untyped body.erased test.erased
  | .repeatWhile i body test => .repeatWhile i.untyped body.erased test.erased
  | .loopWhile i pre test post => .loopWhile i.untyped pre.erased test.erased post.erased
  | .forever i body => .forever i.untyped body.erased
  | .skip i => .skip i.untyped

@[simp] def Stmt.erasedList : List Stmt → List Stmt
  | [] => []
  | s :: ss => s.erased :: Stmt.erasedList ss

@[simp] def Decl.erased : Decl → Decl
  | .const i name value => .const i.untyped name value.erased
  | .var i name sig => .var i.untyped name sig.erased
  | .func i name params result body =>
    .func i.untyped name (Param.erasedList params) result.erased body.erased
  | .proc i name params body => .proc i.untyped name (Param.erasedList params) body.erased
  | .type i name sig => .type i.untyped name sig.erased

@[simp] def Decl.erasedList : List Decl → List Decl
  | [] => []
  | d :: ds => d.erased :: Decl.erasedList ds

@[simp] def Arg.erased : Arg → Arg
  | .value i value => .value i.untyped value.erased
  | .var i target => .var i.untyped target.erased
  | .func i _ name => .func i.untyped none name

@[simp] def Arg.erasedList : List Arg → List Arg
  | [] => []
  | a :: as => a.erased :: Arg.erasedList as
end

/-- The program with all its slots empty. -/
def Program.erased (p : Program) : Program := ⟨p.body.erased⟩

/-! ## Texts -/

section
variable (f : Slots → Id Slots)

theorem Sig.text_mapSlots : ∀ s : Sig, Sig.text (s.mapSlots f) = s.text := by
  apply erased.induct (fun s => Sig.text (s.mapSlots f) = s.text) fun fields =>
    fieldTexts (mapFieldSlots f fields) = fieldTexts fields
  all_goals simp +contextual [Sig.text, Sig.fieldTexts, Sig.mapSlots, Sig.mapFieldSlots, pure, bind]

theorem Param.texts_mapSlots : ∀ ps : List Param, texts (mapListSlots f ps) = texts ps := by
  apply param_induction (fun p => Param.text (p.mapSlots f) = p.text) fun ps =>
    texts (mapListSlots f ps) = texts ps
  case func =>
    intro _ _ _ result formals
    cases result <;> simp [Param.text, Param.mapSlots, pure, bind, Sig.text_mapSlots, formals]
  all_goals
    simp +contextual [Param.text, Param.texts, Param.mapSlots, Param.mapListSlots, pure, bind,
      Sig.text_mapSlots]

theorem texts_mapSlots : Everywhere (fun e => Expr.text (e.mapSlots f) = e.text)
    (fun fields => Expr.fieldTexts (Expr.mapFieldSlots f fields) = Expr.fieldTexts fields)
    (fun es => Expr.texts (Expr.mapListSlots f es) = Expr.texts es)
    (fun ds => Decl.texts (Decl.mapListSlots f ds) = Decl.texts ds)
    (fun d => Decl.text (d.mapSlots f) = d.text) (fun s => Stmt.text (s.mapSlots f) = s.text)
    (fun ss => Stmt.texts (Stmt.mapListSlots f ss) = Stmt.texts ss)
    (fun as => Arg.texts (Arg.mapListSlots f as) = Arg.texts as)
    fun a => Arg.text (a.mapSlots f) = a.text := by
  apply tree_induction
  all_goals
    simp +contextual [Expr.mapSlots, Expr.mapFieldSlots, Expr.mapListSlots, Decl.mapListSlots,
      Decl.mapSlots, Stmt.mapSlots, Stmt.mapListSlots, Arg.mapListSlots, Arg.mapSlots, pure, bind,
      Expr.text, Expr.fieldTexts, Expr.texts, Decl.texts, Decl.text, Stmt.text, Stmt.texts, Arg.texts,
      Arg.text, Sig.text_mapSlots, Param.texts_mapSlots]

theorem Expr.text_mapSlots (e : Expr) : Expr.text (e.mapSlots f) = e.text := (texts_mapSlots f).expr e

theorem Expr.root?_mapSlots (e : Expr) : Expr.root? (e.mapSlots f) = e.root? := by
  fun_induction Expr.root? e with
  | case1 => rfl
  | case2 _ _ _ ih | case3 _ _ _ ih => exact ih
  | case4 e ident subscript select =>
    cases e with
    | ident i decl name => exact absurd rfl (ident i decl name)
    | subscript i base index => exact absurd rfl (subscript i base index)
    | select i base field => exact absurd rfl (select i base field)
    | _ => rfl

theorem Arg.length_mapSlots (as : List Arg) : List.length (mapListSlots (m := Id) f as) = as.length := by
  induction as with
  | nil => rfl
  | cons a as ih => exact congrArg Nat.succ ih

theorem Expr.length_mapSlots (es : List Expr) : List.length (mapListSlots (m := Id) f es) = es.length := by
  induction es with
  | nil => rfl
  | cons e es ih => exact congrArg Nat.succ ih

theorem Param.name_mapSlots (p : Param) : Param.name (p.mapSlots f) = p.name := by
  cases p with
  | value | var => rfl
  | func i name ps result => cases result <;> rfl

theorem Param.kind_mapSlots (p : Param) : Param.kind (p.mapSlots f) = p.kind := by
  cases p with
  | value | var => rfl
  | func i name ps result => cases result <;> rfl

end

/-! ## Empty slots -/

/-- What is left of the slots of a node. -/
def Slots.emptied (s : Slots) : Id Slots := ⟨s.info.untyped, none⟩

theorem Slots.pos_emptied (s : Slots) : Info.pos (Slots.emptied s).info = id s.info.pos := rfl

theorem Sig.erased_eq : ∀ s : Sig, s.erased = s.mapSlots Slots.emptied := by
  apply erased.induct (fun s => s.erased = s.mapSlots Slots.emptied) fun fields =>
    erasedFields fields = mapFieldSlots Slots.emptied fields
  all_goals simp +contextual [Sig.mapSlots, Sig.mapFieldSlots, pure, bind, Slots.emptied]

theorem Param.erasedList_eq : ∀ ps : List Param, erasedList ps = mapListSlots Slots.emptied ps := by
  apply param_induction (fun p => p.erased = p.mapSlots Slots.emptied) fun ps =>
    erasedList ps = mapListSlots Slots.emptied ps
  case func =>
    intro _ _ _ result formals
    cases result <;> simp [Param.mapSlots, pure, bind, Slots.emptied, Sig.erased_eq, formals]
  all_goals
    simp +contextual [Param.mapSlots, Param.mapListSlots, pure, bind, Slots.emptied, Sig.erased_eq]

theorem erased_eq : Everywhere (fun e => e.erased = e.mapSlots Slots.emptied)
    (fun fields => Expr.erasedFields fields = Expr.mapFieldSlots Slots.emptied fields)
    (fun es => Expr.erasedList es = Expr.mapListSlots Slots.emptied es)
    (fun ds => Decl.erasedList ds = Decl.mapListSlots Slots.emptied ds)
    (fun d => d.erased = d.mapSlots Slots.emptied) (fun s => s.erased = s.mapSlots Slots.emptied)
    (fun ss => Stmt.erasedList ss = Stmt.mapListSlots Slots.emptied ss)
    (fun as => Arg.erasedList as = Arg.mapListSlots Slots.emptied as)
    fun a => a.erased = a.mapSlots Slots.emptied := by
  apply tree_induction
  all_goals
    simp +contextual [Expr.mapSlots, Expr.mapFieldSlots, Expr.mapListSlots, Decl.mapListSlots,
      Decl.mapSlots, Stmt.mapSlots, Stmt.mapListSlots, Arg.mapListSlots, Arg.mapSlots, pure, bind,
      Slots.emptied, Sig.erased_eq, Param.erasedList_eq]

theorem Expr.text_erased (e : Expr) : e.erased.text = e.text := by
  rw [erased_eq.expr, text_mapSlots]

/-! ## Bare trees -/

@[simp] theorem Info.bare_untyped (i : Info) : i.untyped.bare = i.bare := rfl

theorem Sig.bare_erased : ∀ s : Sig, s.erased.bare = s.bare := by
  apply erased.induct (fun s => s.erased.bare = s.bare) fun fields =>
    bareFields (erasedFields fields) = bareFields fields
  all_goals simp +contextual [Sig.bare, Sig.bareFields]

theorem Param.bareList_erased : ∀ ps : List Param, bareList (erasedList ps) = bareList ps := by
  apply param_induction (fun p => p.erased.bare = p.bare) fun ps =>
    bareList (erasedList ps) = bareList ps
  case func =>
    intro _ _ _ result formals
    cases result <;> simp [Param.bare, Sig.bare_erased, formals]
  all_goals simp +contextual [Param.bare, Param.bareList, Sig.bare_erased]

theorem bare_erased : Everywhere (fun e => e.erased.bare = e.bare)
    (fun fields => Expr.bareFields (Expr.erasedFields fields) = Expr.bareFields fields)
    (fun es => Expr.bareList (Expr.erasedList es) = Expr.bareList es)
    (fun ds => Decl.bareList (Decl.erasedList ds) = Decl.bareList ds) (fun d => d.erased.bare = d.bare)
    (fun s => s.erased.bare = s.bare) (fun ss => Stmt.bareList (Stmt.erasedList ss) = Stmt.bareList ss)
    (fun as => Arg.bareList (Arg.erasedList as) = Arg.bareList as) fun a => a.erased.bare = a.bare := by
  apply tree_induction
  all_goals
    simp +contextual [Expr.bare, Expr.bareFields, Expr.bareList, Decl.bareList, Decl.bare, Stmt.bare,
      Stmt.bareList, Arg.bareList, Arg.bare, Sig.bare_erased, Param.bareList_erased]

/-! ## Names, roots and positions -/

@[simp] theorem Expr.root?_erased (e : Expr) : e.erased.root? = e.root? := by
  rw [erased_eq.expr, root?_mapSlots]

@[simp] theorem Arg.length_erasedList (as : List Arg) :
    (Arg.erasedList as).length = as.length := by
  induction as with
  | nil => rfl
  | cons a as ih => simp [ih]

@[simp] theorem Expr.length_erasedList (es : List Expr) :
    (Expr.erasedList es).length = es.length := by
  induction es with
  | nil => rfl
  | cons e es ih => simp [ih]

@[simp] theorem Expr.pos_erased (e : Expr) : e.erased.pos = e.pos := by cases e <;> rfl

end Triangle
