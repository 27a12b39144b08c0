import Mathlib
import Triangle.Proofs.Tree.Bare
import Triangle.Proofs.Tree.Induction
import Triangle.Tree.Decoding
import Triangle.Tree.Encoding

/-! Trees read back from their objects. Each node is read from the members that it was written
with; those that were left out as empty read as empty. -/
namespace Triangle

namespace Decoding
open Encoding
open List (cons_append forall_mem_cons forall_mem_append)

/-! ## Members -/

/-- What an object is as a node. -/
def readingOf (j : Json) : Reading := (members {} j.members).reading

/-- Entries for members that are left out when they are empty. -/
def textEntry (key value : String) : List (String × String) :=
  if value = "" then [] else [(key, value)]

def coordinateEntry (key : String) (n : Int) : List (String × Int) :=
  if n = 0 then [] else [(key, n)]

def listEntry (key : String) (items : List Json) : List (String × List (Option Reading)) :=
  if items.isEmpty then [] else [(key, nodes items)]

theorem lookup_textEntry (key value other : String) (texts : List (String × String)) :
    ((textEntry key value ++ texts).lookup other) =
      if other = key ∧ value ≠ "" then some value else texts.lookup other := by
  unfold textEntry
  by_cases same : other = key <;> by_cases empty : value = "" <;>
    simp [same, empty, List.lookup_cons, beq_false_of_ne]

theorem lookup_coordinateEntry (key other : String) (n : Int) (ints : List (String × Int)) :
    (coordinateEntry key n ++ ints).lookup other =
      if other = key ∧ n ≠ 0 then some n else ints.lookup other := by
  unfold coordinateEntry
  by_cases same : other = key <;> by_cases zero : n = 0 <;>
    simp [same, zero, List.lookup_cons, beq_false_of_ne]

@[simp] theorem lookup_listEntry (key : String) (items : List Json) :
    ((listEntry key items).lookup key).getD [] = nodes items := by
  unfold listEntry
  cases items <;> simp [nodes]

section
variable {m : Members} {key : String} {rest : List (String × Json)}

@[simp] theorem members_text (value : String) : members m (textMember key value ++ rest) =
    members { m with texts := textEntry key value ++ m.texts } rest := by
  unfold textMember textEntry
  split
  · rfl
  · simp [members]

theorem members_coordinate (n : Int) : members m (coordinate key n ++ rest) =
    members { m with ints := coordinateEntry key n ++ m.ints } rest := by
  unfold coordinate coordinateEntry
  split
  · rfl
  · simp [members]

@[simp] theorem members_list (items : List Json) (other : key ≠ "fields") :
    members m (listMember key items ++ rest) =
      members { m with lists := listEntry key items ++ m.lists } rest := by
  unfold listMember listEntry
  split
  · rfl
  · simp [members, other]

@[simp] theorem members_fields {items : List Json} (none : m.fields = []) :
    members m (listMember "fields" items) = { m with fields := fields items } := by
  unfold listMember
  cases items with
  | nil => simp [members, fields, ← none]
  | cons item items => simp [members]

@[simp] theorem members_text_last (value : String) : members m (textMember key value) =
    { m with texts := textEntry key value ++ m.texts } := by
  rw [← List.append_nil (textMember key value), members_text, members]

@[simp] theorem members_list_last (items : List Json) (other : key ≠ "fields") :
    members m (listMember key items) = { m with lists := listEntry key items ++ m.lists } := by
  rw [← List.append_nil (listMember key items), members_list items other, members]

theorem members_object {j : Json} (object : ∃ ms, j = .obj ms) :
    members m ((key, j) :: rest) =
      members { m with nodes := (key, readingOf j) :: m.nodes } rest := by
  obtain ⟨ms, rfl⟩ := object
  rw [members]
  rfl
end

theorem expr_object (e : Expr) : ∃ ms, e.toJson = .obj ms := by
  cases e <;> exact ⟨_, by rw [Expr.toJson]; rfl⟩

theorem stmt_object (s : Stmt) : ∃ ms, s.toJson = .obj ms := by
  cases s <;> exact ⟨_, by rw [Stmt.toJson]; rfl⟩

theorem sig_object (s : Sig) : ∃ ms, s.toJson = .obj ms := by
  cases s <;> exact ⟨_, by rw [Sig.toJson]; rfl⟩

section
variable {m : Members} {key : String} {rest : List (String × Json)}

@[simp] theorem members_expr (e : Expr) : members m ((key, e.toJson) :: rest) =
    members { m with nodes := (key, readingOf e.toJson) :: m.nodes } rest :=
  members_object (expr_object e)

@[simp] theorem members_stmt (s : Stmt) : members m ((key, s.toJson) :: rest) =
    members { m with nodes := (key, readingOf s.toJson) :: m.nodes } rest :=
  members_object (stmt_object s)

@[simp] theorem members_sig (s : Sig) : members m ((key, s.toJson) :: rest) =
    members { m with nodes := (key, readingOf s.toJson) :: m.nodes } rest :=
  members_object (sig_object s)

end

/-- The entries of a position. -/
def posEntries (pos : Pos) : List (String × Int) :=
  coordinateEntry "column" pos.column ++ coordinateEntry "line" pos.line

/-- The position of a node is read as it was written. -/
theorem info_posEntries {m : Members} (i : Info)
    (line : m.ints.lookup "line" = (posEntries i.pos).lookup "line")
    (column : m.ints.lookup "column" = (posEntries i.pos).lookup "column") : m.info = i.bare := by
  have last := fun key => lookup_coordinateEntry "line" key i.pos.line []
  simp only [List.append_nil] at last
  rw [posEntries, lookup_coordinateEntry, last] at line column
  simp only [Members.info, Members.pos, Info.bare, line, column]
  obtain ⟨⟨a, b⟩, ty, twin⟩ := i
  by_cases first : a = 0 <;> by_cases second : b = 0 <;> simp [first, second]

/-- The members of a node: its kind and position, and then its own. -/
@[simp] theorem readingOf_node (kind : String) (pos : Pos) (ms : List (String × Json)) :
    readingOf (node kind pos ms) =
      (members { texts := [("kind", kind)], ints := posEntries pos } ms).reading := by
  rw [readingOf, node, Json.members, List.append_assoc, cons_append, members,
    members_coordinate, members_coordinate, posEntries]
  simp

attribute [local simp] members Members.reading Members.child Members.need Members.list
  List.lookup_cons

section
variable (texts : List (String × String)) (bools : List (String × Bool))
  (nodes : List (String × Reading)) (lists : List (String × List (Option Reading)))
  (fields : List Field) (i : Info)

@[simp] theorem info_mk :
    (Members.mk texts (posEntries i.pos) bools nodes lists fields).info = i.bare :=
  info_posEntries i rfl rfl

@[simp] theorem info_mk_int (n : Int) :
    (Members.mk texts (("int", n) :: posEntries i.pos) bools nodes lists fields).info = i.bare := by
  refine info_posEntries i ?_ ?_ <;> simp [List.lookup_cons]

@[simp] theorem info_mk_len (n : Int) :
    (Members.mk texts (("len", n) :: posEntries i.pos) bools nodes lists fields).info = i.bare := by
  refine info_posEntries i ?_ ?_ <;> simp [List.lookup_cons]

end

@[simp] theorem name_mk (name kind : String) (ints bools nodes lists fields) :
    (Members.mk (textEntry "name" name ++ [("kind", kind)]) ints bools nodes lists fields).name =
      name := by
  rw [Members.name, Members.text, lookup_textEntry]
  by_cases empty : name = "" <;> simp [empty, List.lookup_cons]

@[simp] theorem kind_mk_name (name kind : String) (ints bools nodes lists fields) :
    (Members.mk (textEntry "name" name ++ [("kind", kind)]) ints bools nodes lists fields).kind =
      kind := by
  rw [Members.kind, Members.text, lookup_textEntry]
  simp

@[simp] theorem kind_mk (kind : String) (ints bools nodes lists fields) :
    (Members.mk [("kind", kind)] ints bools nodes lists fields).kind = kind := by
  rw [Members.kind, Members.text]
  simp

@[simp] theorem kind_mk_op (op kind : String) (ints bools nodes lists fields) :
    (Members.mk (textEntry "op" op ++ [("kind", kind)]) ints bools nodes lists fields).kind =
      kind := by
  rw [Members.kind, Members.text, lookup_textEntry]
  simp

@[simp] theorem op_mk (op kind : String) (ints bools nodes lists fields) :
    (Members.mk (textEntry "op" op ++ [("kind", kind)]) ints bools nodes lists fields).text "op" =
      op := by
  rw [Members.text, lookup_textEntry]
  by_cases empty : op = "" <;> simp [empty, List.lookup_cons]

@[simp] theorem bind_ok {α β : Type} (a : α) (f : α → Except Fault β) :
    (Except.ok a >>= f) = f a := rfl

@[simp] theorem map_ok {α β : Type} (f : α → β) (a : α) :
    (f <$> (Except.ok a : Except Fault α)) = .ok (f a) := rfl

theorem all_cons {α : Type} {as : Reading → Except Fault α} {a : α} {rest : List α} {r : Reading}
    {others : List (Option Reading)} (first : as r = .ok a) (second : Members.all as others = .ok rest) :
    Members.all as (some r :: others) = .ok (a :: rest) := by
  rw [Members.all, first, bind_ok, second]
  rfl

theorem nodes_object {j : Json} (object : ∃ ms, j = .obj ms) (rest : List Json) :
    nodes (j :: rest) = some (readingOf j) :: nodes rest := by
  obtain ⟨ms, rfl⟩ := object
  rw [nodes]
  rfl

mutual
theorem sig_reads : ∀ s : Sig, (readingOf s.toJson).sig = .ok s.bare
  | .named i name => by
    simp [Sig.toJson, Sig.bare, Members.sig]
  | .array i length elem => by
    have inner := sig_reads elem
    simp [Sig.toJson, Sig.bare, Members.sig, inner]
  | .record i fields => by
    have inner := sigFields_read fields
    simp [Sig.toJson, Sig.bare, Members.sig, inner]

theorem sigFields_read : ∀ (fs : List (String × Sig)) (m : Members),
    m.allFields "type" Field.type Reading.sig (fields (Sig.fieldsToJson fs)) =
      .ok (Sig.bareFields fs)
  | [], m => by rw [Sig.fieldsToJson, fields, Members.allFields, Sig.bareFields]
  | (name, sig) :: rest, m => by
    have first := sig_reads sig
    have others := sigFields_read rest m
    rw [Sig.fieldsToJson, Sig.bareFields, fields, members, members_sig, members, Members.allFields,
      others]
    simp [Members.need, Members.name, Members.text, first, bind_ok]
end

theorem param_object (p : Param) : ∃ ms, p.toJson = .obj ms := by
  cases p <;> simp [Param.toJson, node]

mutual
theorem param_reads : ∀ p : Param, (readingOf p.toJson).param = .ok p.bare
  | .value i name sig | .var i name sig => by
    have inner := sig_reads sig
    simp [Param.toJson, Param.bare, Members.param, inner]
  | .func i name params none => by
    have inner := params_read params
    simp [Param.toJson, Param.bare, Members.param, inner]
  | .func i name params (some result) => by
    have inner := params_read params
    have last := sig_reads result
    simp [Param.toJson, Param.bare, Members.param, inner, last]

theorem params_read : ∀ ps : List Param,
    Members.all Reading.param (nodes (Param.listToJson ps)) = .ok (Param.bareList ps)
  | [] => by rw [Param.listToJson, nodes, Members.all, Param.bareList]
  | p :: ps => by
    rw [Param.listToJson, nodes_object (param_object p), Param.bareList]
    exact all_cons (param_reads p) (params_read ps)
end

theorem decl_object (d : Decl) : ∃ ms, d.toJson = .obj ms := by
  cases d <;> exact ⟨_, by rw [Decl.toJson]; rfl⟩

theorem arg_object (a : Arg) : ∃ ms, a.toJson = .obj ms := by
  cases a <;> exact ⟨_, by rw [Arg.toJson]; rfl⟩

theorem tree_reads : Everywhere
    (fun e => (∀ n ∈ e.nodes, n.Writable) → (readingOf e.toJson).expr = .ok e.bare)
    (fun fs => (∀ n ∈ Expr.fieldNodes fs, n.Writable) → ∀ m : Members,
      m.allFields "value" Field.value Reading.expr (fields (Expr.fieldsToJson fs)) =
        .ok (Expr.bareFields fs))
    (fun es => (∀ n ∈ Expr.listNodes es, n.Writable) →
      Members.all Reading.expr (nodes (Expr.listToJson es)) = .ok (Expr.bareList es))
    (fun ds => (∀ n ∈ Decl.listNodes ds, n.Writable) →
      Members.all Reading.decl (nodes (Decl.listToJson ds)) = .ok (Decl.bareList ds))
    (fun d => (∀ n ∈ d.nodes, n.Writable) → (readingOf d.toJson).decl = .ok d.bare)
    (fun s => (∀ n ∈ s.nodes, n.Writable) → (readingOf s.toJson).stmt = .ok s.bare)
    (fun ss => (∀ n ∈ Stmt.listNodes ss, n.Writable) →
      Members.all Reading.stmt (nodes (Stmt.listToJson ss)) = .ok (Stmt.bareList ss))
    (fun as => (∀ n ∈ Arg.listNodes as, n.Writable) →
      Members.all Reading.arg (nodes (Arg.listToJson as)) = .ok (Arg.bareList as))
    (fun a => (∀ n ∈ a.nodes, n.Writable) → (readingOf a.toJson).arg = .ok a.bare) := by
  apply tree_induction
  all_goals
    simp only [Expr.nodes, Expr.fieldNodes, Expr.listNodes, Decl.listNodes, Decl.nodes, Stmt.nodes,
      Stmt.listNodes, Arg.listNodes, Arg.nodes, cons_append, forall_mem_cons, forall_mem_append, and_imp]
  case char =>
    intros
    simp [Expr.toJson, Expr.bare, Members.expr, Members.kind, Members.text]
  case ident => -- names and fields are not empty
    intro _ _ _ writable _
    simp [Expr.toJson, Expr.bare, Members.expr, writable.2.2]
  case select =>
    intro _ _ _ inner writable below
    simp [Expr.toJson, Expr.bare, Members.expr, writable.2.2, inner below]
  case noArgs | noDecls | noExprs | noFields | noStmts =>
    intros
    simp [Expr.listToJson, Expr.bareList, Stmt.listToJson, Stmt.bareList, Decl.listToJson,
      Decl.bareList, Arg.listToJson, Arg.bareList, Expr.fieldsToJson, Expr.bareFields, nodes, fields,
      Members.all, Members.allFields]
  case args =>
    intro a as head tail first rest
    rw [Arg.listToJson, nodes_object (arg_object a), Arg.bareList]
    exact all_cons (head first) (tail rest)
  case decls =>
    intro d ds head tail first rest
    rw [Decl.listToJson, nodes_object (decl_object d), Decl.bareList]
    exact all_cons (head first) (tail rest)
  case exprs =>
    intro e es head tail first rest
    rw [Expr.listToJson, nodes_object (expr_object e), Expr.bareList]
    exact all_cons (head first) (tail rest)
  case stmts =>
    intro s ss head tail first rest
    rw [Stmt.listToJson, nodes_object (stmt_object s), Stmt.bareList]
    exact all_cons (head first) (tail rest)
  case fields =>
    intro name value rest head tail first others m
    rw [Expr.fieldsToJson, Expr.bareFields, fields, members, members_expr, members,
      Members.allFields, tail others m]
    simp [Members.need, Members.name, Members.text, head first, bind_ok]
  all_goals
    intros
    simp +contextual [*, Expr.toJson, Expr.bare, Members.expr, Stmt.toJson, Stmt.bare, Members.stmt,
      Decl.toJson, Decl.bare, Members.decl, Arg.toJson, Arg.bare, Members.arg, sig_reads, params_read]

end Decoding
end Triangle
