import Mathlib
import Triangle.Check.Basic
import Triangle.Proofs.Tree.Erased

/-! What fills the slots of a tree has no part in checking, and its positions only where a mistake or a
declaration is located: with other slots it comes to the same result and the same reports, in the
places where its nodes then stand. Checking fills slots and changes nothing else, whether it succeeds or
fails. -/
namespace Triangle

/-! ## Places -/

section
variable (π : Pos → Pos)

def Diagnostic.place (d : Diagnostic) : Diagnostic := { d with pos := π d.pos }

def Binding.place : Binding → Binding
  | .declared kind name pos => .declared kind name (π pos)
  | .standard kind name => .standard kind name

end

namespace Scope
variable {V W : Type} (g : V → W)

def Entry.map (e : Entry V) : Entry W := ⟨g e.value, e.constant⟩

def Level.map (l : Level V) : Level W := { l with names := l.names.map fun e => (e.1, e.2.map g) }

def Table.map (t : Table V) : Table W := ⟨t.top.map g, t.outer.map (Level.map g)⟩

theorem Level.get?_map (l : Level V) (name : String) :
    (l.map g).get? name = (l.get? name).map (Entry.map g) := by
  obtain ⟨kind, state, names⟩ := l
  induction names with
  | nil => rfl
  | cons e names ih =>
    obtain ⟨x, e⟩ := e
    simp only [Level.get?, Level.map, List.map_cons, List.lookup_cons] at ih ⊢
    split
    · rfl
    · exact ih

namespace Table

theorem find?_map (t : Table V) (name : String) :
    (t.map g).find? name = (t.find? name).map fun found => (found.1.map g, found.2) := by
  have inside (levels : List (Level V)) : ∀ k, findIn name k (levels.map (Level.map g)) =
      (findIn name k levels).map fun found => (found.1.map g, found.2) := by
    induction levels with
    | nil => exact fun _ => rfl
    | cons l rest ih =>
      intro k
      rw [List.map_cons, findIn, findIn, Level.get?_map]
      cases l.get? name with
      | some e => rfl
      | none => exact ih _
  exact inside t.levels 0

@[simp] theorem lookup?_map (t : Table V) (name : String) :
    (t.map g).lookup? name = (t.lookup? name).map g := by
  rw [lookup?, lookup?, find?_map]
  cases t.find? name <;> rfl

@[simp] theorem isConst_map (t : Table V) (name : String) :
    (t.map g).isConst name = t.isConst name := by
  rw [isConst, isConst, find?_map]
  cases t.find? name <;> rfl

@[simp] theorem declaredHere_map (t : Table V) (name : String) :
    (t.map g).declaredHere name = t.declaredHere name := by
  rw [declaredHere, declaredHere, show (t.map g).top = t.top.map g from rfl, Level.get?_map]
  cases t.top.get? name <;> rfl

theorem insert_map (t : Table V) (name : String) (e : Entry V) :
    (t.map g).insert name (e.map g) = (t.insert name e).map g := by
  simp only [insert, map, Level.insert, Level.map, List.map_cons, List.filter_map]
  rfl

end Table
end Scope

namespace Check
open Checked

section
variable (π : Pos → Pos)

def Meaning.place : Meaning → Meaning
  | .typed t b => .typed t (b.place π)
  | .equality b => .equality (b.place π)

def Env.place (env : Env) : Env := { env with terms := env.terms.map (Meaning.place π) }

/-- The outcome of a check, with the mistake in its place. -/
def placed {β γ : Type} (g : β → γ) : Except Diagnostic β → Except Diagnostic γ
  | .ok b => .ok (g b)
  | .error d => .error (d.place π)

variable {π} {env : Env} {pos : Pos} {name op field : String} {m : Meaning} {t u want result : Ty}

theorem Env.lookup?_place :
    (env.place π).terms.lookup? name = (env.terms.lookup? name).map (Meaning.place π) :=
  Scope.Table.lookup?_map _ env.terms name

theorem signature?_place : (m.place π).signature? = m.signature? := by
  cases m with
  | typed t b => cases t <;> rfl
  | equality b => rfl

theorem namedType_place :
    namedType (env.place π) (π pos) name = placed π id (namedType env pos name) := by
  simp only [namedType, Env.lookup?_place, show (env.place π).types = env.types from rfl]
  cases env.types.lookup? name with
  | some t => rfl
  | none => cases env.terms.lookup? name <;> rfl

theorem identRule_place : identRule (π pos) name (m.place π) = placed π id (identRule pos name m) := by
  cases m with
  | typed t b =>
    simp only [Meaning.place, identRule]
    split <;> rfl
  | equality b => rfl

theorem elemRule_place {array array' : Expr} (same : array'.text = array.text) :
    elemRule (π pos) array' t = placed π id (elemRule pos array t) := by
  unfold elemRule
  rw [same]
  split <;> rfl

theorem fieldRule_place {record record' : Expr} (same : record'.text = record.text) :
    fieldRule (π pos) record' field t = placed π id (fieldRule pos record field t) := by
  unfold fieldRule
  rw [same]
  split
  · split <;> rfl
  · rfl

theorem unaryRule_place : unaryRule (π pos) op (m.place π) = placed π id (unaryRule pos op m) := by
  unfold unaryRule
  rw [signature?_place]
  split <;> rfl

theorem operandRule_place :
    operandRule (π pos) op want result t = placed π id (operandRule pos op want result t) := by
  unfold operandRule
  split <;> rfl

theorem binaryRule_place :
    binaryRule (π pos) op (m.place π) t u = placed π id (binaryRule pos op m t u) := by
  cases m with
  | typed s b =>
    simp only [binaryRule, ← signature?_place (π := π) (m := .typed s b), Meaning.place]
    split
    · split <;> rfl
    · rfl
  | equality b =>
    simp only [binaryRule, Meaning.place]
    split <;> rfl

theorem functionRule_place :
    functionRule (π pos) name (m.place π) = placed π id (functionRule pos name m) := by
  unfold functionRule
  rw [signature?_place]
  split <;> rfl

theorem procedureRule_place :
    procedureRule (π pos) name (m.place π) = placed π id (procedureRule pos name m) := by
  unfold procedureRule
  rw [signature?_place]
  split <;> rfl

theorem Env.place_id : env.place id = env := by
  have meaning : Meaning.place id = id := by
    funext m
    cases m with
    | typed t b | equality b => cases b <;> rfl
  have level : Scope.Level.map (id : Meaning → Meaning) = id := by
    funext l
    simp [Scope.Level.map, Scope.Entry.map]
  simp [Env.place, meaning, Scope.Table.map, level]

@[simp] theorem Env.enterBlock_place : (env.place π).enterBlock = env.enterBlock.place π := rfl

theorem Env.declaredHere_place :
    (env.place π).terms.declaredHere name = env.terms.declaredHere name :=
  Scope.Table.declaredHere_map _ env.terms name

theorem Env.addConst_place {kind : DeclKind} :
    (env.place π).addConst name (.typed t (.declared kind name (π pos))) =
      (env.addConst name (.typed t (.declared kind name pos))).place π :=
  congrArg (Env.mk · env.types)
    (Scope.Table.insert_map _ env.terms name ⟨.typed t (.declared kind name pos), true⟩)

theorem Env.addVar_place {kind : DeclKind} :
    (env.place π).addVar name (.typed t (.declared kind name (π pos))) =
      (env.addVar name (.typed t (.declared kind name pos))).place π :=
  congrArg (Env.mk · env.types)
    (Scope.Table.insert_map _ env.terms name ⟨.typed t (.declared kind name pos), false⟩)

theorem Env.unary?_place : (env.place π).unary? op = (env.unary? op).map (Meaning.place π) := by
  simp only [Env.unary?, Env.lookup?_place]
  cases env.terms.lookup? op with
  | none => cases env.terms.lookup? (unaryKey op) <;> rfl
  | some m =>
    cases m with
    | equality b => cases env.terms.lookup? (unaryKey op) <;> rfl
    | typed t b =>
      cases t with
      | func ps r =>
        obtain _ | ⟨p, _ | _⟩ := ps <;> cases b <;> cases env.terms.lookup? (unaryKey op) <;> rfl
      | _ => cases env.terms.lookup? (unaryKey op) <;> rfl

end

/-! ## Checks that agree -/

/-- A checked node is `whole` but for its slots. The check with other slots, in other places, comes to
the same there. -/
structure Agrees {α β : Type} (π : Pos → Pos) (g : β → β) (erase : α → α) (whole : α)
    (c c' : Checked α β) : Prop where
  node : erase c.node = erase whole
  result : c'.result = placed π g c.result
  reports : c'.reports = c.reports.map (·.place π)

namespace Agrees

variable {α β γ δ : Type} {π : Pos → Pos} {k : β → β} {l : δ → δ} {f : α → α} {g : γ → γ} {a : α} {w : γ}

theorem pass {node node' : α} (b : β) (same : f node = f a := by simp [*]) :
    Agrees π k f a (Checked.pass node b) (Checked.pass node' (k b)) := ⟨same, rfl, rfl⟩

theorem fail {node node' : α} (d : Diagnostic) (same : f node = f a := by simp [*]) :
    Agrees π k f a (Checked.fail node d) (Checked.fail node' (d.place π)) := ⟨same, rfl, rfl⟩

theorem settle {make make' : Info → α} {i i' : Info} (result : Except Diagnostic Ty)
    (same : ∀ j : Info, j.untyped = i.untyped → f (make j) = f a := by intro j same; simp [*]) :
    Agrees π id f a (Checked.settle make i result) (Checked.settle make' i' (placed π id result)) := by
  cases result with
  | ok t => exact ⟨same _ rfl, rfl, rfl⟩
  | error d => exact ⟨same _ rfl, rfl, rfl⟩

theorem andThen {c c' : Checked α β} {rebuild rebuild' : α → γ} {next next' : α → β → Checked γ δ}
    (agrees : Agrees π k f a c c')
    (later : f c.node = f a → ∀ b, Agrees π l g w (next c.node b) (next' c'.node (k b)))
    (rebuilt : f c.node = f a → g (rebuild c.node) = g w := by intro same; simp [*]) :
    Agrees π l g w (c.andThen rebuild next) (c'.andThen rebuild' next') := by
  unfold Checked.andThen
  rw [agrees.result, agrees.reports]
  cases c.result with
  | error d => exact ⟨rebuilt agrees.node, rfl, rfl⟩
  | ok b =>
    have rest := later agrees.node b
    exact ⟨rest.node, rest.result, by simp [placed, rest.reports]⟩

end Agrees

section
variable {f : Slots → Id Slots} {π : Pos → Pos} (kept : ∀ s, Info.pos (f s).info = π s.info.pos)
include kept

/-! ## Signatures and parameters -/

omit kept in
mutual
theorem sig_agrees (kept : ∀ s, Info.pos (f s).info = π s.info.pos) (env : Env) : ∀ s : Sig,
    Agrees π id Sig.erased s (sig env s) (sig (env.place π) (s.mapSlots f))
  | .named i name => by
    simp only [sig, Sig.mapSlots, pure, bind, kept, namedType_place]
    exact .settle _
  | .array i length elem => by
    simp only [sig, Sig.mapSlots, pure, bind, kept]
    split
    · exact .fail _
    · split
      · exact .fail _
      · refine (sig_agrees kept env elem).andThen fun _ t => ?_
        exact .settle _
  | .record i fields => by
    simp only [sig, Sig.mapSlots, pure, bind, kept]
    refine (sigFields_agrees kept env i.pos [] fields).andThen fun _ ts => ?_
    exact .settle _

theorem sigFields_agrees (kept : ∀ s, Info.pos (f s).info = π s.info.pos) (env : Env)
    (pos : Pos) (seen : List String) :
    ∀ fields : List (String × Sig), Agrees π id Sig.erasedFields fields (sigFields env pos seen fields)
      (sigFields (env.place π) (π pos) seen (Sig.mapFieldSlots f fields))
  | [] => .pass _
  | (name, s) :: rest => by
    simp only [sigFields, Sig.mapFieldSlots, pure, bind]
    split
    · exact .fail _
    · refine (sig_agrees kept env s).andThen fun _ t => ?_
      refine (sigFields_agrees kept env pos (name :: seen) rest).andThen fun _ ts => ?_
      exact .pass _
end

theorem resultSig_agrees (env : Env) (s : Option Sig) : Agrees π id (Option.map Sig.erased) s
    (resultSig env s) (resultSig (env.place π) (s.map fun s => s.mapSlots f)) := by
  cases s with
  | none => exact .pass _
  | some s =>
    have inner := sig_agrees kept env s
    have same : Option.map Sig.erased (some (sig env s).node) = Option.map Sig.erased (some s) :=
      congrArg some inner.node
    rw [Option.map_some, resultSig, resultSig]
    exact inner.andThen (fun _ t => .pass t same) fun _ => same

omit kept in
theorem param_name (env : Env) (p : Param) : (param env p).node.name = p.name := by
  cases p with
  | value i name s | var i name s =>
    rw [param, andThen]
    split <;> rfl
  | func i name ps result =>
    rw [param, andThen]
    split
    · rfl
    · simp only [andThen]
      split <;> rfl

theorem pos_mapSlots (p : Param) : Param.pos (p.mapSlots f) = π p.pos := by
  cases p with
  | value i | var i => exact kept ⟨i, none⟩
  | func i name ps result => cases result <;> exact kept ⟨i, none⟩

omit kept in
mutual
theorem param_agrees (kept : ∀ s, Info.pos (f s).info = π s.info.pos) (env : Env) : ∀ p : Param,
    Agrees π id Param.erased p (param env p) (param (env.place π) (p.mapSlots f))
  | .value i name s | .var i name s => by
    simp only [param, Param.mapSlots, pure, bind]
    refine (sig_agrees kept env s).andThen fun _ t => ?_
    exact .settle (.ok _)
  | .func i name ps result => by
    have mapped : param (env.place π) (Param.mapSlots f (.func i name ps result)) =
        param (env.place π) (.func (f ⟨i, none⟩).info name (Param.mapListSlots f ps)
          (result.map fun s => s.mapSlots f)) := by cases result <;> rfl
    rw [mapped, param, param]
    refine (params_agrees kept env [] ps).andThen fun _ ts => ?_
    refine (resultSig_agrees kept env result).andThen fun _ t => ?_
    exact .settle (.ok _)

theorem params_agrees (kept : ∀ s, Info.pos (f s).info = π s.info.pos) (env : Env)
    (seen : List String) : ∀ ps : List Param,
    Agrees π id Param.erasedList ps (params env seen ps)
      (params (env.place π) seen (Param.mapListSlots f ps))
  | [] => .pass _
  | p :: ps => by
    simp only [params, Param.mapListSlots, pure, bind, Param.name_mapSlots, pos_mapSlots kept]
    split
    · exact .fail _
    · refine (param_agrees kept env p).andThen fun _ t => ?_
      simp only [param_name, Param.name_mapSlots]
      refine (params_agrees kept env (p.name :: seen) ps).andThen fun _ ts => ?_
      exact .pass _
end

omit kept in
theorem bindParams_cons (env : Env) (p : Param) (ps : List Param) (t : Ty) (ts : List Ty) :
    env.bindParams (p :: ps) (t :: ts) = Env.bindParams
      ⟨env.terms.insert p.name ⟨.typed t p.binding, decide (p.kind ≠ .varParam)⟩, env.types⟩ ps ts := by
  cases p <;> rfl

theorem bindParams_place (ps : List Param) (ts : List Ty) (env : Env) :
    (env.place π).bindParams (Param.mapListSlots f ps) ts = (env.bindParams ps ts).place π := by
  induction ps generalizing ts env with
  | nil => rfl
  | cons p ps ih =>
    cases ts with
    | nil => rfl
    | cons t ts =>
      have binding : Param.binding (p.mapSlots f) = p.binding.place π := by
        simp only [Param.binding, Param.name_mapSlots, Param.kind_mapSlots, pos_mapSlots kept]
        rfl
      show (env.place π).bindParams (Param.mapSlots f p :: Param.mapListSlots f ps) (t :: ts) = _
      rw [bindParams_cons, bindParams_cons, Param.name_mapSlots, Param.kind_mapSlots, binding, ← ih]
      exact congrArg (fun terms => Env.bindParams ⟨terms, env.types⟩ _ ts)
        (Scope.Table.insert_map _ env.terms p.name ⟨.typed t p.binding, _⟩)

/-- The scope of a routine's body. -/
theorem scope_place (env : Env) (name : String) (kind : DeclKind) (pos : Pos) (ps : List Param)
    (ts : List Ty) (r : Ty) : ((env.place π).addConst name (.typed (.func ts r)
      (.declared kind name (π pos)))).enterRoutine.bindParams (Param.mapListSlots f ps) ts =
      ((env.addConst name (.typed (.func ts r)
        (.declared kind name pos))).enterRoutine.bindParams ps ts).place π := by
  rw [← bindParams_place kept, Env.addConst_place]
  rfl

omit kept in
theorem bindParams_params (env outer : Env) (seen : List String) (ps : List Param) (ts : List Ty) :
    outer.bindParams (params env seen ps).node ts = outer.bindParams ps ts := by
  have own (ps : List Param) : outer.bindParams (Param.erasedList ps) ts = outer.bindParams ps ts := by
    have placed := bindParams_place Slots.pos_emptied ps ts outer
    rwa [Env.place_id, Env.place_id, ← Param.erasedList_eq] at placed
  rw [← own, (params_agrees Slots.pos_emptied env seen ps).node, own]

/-! ## Expressions, declarations and commands -/

/-- The same for a declaration: the two checks also come to one scope. -/
structure DeclAgrees (π : Pos → Pos) (d : Decl) (c c' : Declared) : Prop where
  node : c.node.erased = d.erased
  env : c'.env = c.env.place π
  result : c'.result = placed π id c.result
  reports : c'.reports = c.reports.map (·.place π)

theorem routineArgument_agrees (env : Env) (callee : String) (index : Nat) (want : Ty) (i : Info)
    (decl : Option Binding) (name : String) : Agrees π id Arg.erased (.func i decl name)
      (routineArgument env callee index want i decl name)
      (routineArgument (env.place π) callee index want (f ⟨i, decl⟩).info (f ⟨i, decl⟩).decl name) := by
  simp only [routineArgument, Env.lookup?_place, kept]
  cases env.terms.lookup? name with
  | none => exact .fail _
  | some m =>
    cases m with
    | equality b => exact .fail _
    | typed t b =>
      cases t with
      | func ps r =>
        simp only [Option.map_some, Meaning.place]
        split
        · exact ⟨rfl, rfl, rfl⟩
        · exact .fail _
      | _ => exact .fail _

theorem pos_expr_mapSlots (e : Expr) : Expr.pos (e.mapSlots f) = π e.pos := by
  cases e <;> exact kept _

theorem asVariable_agrees (env : Env) {target : Expr} {c c' : Checked Expr Ty}
    (agrees : Agrees π id Expr.erased target c c') :
    Agrees π id Expr.erased target (asVariable env target c)
      (asVariable (env.place π) (target.mapSlots f) c') := by
  simp only [asVariable, Expr.root?_mapSlots, Expr.text_mapSlots, pos_expr_mapSlots kept, Env.place,
    Scope.Table.isConst_map]
  split
  · exact .fail _
  · refine agrees.andThen (fun same t => ?_) id
    split
    · exact .fail _ same
    · exact .pass _ same

theorem twice?_place (env : Env) (d : Decl) :
    twice? (env.place π) (d.mapSlots f) = (twice? env d).map (·.place π) := by
  cases d <;>
    simp only [twice?, Decl.mapSlots, pure, bind, kept, Env.place, Scope.Table.declaredHere_map,
      Decl.name, Decl.pos, Decl.info] <;> split <;> simp [*] <;> rfl

omit kept in
theorem decl_twice {env : Env} {d : Decl} {e : Diagnostic} (taken : twice? env d = some e) :
    decl env d = ⟨d, env, .error e, []⟩ := by
  cases d <;> simp [decl, taken]

theorem DeclAgrees.fresh {env : Env} {d : Decl}
    (later : twice? env d = none → twice? (env.place π) (d.mapSlots f) = none →
      DeclAgrees π d (decl env d) (decl (env.place π) (d.mapSlots f))) :
    DeclAgrees π d (decl env d) (decl (env.place π) (d.mapSlots f)) := by
  have again := twice?_place kept env d
  cases taken : twice? env d with
  | some e =>
    rw [taken] at again
    rw [decl_twice taken, decl_twice again]
    exact ⟨rfl, rfl, rfl, rfl⟩
  | none =>
    rw [taken] at again
    exact later taken again

omit kept in
theorem Expr.erased_fillTy (e : Expr) (t : Ty) : (e.fillTy t).erased = e.erased := by
  cases e <;> simp [Expr.fillTy, Expr.setInfo, Expr.info]

omit kept in
theorem settled_agrees {e : Expr} {c c' : Checked Expr Ty} (agrees : Agrees π id Expr.erased e c c') :
    (settled c).1.erased = e.erased ∧ (settled c').2 = (settled c).2.map (·.place π) := by
  unfold settled
  rw [agrees.result]
  cases c.result with
  | ok t => exact ⟨agrees.node, rfl⟩
  | error d => exact ⟨(Expr.erased_fillTy _ _).trans agrees.node, rfl⟩

theorem conditionReports_agrees {test : Expr} {c c' : Checked Expr Ty}
    (agrees : Agrees π id Expr.erased test c c') :
    (conditionReports test c).1.erased = test.erased ∧
      (conditionReports (test.mapSlots f) c').2 = (conditionReports test c).2.map (·.place π) := by
  simp only [conditionReports, agrees.result, agrees.reports, Expr.text_mapSlots, pos_expr_mapSlots
    kept]
  cases c.result with
  | ok t =>
    simp only [placed, id]
    split
    · exact ⟨agrees.node, rfl⟩
    · exact ⟨agrees.node, by simp; rfl⟩
  | error d => exact ⟨(Expr.erased_fillTy _ _).trans agrees.node, by simp [placed]⟩

omit kept in
theorem assignReports_place {target e : Expr} {left left' right right' : Checked Expr Ty}
    (agreesLeft : Agrees π id Expr.erased target left left')
    (agreesRight : Agrees π id Expr.erased e right right') (pos : Pos) :
    assignReports (π pos) (target.mapSlots f) left' right' =
      (assignReports pos target left right).map (·.place π) := by
  simp only [assignReports, agreesLeft.result, agreesRight.result, Expr.text_mapSlots]
  cases left.result with
  | error d => rfl
  | ok t =>
    cases right.result with
    | error d => rfl
    | ok u =>
      simp only [placed, id]
      split <;> rfl

omit kept in
theorem Decl.erased_fallback (env : Env) (d : Decl) : (fallback env d).1.erased = d.erased := by
  cases d <;> simp [fallback, Decl.setInfo, Decl.info]

theorem fallback_place (env : Env) (d : Decl) :
    (fallback (env.place π) (d.mapSlots f)).2 = (fallback env d).2.place π := by
  cases d with
  | type i name s =>
    simp only [fallback, Decl.mapSlots, pure, bind, Decl.setInfo]
    rw [apply_ite (Env.place π)]
    rfl
  | var i name s =>
    simp only [fallback, Decl.mapSlots, pure, bind, Decl.setInfo, Decl.info, Decl.binding, Decl.kind,
      Decl.pos, Decl.name, Info.pos_fillTy, kept, Env.declaredHere_place]
    rw [Env.addVar_place, ← apply_ite (Env.place π)]
  | const | func | proc =>
    simp only [fallback, Decl.mapSlots, pure, bind, Decl.setInfo, Decl.info, Decl.binding, Decl.kind,
      Decl.pos, Decl.name, Info.pos_fillTy, kept, Env.declaredHere_place]
    rw [Env.addConst_place, ← apply_ite (Env.place π)]

omit kept in
/-- What a failed declaration binds does not depend on how far its checking got. -/
theorem fallback_env_decl (env outer : Env) (d : Decl) :
    (fallback outer (decl env d).node).2 = (fallback outer d).2 := by
  cases d <;> simp only [decl] <;> repeat' split
  all_goals simp [fallback, Decl.setInfo, Decl.info, Decl.binding, Decl.kind, Decl.pos, Decl.name]

omit kept in
mutual
theorem expr_agrees (kept : ∀ s, Info.pos (f s).info = π s.info.pos) (env : Env) : ∀ e : Expr,
    Agrees π id Expr.erased e (expr env e) (expr (env.place π) (e.mapSlots f))
  | .int i value => by
    simp only [expr, Expr.mapSlots, pure, bind, kept]
    split
    · exact .fail _
    · exact .settle (.ok _)
  | .char i value | .bool i value => .settle (.ok _)
  | .ident i decl name => by
    simp only [expr, Expr.mapSlots, pure, bind, kept, Env.lookup?_place]
    cases env.terms.lookup? name with
    | none => exact .fail _
    | some m =>
      simp only [Option.map_some, identRule_place]
      cases identRule i.pos name m with
      | error d => exact .fail _
      | ok t => exact .settle (.ok _)
  | .subscript i array index => by
    simp only [expr, Expr.mapSlots, pure, bind, kept, Expr.root?_mapSlots, Expr.text_mapSlots,
      pos_expr_mapSlots kept, elemRule_place (Expr.text_mapSlots f array)]
    split
    · exact .fail _
    · refine (expr_agrees kept env array).andThen fun _ base => ?_
      simp only [id]
      cases elemRule i.pos array base with
      | error d => exact .fail _
      | ok elem =>
        refine (expr_agrees kept env index).andThen fun _ t => ?_
        simp only [id]
        split
        · exact .settle (.ok _)
        · exact .settle (.error _)
  | .select i record field => by
    simp only [expr, Expr.mapSlots, pure, bind, kept, Expr.root?_mapSlots, Expr.text_mapSlots,
      fieldRule_place (Expr.text_mapSlots f record)]
    split
    · exact .fail _
    · refine (expr_agrees kept env record).andThen fun _ base => ?_
      exact .settle _
  | .unary i decl op operand => by
    simp only [expr, Expr.mapSlots, pure, bind, kept, Env.unary?_place]
    cases env.unary? op with
    | none => exact .fail _
    | some m =>
      simp only [Option.map_some, unaryRule_place]
      cases unaryRule i.pos op m with
      | error d => exact .fail _
      | ok signature =>
        refine (expr_agrees kept env operand).andThen fun _ got => ?_
        simp only [id, operandRule_place]
        cases operandRule i.pos op signature.1 signature.2 got with
        | error d => exact .fail _
        | ok t => exact .settle (.ok _)
  | .binary i decl op left right => by
    simp only [expr, Expr.mapSlots, pure, bind, kept, Env.lookup?_place]
    cases env.terms.lookup? op with
    | none => exact .fail _
    | some m =>
      simp only [Option.map_some, binaryRule_place]
      refine (expr_agrees kept env left).andThen fun _ t => ?_
      refine (expr_agrees kept env right).andThen fun _ u => ?_
      exact .settle _
  | .call i decl name as => by
    simp only [expr, Expr.mapSlots, pure, bind, kept, Env.lookup?_place,
      Arg.length_mapSlots]
    cases env.terms.lookup? name with
    | none => exact .fail _
    | some m =>
      simp only [Option.map_some, functionRule_place]
      cases functionRule i.pos name m with
      | error d => exact .fail _
      | ok signature =>
        simp only [placed, id]
        split
        · exact ⟨rfl, rfl, rfl⟩
        · refine (args_agrees kept env name 1 signature.1 as).andThen fun _ _ => ?_
          exact .settle (.ok _)
  | .cond i test yes no => by
    simp only [expr, Expr.mapSlots, pure, bind, kept, Expr.text_mapSlots, pos_expr_mapSlots kept]
    refine (expr_agrees kept env test).andThen fun _ t => ?_
    simp only [id]
    split
    · exact .fail _
    · refine (expr_agrees kept env yes).andThen fun _ u => ?_
      refine (expr_agrees kept env no).andThen fun _ v => ?_
      simp only [id]
      split
      · exact .settle (.ok _)
      · exact .settle (.error _)
  | .letIn i ds body => by
    simp only [expr, Expr.mapSlots, pure, bind]
    refine (decls_agrees kept env.enterBlock ds).andThen fun _ inner => ?_
    refine (expr_agrees kept inner body).andThen fun _ t => ?_
    exact .settle (.ok _)
  | .array i [] => by
    simp only [expr, Expr.mapSlots, Expr.mapListSlots, pure, bind, kept]
    exact .fail _
  | .array i (e :: es) => by
    simp only [expr, Expr.mapSlots, Expr.mapListSlots, pure, bind, Expr.length_mapSlots]
    refine (expr_agrees kept env e).andThen fun _ t => ?_
    refine (elements_agrees kept env t.deref 1 es).andThen fun _ _ => ?_
    exact .settle (.ok _)
  | .record i fields => by
    simp only [expr, Expr.mapSlots, pure, bind, kept]
    refine (recordFields_agrees kept env i.pos [] fields).andThen fun _ ts => ?_
    exact .settle (.ok _)

theorem elements_agrees (kept : ∀ s, Info.pos (f s).info = π s.info.pos) (env : Env)
    (want : Ty) (index : Nat) : ∀ es : List Expr,
    Agrees π id Expr.erasedList es (elements env want index es)
      (elements (env.place π) want index (Expr.mapListSlots f es))
  | [] => .pass _
  | e :: es => by
    simp only [elements, Expr.mapListSlots, pure, bind, pos_expr_mapSlots kept]
    refine (expr_agrees kept env e).andThen fun _ t => ?_
    simp only [id]
    split
    · exact .fail _
    · refine (elements_agrees kept env want (index + 1) es).andThen fun _ _ => ?_
      exact .pass _

theorem recordFields_agrees (kept : ∀ s, Info.pos (f s).info = π s.info.pos) (env : Env)
    (pos : Pos) (seen : List String) :
    ∀ fields : List (String × Expr), Agrees π id Expr.erasedFields fields
      (recordFields env pos seen fields)
      (recordFields (env.place π) (π pos) seen (Expr.mapFieldSlots f fields))
  | [] => .pass _
  | (name, e) :: rest => by
    simp only [recordFields, Expr.mapFieldSlots, pure, bind]
    split
    · exact .fail _
    · refine (expr_agrees kept env e).andThen fun _ t => ?_
      refine (recordFields_agrees kept env pos (name :: seen) rest).andThen fun _ ts => ?_
      exact .pass _

theorem args_agrees (kept : ∀ s, Info.pos (f s).info = π s.info.pos) (env : Env)
    (callee : String) (index : Nat) (wants : List Ty) :
    ∀ as : List Arg, Agrees π id Arg.erasedList as (args env callee index wants as)
      (args (env.place π) callee index wants (Arg.mapListSlots f as))
  | [] => .pass _
  | a :: as => by
    cases wants with
    | nil => exact .pass _
    | cons want wants =>
      simp only [args, Arg.mapListSlots, pure, bind]
      refine (arg_agrees kept env callee index want a).andThen fun _ _ => ?_
      refine (args_agrees kept env callee (index + 1) wants as).andThen fun _ _ => ?_
      exact .pass _

theorem arg_agrees (kept : ∀ s, Info.pos (f s).info = π s.info.pos) (env : Env)
    (callee : String) (index : Nat) (want : Ty) : ∀ a : Arg,
    Agrees π id Arg.erased a (arg env callee index want a)
      (arg (env.place π) callee index want (a.mapSlots f))
  | .value i value => by
    simp only [Arg.mapSlots, pure, bind]
    cases want with
    | ref | func =>
      simp only [arg, kept]
      exact .fail _
    | _ =>
      simp only [arg, kept]
      refine (expr_agrees kept env value).andThen fun _ got => ?_
      simp only [id]
      split
      · exact .pass _
      · exact .fail _
  | .var i target => by
    simp only [Arg.mapSlots, pure, bind]
    cases want with
    | ref =>
      simp only [arg, kept]
      refine (asVariable_agrees kept env (expr_agrees kept env target)).andThen fun _ got => ?_
      simp only [id]
      split
      · exact .pass _
      · exact .fail _
    | _ =>
      simp only [arg, kept]
      exact .fail _
  | .func i decl name => by
    simp only [Arg.mapSlots, pure, bind]
    cases want with
    | func ps r => exact routineArgument_agrees kept env callee index (.func ps r) i decl name
    | _ =>
      simp only [arg, kept]
      exact .fail _

theorem decls_agrees (kept : ∀ s, Info.pos (f s).info = π s.info.pos) (env : Env) : ∀ ds : List Decl,
    Agrees π (Env.place π) Decl.erasedList ds (decls env ds)
      (decls (env.place π) (Decl.mapListSlots f ds))
  | [] => .pass _
  | d :: ds => by
    have head := decl_agrees kept env d
    have tail := decls_agrees kept (decl env d).env ds
    simp only [decls, Decl.mapListSlots, pure, bind, head.result, head.env, head.reports]
    cases (decl env d).result with
    | error e => exact ⟨by simp [head.node], rfl, rfl⟩
    | ok => exact ⟨by simp [head.node, tail.node], tail.result, by simp [placed, tail.reports]⟩

theorem decl_agrees (kept : ∀ s, Info.pos (f s).info = π s.info.pos) (env : Env) : ∀ d : Decl,
    DeclAgrees π d (decl env d) (decl (env.place π) (d.mapSlots f))
  | .const i name value => .fresh kept fun free free' => by
    have inner := expr_agrees kept env value
    simp only [Decl.mapSlots, pure, bind] at free'
    simp only [Decl.mapSlots, pure, bind, decl, free, free', inner.result, inner.reports,
      Decl.binding, Decl.kind, Decl.name, Decl.pos, Decl.info, Info.pos_setTy, kept]
    cases (expr env value).result with
    | error d => exact ⟨by simp [inner.node], rfl, rfl, rfl⟩
    | ok t => exact ⟨by simp [inner.node], Env.addConst_place, rfl, rfl⟩
  | .var i name s => .fresh kept fun free free' => by
    have inner := sig_agrees kept env s
    simp only [Decl.mapSlots, pure, bind] at free'
    simp only [Decl.mapSlots, pure, bind, decl, free, free', inner.result, Decl.binding, Decl.kind,
      Decl.name, Decl.pos, Decl.info, Info.pos_setTy, kept]
    cases (sig env s).result with
    | error d => exact ⟨by simp [inner.node], rfl, rfl, rfl⟩
    | ok t => exact ⟨by simp [inner.node], Env.addVar_place, rfl, rfl⟩
  | .type i name s => .fresh kept fun free free' => by
    have inner := sig_agrees kept env s
    simp only [Decl.mapSlots, pure, bind] at free'
    simp only [Decl.mapSlots, pure, bind, decl, free, free', inner.result]
    cases (sig env s).result with
    | error d => exact ⟨by simp [inner.node], rfl, rfl, rfl⟩
    | ok t => exact ⟨by simp [inner.node], rfl, rfl, rfl⟩
  | .func i name ps result body => .fresh kept fun free free' => by
    have formals := params_agrees kept env [] ps
    have returned := sig_agrees kept env result
    simp only [Decl.mapSlots, pure, bind] at free'
    simp only [Decl.mapSlots, pure, bind, decl, free, free', formals.result, returned.result,
      bindParams_params, Info.pos_setTy, kept, pos_expr_mapSlots kept]
    cases (params env [] ps).result with
    | error d => exact ⟨by simp [formals.node], rfl, rfl, rfl⟩
    | ok ts =>
      cases (sig env result).result with
      | error d => exact ⟨by simp [formals.node, returned.node], rfl, rfl, rfl⟩
      | ok r =>
        have inner := expr_agrees kept ((env.addConst name (.typed (.func ts r)
          (.declared .func name i.pos))).enterRoutine.bindParams ps ts) body
        have inside := scope_place kept env name .func i.pos ps ts r
        simp only [placed, id, inside, inner.result, inner.reports]
        cases (expr _ body).result with
        | error d =>
          exact ⟨by simp [formals.node, returned.node, inner.node], Env.addConst_place, rfl, rfl⟩
        | ok t =>
          dsimp only
          split
          · exact ⟨by simp [formals.node, returned.node, inner.node], Env.addConst_place, rfl, rfl⟩
          · exact ⟨by simp [formals.node, returned.node, inner.node], Env.addConst_place, rfl, rfl⟩
  | .proc i name ps body => .fresh kept fun free free' => by
    have formals := params_agrees kept env [] ps
    simp only [Decl.mapSlots, pure, bind] at free'
    simp only [Decl.mapSlots, pure, bind, decl, free, free', formals.result, bindParams_params,
      Info.pos_setTy, kept]
    cases (params env [] ps).result with
    | error d => exact ⟨by simp [formals.node], rfl, rfl, rfl⟩
    | ok ts =>
      have inner := stmt_agrees kept ((env.addConst name (.typed (.func ts .void)
        (.declared .proc name i.pos))).enterRoutine.bindParams ps ts) body
      have inside := scope_place kept env name .proc i.pos ps ts .void
      simp only [placed, id, inside]
      exact ⟨by simp [formals.node, inner.1], Env.addConst_place, rfl, inner.2⟩

theorem declsOfStmt_agrees (kept : ∀ s, Info.pos (f s).info = π s.info.pos) (env : Env) :
    ∀ ds : List Decl,
    Decl.erasedList (declsOfStmt env ds).1 = Decl.erasedList ds ∧
      (declsOfStmt (env.place π) (Decl.mapListSlots f ds)).2 =
        ((declsOfStmt env ds).2.1.place π, (declsOfStmt env ds).2.2.map (·.place π))
  | [] => ⟨rfl, rfl⟩
  | d :: ds => by
    have head := decl_agrees kept env d
    simp only [declsOfStmt, Decl.mapListSlots, pure, bind, head.result, head.env, head.reports]
    cases (decl env d).result with
    | ok =>
      have tail := declsOfStmt_agrees kept (decl env d).env ds
      exact ⟨by simp [head.node, tail.1], by simp [placed, tail.2]⟩
    | error e =>
      have tail := declsOfStmt_agrees kept (fallback (decl env d).env (decl env d).node).2 ds
      have same := fallback_place kept (decl env d).env d
      simp only [fallback_env_decl] at tail ⊢
      exact ⟨by simp [Decl.erased_fallback, head.node, tail.1], by simp [placed, same, tail.2]⟩

theorem stmt_agrees (kept : ∀ s, Info.pos (f s).info = π s.info.pos) (env : Env) :
    ∀ s : Stmt, (stmt env s).1.erased = s.erased ∧
    (stmt (env.place π) (s.mapSlots f)).2 = (stmt env s).2.map (·.place π)
  | .assign i target value => by
    have first := expr_agrees kept env target
    have left := asVariable_agrees kept env first
    have right := expr_agrees kept env value
    have settledLeft := settled_agrees left
    have settledRight := settled_agrees right
    simp only [stmt, Stmt.mapSlots, pure, bind, kept, assignReports_place left right]
    exact ⟨by simp [settledLeft.1, settledRight.1],
      by simp [left.reports, right.reports, settledLeft.2, settledRight.2]⟩
  | .call i decl name as => by
    simp only [stmt, Stmt.mapSlots, pure, bind, kept, Arg.length_mapSlots, Env.lookup?_place]
    cases env.terms.lookup? name with
    | none => exact ⟨rfl, rfl⟩
    | some m =>
      simp only [Option.map_some, procedureRule_place]
      cases procedureRule i.pos name m with
      | error d => exact ⟨rfl, rfl⟩
      | ok wants =>
        have inner := args_agrees kept env name 1 wants as
        simp only [placed, id]
        split
        · exact ⟨rfl, rfl⟩
        · simp only [inner.result, inner.reports]
          cases (args env name 1 wants as).result with
          | ok => exact ⟨by simp [inner.node], rfl⟩
          | error d => exact ⟨by simp [inner.node], by simp [placed]⟩
  | .seq i ss => by
    have inner := stmts_agrees kept env ss
    simp [stmt, Stmt.mapSlots, pure, bind, inner]
  | .letIn i ds body => by
    have first := declsOfStmt_agrees kept env.enterBlock ds
    have second := stmt_agrees kept (declsOfStmt env.enterBlock ds).2.1 body
    simp only [stmt, Stmt.mapSlots, pure, bind, Env.enterBlock_place, first.2]
    exact ⟨by simp [first.1, second.1], by simp [second.2]⟩
  | .ifThen i test yes | .whileDo i test yes => by
    have first := conditionReports_agrees kept (expr_agrees kept env test)
    have second := stmt_agrees kept env yes
    simp [stmt, Stmt.mapSlots, pure, bind, first, second]
  | .ifElse i test yes no => by
    have first := conditionReports_agrees kept (expr_agrees kept env test)
    have second := stmt_agrees kept env yes
    have third := stmt_agrees kept env no
    simp [stmt, Stmt.mapSlots, pure, bind, first, second, third]
  | .repeatUntil i body test | .repeatWhile i body test => by
    have first := stmt_agrees kept env body
    have second := conditionReports_agrees kept (expr_agrees kept env test)
    simp [stmt, Stmt.mapSlots, pure, bind, first, second]
  | .loopWhile i pre test post => by
    have first := stmt_agrees kept env pre
    have second := conditionReports_agrees kept (expr_agrees kept env test)
    have third := stmt_agrees kept env post
    simp [stmt, Stmt.mapSlots, pure, bind, first, second, third]
  | .forever i body => by
    have inner := stmt_agrees kept env body
    simp [stmt, Stmt.mapSlots, pure, bind, inner]
  | .skip i => ⟨rfl, rfl⟩

theorem stmts_agrees (kept : ∀ s, Info.pos (f s).info = π s.info.pos) (env : Env) : ∀ ss : List Stmt,
    Stmt.erasedList (stmts env ss).1 = Stmt.erasedList ss ∧
      (stmts (env.place π) (Stmt.mapListSlots f ss)).2 = (stmts env ss).2.map (·.place π)
  | [] => ⟨rfl, rfl⟩
  | s :: ss => by
    have head := stmt_agrees kept env s
    have tail := stmts_agrees kept env ss
    simp only [stmts, Stmt.mapListSlots, pure, bind]
    exact ⟨by simp [head.1, tail.1], by simp [head.2, tail.2]⟩
end

end

end Check

/-- Checking leaves a program as it was in everything but its slots. -/
theorem Program.erased_check (p : Program) : p.check.1.erased = p.erased :=
  congrArg Program.mk ((Check.stmt_agrees Slots.pos_emptied .standard p.body).1)

theorem Program.bare_check (p : Program) : p.check.1.bare = p.bare := by
  have body : p.check.1.body.erased = p.body.erased := (Check.stmt_agrees Slots.pos_emptied .standard p.body).1
  rw [bare, bare, ← bare_erased.stmt, body, bare_erased.stmt]

end Triangle
