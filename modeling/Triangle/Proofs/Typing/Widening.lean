import Mathlib
import Triangle.Proofs.Typing.Stable

/-! What is accepted in an environment is accepted alike where more constants are in scope. -/
namespace Triangle.Check
open Checked

/-! ## Wider environments -/

/-- The second environment holds what the first does, and constants besides. A constant is no
routine, and is not under the key of a prefix operator. -/
structure Env.Widens (env env' : Env) : Prop where
  terms : ∀ x, env'.terms.bound? x = env.terms.bound? x ∨ env.terms.bound? x = none ∧
    (∀ op, x ≠ unaryKey op) ∧ ∃ t b c, env'.terms.bound? x = some ⟨.typed t b, c⟩ ∧ t.isFunc = false
  types : ∀ x, env'.types.lookup? x = env.types.lookup? x

/-- The innermost scopes declare the same names. -/
structure Env.SameTop (env env' : Env) : Prop where
  terms : ∀ x, env'.terms.declaredHere x = env.terms.declaredHere x
  types : ∀ x, env'.types.declaredHere x = env.types.declaredHere x

theorem Env.SameTop.enterBlock (env env' : Env) : Env.SameTop env.enterBlock env'.enterBlock where
  terms x := by simp [Env.enterBlock]
  types x := by simp [Env.enterBlock]

theorem Env.SameTop.declare {env env' : Env} (top : env.SameTop env') (d : Decl) :
    (env.declare d).SameTop (env'.declare d) := by
  have terms := top.terms
  have types := top.types
  cases d <;> exact ⟨by simpa [Env.declare, Env.addConst, Env.addVar, Env.addType,
    Scope.Table.addConst, Scope.Table.add] using fun x => by simp [terms x],
    by simpa [Env.declare, Env.addConst, Env.addVar, Env.addType, Scope.Table.addConst,
      Scope.Table.add] using fun x => by simp [types x]⟩

namespace Env.Widens

variable {env env' : Env}

theorem refl (env : Env) : env.Widens env where
  terms _ := .inl rfl
  types _ := rfl

/-- A name that is bound stays bound to the same. -/
theorem entry (wide : env.Widens env') {x : String} {e : Scope.Entry Meaning}
    (found : env.terms.bound? x = some e) : env'.terms.bound? x = some e := by
  rcases wide.terms x with same | ⟨missing, _⟩
  · exact same.trans found
  · cases missing.symm.trans found

theorem lookup (wide : env.Widens env') {x : String} {m : Meaning}
    (found : env.terms.lookup? x = some m) : env'.terms.lookup? x = some m := by
  rw [Scope.Table.lookup?_eq_bound?] at found ⊢
  obtain ⟨e, known, rfl⟩ := Option.map_eq_some_iff.mp found
  rw [wide.entry known]
  rfl

theorem isConst (wide : env.Widens env') {x : String} {m : Meaning}
    (found : env.terms.lookup? x = some m) : env'.terms.isConst x = env.terms.isConst x := by
  rw [Scope.Table.lookup?_eq_bound?] at found
  obtain ⟨e, known, -⟩ := Option.map_eq_some_iff.mp found
  rw [Scope.Table.isConst_eq_bound?, Scope.Table.isConst_eq_bound?, wide.entry known, known]

theorem lookup_none_or (wide : env.Widens env') (x : String) :
    env'.terms.lookup? x = env.terms.lookup? x ∨ env.terms.lookup? x = none ∧
      (∀ op, x ≠ unaryKey op) ∧ ∃ t b, env'.terms.lookup? x = some (.typed t b) ∧
        t.isFunc = false := by
  simp only [Scope.Table.lookup?_eq_bound?]
  rcases wide.terms x with same | ⟨missing, noKey, t, b, c, found, plain⟩
  · exact .inl (by rw [same])
  · exact .inr ⟨by rw [missing]; rfl, noKey, t, b, by rw [found]; rfl, plain⟩

theorem unary (wide : env.Widens env') {op : String} {m : Meaning}
    (found : env.unary? op = some m) : env'.unary? op = some m := by
  have key : env'.terms.lookup? (unaryKey op) = env.terms.lookup? (unaryKey op) := by
    rcases wide.lookup_none_or (unaryKey op) with same | ⟨_, noKey, _⟩
    · exact same
    · exact absurd rfl (noKey op)
  rcases wide.lookup_none_or op with same | ⟨missing, _, t, b, known, plain⟩
  · simpa only [Env.unary?, key, same] using found
  · have noRoutine : ∀ params result, t ≠ .func params result := by
      rintro params result rfl
      simp [Ty.isFunc, Ty.deref] at plain
    simp only [Env.unary?, missing] at found
    simp only [Env.unary?, key, known]
    split
    · rename_i own isOwn
      split at isOwn
      · rename_i p result decl same
        cases same
        exact absurd rfl (noRoutine [p] result)
      · cases isOwn
    · split at found
      · exact found
      · cases found

theorem block (env : Env) : env.Widens env.enterBlock where
  terms x := by simp [Env.enterBlock]
  types x := by simp [Env.enterBlock]

theorem enterBlock (wide : env.Widens env') : env.enterBlock.Widens env'.enterBlock where
  terms x := by simpa [Env.enterBlock] using wide.terms x
  types x := by simpa [Env.enterBlock] using wide.types x

theorem enterRoutine (wide : env.Widens env') : env.enterRoutine.Widens env'.enterRoutine where
  terms x := by simpa [Env.enterRoutine] using wide.terms x
  types := wide.types

theorem addConst (wide : env.Widens env') (name : String) (m : Meaning) :
    (env.addConst name m).Widens (env'.addConst name m) where
  terms x := by
    simp only [Env.addConst, Scope.Table.addConst, Scope.Table.bound?_insert]
    split
    · exact .inl rfl
    · exact wide.terms x
  types := wide.types

theorem addVar (wide : env.Widens env') (name : String) (m : Meaning) :
    (env.addVar name m).Widens (env'.addVar name m) where
  terms x := by
    simp only [Env.addVar, Scope.Table.add, Scope.Table.bound?_insert]
    split
    · exact .inl rfl
    · exact wide.terms x
  types := wide.types

theorem addType (wide : env.Widens env') (name : String) (t : Ty) :
    (env.addType name t).Widens (env'.addType name t) where
  terms := wide.terms
  types x := by
    simp only [Env.addType, Scope.Table.addConst, Scope.Table.lookup?_insert]
    split
    · rfl
    · exact wide.types x

theorem declare (wide : env.Widens env') (d : Decl) : (env.declare d).Widens (env'.declare d) := by
  cases d with
  | const | func | proc => exact wide.addConst _ _
  | var => exact wide.addVar _ _
  | type => exact wide.addType _ _

theorem declareAll (wide : env.Widens env') (ds : List Decl) :
    (env.declareAll ds).Widens (env'.declareAll ds) := by
  induction ds generalizing env env' with
  | nil => exact wide
  | cons d ds ih => exact ih (wide.declare d)

theorem bindParams (wide : env.Widens env') (params : List Param) (types : List Ty) :
    (env.bindParams params types).Widens (env'.bindParams params types) := by
  induction params generalizing env env' types with
  | nil => exact wide
  | cons p ps ih =>
    cases types with
    | nil => exact wide
    | cons t ts =>
      cases p with
      | value | func => exact ih (wide.addConst _ _) ts
      | var => exact ih (wide.addVar _ _) ts

end Env.Widens

/-! ## Trees in wider environments -/

/-- The root of an accepted variable is bound. -/
theorem root_bound {env : Env} {e e' : Expr} {t : Ty} {root : String}
    (accepted : expr env e = ⟨e', .ok t, []⟩) (same : e.root? = some root) :
    ∃ m, env.terms.lookup? root = some m := by
  cases e with
  | ident i decl name =>
    obtain ⟨_, b, found, _⟩ := expr_ident.mp accepted
    cases same
    exact ⟨_, found⟩
  | subscript i array index =>
    obtain ⟨_, _, _, _, _, _, _, first, _⟩ := expr_subscript.mp accepted
    exact root_bound first same
  | select i record field =>
    obtain ⟨_, _, _, _, _, _, first, _⟩ := expr_select.mp accepted
    exact root_bound first same
  | _ =>
    cases same

variable {env env' : Env}

mutual
theorem sig_widens (types : ∀ x, env'.types.lookup? x = env.types.lookup? x) {s s' : Sig} {t : Ty}
    (accepted : sig env s = ⟨s', .ok t, []⟩) : sig env' s = ⟨s', .ok t, []⟩ := by
  cases s with
  | named i name =>
    obtain ⟨found, rfl⟩ := sig_named.mp accepted
    exact sig_named.mpr ⟨(types name).trans found, rfl⟩
  | array i length elem =>
    obtain ⟨positive, small, elem', u, inner, rest⟩ := sig_array.mp accepted
    exact sig_array.mpr ⟨positive, small, elem', u, sig_widens types inner, rest⟩
  | record i fields =>
    obtain ⟨fields', ts, inner, rest⟩ := sig_record.mp accepted
    exact sig_record.mpr ⟨fields', ts, sigFields_widens types inner, rest⟩

theorem sigFields_widens (types : ∀ x, env'.types.lookup? x = env.types.lookup? x) {pos : Pos} :
    ∀ {fields fields' : List (String × Sig)} {ts : List (String × Ty)} {seen : List String},
      sigFields env pos seen fields = ⟨fields', .ok ts, []⟩ →
        sigFields env' pos seen fields = ⟨fields', .ok ts, []⟩
  | [], fields', ts, seen, accepted => accepted
  | (name, s) :: fields, fields', ts, seen, accepted => by
    obtain ⟨fresh, first, t, others, us, head, tail, rest⟩ := sigFields_cons.mp accepted
    exact sigFields_cons.mpr ⟨fresh, first, t, others, us, sig_widens types head,
      sigFields_widens types tail, rest⟩
end

theorem resultSig_widens (types : ∀ x, env'.types.lookup? x = env.types.lookup? x)
    {result result' : Option Sig} (accepted : resultSig env result = ⟨result', .ok t, []⟩) :
    resultSig env' result = ⟨result', .ok t, []⟩ := by
  cases result with
  | none => exact accepted
  | some s =>
    obtain ⟨first, inner, rest⟩ := resultSig_some.mp accepted
    exact resultSig_some.mpr ⟨first, sig_widens types inner, rest⟩

mutual
theorem param_widens (types : ∀ x, env'.types.lookup? x = env.types.lookup? x) {p p' : Param}
    {t : Ty} (accepted : param env p = ⟨p', .ok t, []⟩) : param env' p = ⟨p', .ok t, []⟩ := by
  cases p with
  | value i name s =>
    obtain ⟨s', inner, rest⟩ := param_value.mp accepted
    exact param_value.mpr ⟨s', sig_widens types inner, rest⟩
  | var i name s =>
    obtain ⟨s', u, inner, rest⟩ := param_var.mp accepted
    exact param_var.mpr ⟨s', u, sig_widens types inner, rest⟩
  | func i name ps result =>
    obtain ⟨ps', ts, result', u, formals, returned, rest⟩ := param_func.mp accepted
    exact param_func.mpr ⟨ps', ts, result', u, params_widens types formals,
      resultSig_widens types returned, rest⟩

theorem params_widens (types : ∀ x, env'.types.lookup? x = env.types.lookup? x)
    {ps ps' : List Param} {ts : List Ty} {seen : List String}
    (accepted : params env seen ps = ⟨ps', .ok ts, []⟩) :
    params env' seen ps = ⟨ps', .ok ts, []⟩ := by
  cases ps with
  | nil => exact accepted
  | cons p ps =>
    obtain ⟨fresh, first, t, others, us, head, tail, rest⟩ := params_cons.mp accepted
    exact params_cons.mpr ⟨fresh, first, t, others, us, param_widens types head,
      params_widens types tail, rest⟩
end

end Triangle.Check
