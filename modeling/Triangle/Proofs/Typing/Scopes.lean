import Mathlib
import Triangle.Proofs.Typing.Stable

/-! What declarations and parameters bring into scope, and what stays of the standard environment. -/
namespace Triangle.Check
open List

variable {env : Env}

/-! ## Entries -/

theorem bound?_declare (env : Env) (d : Decl) (x : String) :
    (env.declare d).terms.bound? x = if d.kind ≠ .type ∧ x = d.name then
      some ⟨.typed (d.info.ty.getD .void) d.binding, decide (d.kind ≠ .var)⟩
    else env.terms.bound? x := by
  cases d <;> simp [Env.declare, Env.addConst, Env.addVar, Env.addType, Scope.Table.addConst,
    Scope.Table.add, Decl.kind, Decl.name, Decl.info]

/-- A declaration whose slot, name and place are those of another brings the same into scope. -/
theorem declare_congr {d d' : Decl} (binding : d'.binding = d.binding)
    (ty : d'.info.ty = d.info.ty) (env : Env) : env.declare d' = env.declare d := by
  simp only [Decl.binding, Binding.declared.injEq] at binding
  obtain ⟨kind, name, pos⟩ := binding
  cases d <;> cases d' <;> simp_all [Env.declare, Decl.kind, Decl.name, Decl.info, Decl.binding]

theorem bound?_declareAll_of_not_mem {ds : List Decl} {x : String}
    (other : x ∉ ds.map Decl.name) : (env.declareAll ds).terms.bound? x = env.terms.bound? x := by
  induction ds generalizing env with
  | nil => rfl
  | cons d ds ih =>
    rw [map_cons, mem_cons, not_or] at other
    show ((env.declare d).declareAll ds).terms.bound? x = _
    rw [ih other.2, bound?_declare, if_neg (fun both => other.1 both.2)]

/-- Constants of different names are all in scope after their declarations. -/
theorem bound?_declareAll_const {ds : List Decl} (distinct : (ds.map Decl.name).Nodup)
    (consts : ∀ d ∈ ds, d.kind = .const) {d : Decl} (member : d ∈ ds) :
    (env.declareAll ds).terms.bound? d.name =
      some ⟨.typed (d.info.ty.getD .void) d.binding, true⟩ := by
  induction ds generalizing env with
  | nil => cases member
  | cons first ds ih =>
    rw [map_cons, nodup_cons] at distinct
    rw [forall_mem_cons] at consts
    show ((env.declare first).declareAll ds).terms.bound? d.name = _
    rcases mem_cons.mp member with rfl | later
    · rw [bound?_declareAll_of_not_mem distinct.1, bound?_declare, if_pos ⟨by simp [consts.1], rfl⟩]
      simp [consts.1]
    · exact ih distinct.2 consts.2 later

theorem declaredHere_declareAll {ds : List Decl} {x : String} (other : x ∉ ds.map Decl.name) :
    (env.declareAll ds).terms.declaredHere x = env.terms.declaredHere x := by
  induction ds generalizing env with
  | nil => rfl
  | cons d ds ih =>
    rw [map_cons, mem_cons, not_or] at other
    show ((env.declare d).declareAll ds).terms.declaredHere x = _
    cases d <;> simp_all [Env.declare, Env.addConst, Env.addVar, Env.addType, Scope.Table.addConst,
      Scope.Table.add, Decl.name]

/-- Parameters of the same kinds, names and places bring the same into scope. -/
theorem bindParams_congr {params params' : List Param}
    (same : List.Forall₂ (fun p p' => p'.binding = p.binding) params params') (types : List Ty)
    (env : Env) : env.bindParams params' types = env.bindParams params types := by
  induction same generalizing env types with
  | nil => rfl
  | @cons p p' ps ps' first _ ih =>
    cases types with
    | nil => rfl
    | cons t ts =>
      have kept := first
      simp only [Param.binding, Binding.declared.injEq] at first
      obtain ⟨kind, name, -⟩ := first
      cases p <;> cases p' <;> simp_all [Env.bindParams, Param.kind]

/-- A name is bound as before, or to a parameter, which is constant unless it is a variable. -/
theorem bound?_bindParams (env : Env) (params : List Param) (types : List Ty) (x : String) :
    (env.bindParams params types).terms.bound? x = env.terms.bound? x ∨
      ∃ p ∈ params, x = p.name ∧ ∃ t, (env.bindParams params types).terms.bound? x =
        some ⟨.typed t p.binding, decide (p.kind ≠ .varParam)⟩ := by
  induction params generalizing env types with
  | nil => exact .inl rfl
  | cons p ps ih =>
    cases types with
    | nil => exact .inl rfl
    | cons t ts =>
      obtain ⟨next, step, shape⟩ : ∃ next : Env,
          env.bindParams (p :: ps) (t :: ts) = next.bindParams ps ts ∧
          next.terms = env.terms.insert p.name ⟨.typed t p.binding, decide (p.kind ≠ .varParam)⟩ := by
        cases p <;> exact ⟨_, rfl, rfl⟩
      rw [step]
      rcases ih next ts with same | ⟨q, member, named, found⟩
      · rw [same, shape, Scope.Table.bound?_insert]
        split
        · rename_i here
          exact .inr ⟨p, mem_cons_self, here, t, rfl⟩
        · exact .inl rfl
      · exact .inr ⟨q, mem_cons_of_mem _ member, named, found⟩

theorem bound?_bindParams_of_not_mem {params : List Param} {x : String}
    (other : x ∉ params.map Param.name) (types : List Ty) :
    (env.bindParams params types).terms.bound? x = env.terms.bound? x := by
  rcases bound?_bindParams env params types x with same | ⟨p, member, named, _⟩
  · exact same
  · exact absurd (mem_map.mpr ⟨p, member, named.symm⟩) other

/-! ## Standard names -/

/-- What is bound to something standard is standard. -/
def Env.Genuine (env : Env) : Prop :=
  ∀ x e, env.terms.bound? x = some e → e.value.decl.isStandard = true →
    standardTerms.lookup x = some e.value

namespace Env.Genuine

theorem standard : Env.standard.Genuine := by
  intro x e found _
  rw [Scope.Table.bound?, terms_standard] at found
  cases known : standardTerms.lookup x with
  | none => simp [known] at found
  | some m =>
    obtain rfl : ⟨m, true⟩ = e := by simpa [known] using found
    rfl

theorem lookup (genuine : env.Genuine) {x : String} {m : Meaning}
    (found : env.terms.lookup? x = some m) (isStandard : m.decl.isStandard = true) :
    standardTerms.lookup x = some m := by
  rw [Scope.Table.lookup?_eq_bound?] at found
  obtain ⟨e, known, rfl⟩ := Option.map_eq_some_iff.mp found
  exact genuine x e known isStandard

theorem enterBlock (genuine : env.Genuine) : env.enterBlock.Genuine :=
  fun x e found => genuine x e (by simpa [Env.enterBlock] using found)

theorem enterRoutine (genuine : env.Genuine) : env.enterRoutine.Genuine :=
  fun x e found => genuine x e (by simpa [Env.enterRoutine] using found)

theorem declare (genuine : env.Genuine) (d : Decl) : (env.declare d).Genuine := by
  intro x e found isStandard
  rw [bound?_declare] at found
  split at found
  · cases found
    cases isStandard
  · exact genuine x e found isStandard

theorem bindParams (genuine : env.Genuine) (params : List Param) (types : List Ty) :
    (env.bindParams params types).Genuine := by
  intro x e found isStandard
  rcases bound?_bindParams env params types x with same | ⟨_, _, _, _, known⟩
  · exact genuine x e (same.symm.trans found) isStandard
  · cases known.symm.trans found
    cases isStandard

end Env.Genuine

end Triangle.Check
