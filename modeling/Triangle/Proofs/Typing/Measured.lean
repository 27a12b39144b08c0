import Mathlib
import Triangle.Proofs.Typing.Accepted
import Triangle.Tree.Nodes

/-! Types of a known size. Every array in the type of an expression has a positive length, so where
the words of a value are few enough to be counted, no count wraps around. -/
namespace Triangle.Ty

theorem Measured.deref {t : Ty} (measured : t.Measured) : t.deref.Measured := by
  cases t with
  | ref inner => exact (show inner.Measured by simpa only [Measured] using measured)
  | _ => exact measured

theorem Measured.refOf {t : Ty} (measured : t.Measured) : t.refOf.Measured := by
  cases t with
  | ref inner => exact measured
  | _ => exact measured

theorem Proper.measured {t : Ty} (proper : t.Proper) : t.Measured := by
  cases t with
  | func params result =>
    obtain ⟨-, rfl | value⟩ := proper
    · trivial
    · exact value.measured
  | ref inner =>
    have value : inner.IsValue := proper
    exact value.measured
  | void | boolean | integer | char => trivial
  | array length elem => exact IsValue.measured (by simpa only [Proper] using proper)
  | record fields => exact IsValue.measured (by simpa only [Proper] using proper)

theorem Measured.field? {fields : List (String × Ty)} {name : String} {offset k : Int} {t : Ty}
    (measured : FieldsMeasured fields) (found : Ty.field? name offset fields = some (t, k)) :
    t.Measured := by
  induction fields generalizing offset with
  | nil => simp [Ty.field?] at found
  | cons f rest ih =>
    obtain ⟨n, u⟩ := f
    simp only [Ty.field?] at found
    split at found
    · cases found
      exact measured.1
    · exact ih measured.2 found

end Triangle.Ty

namespace Triangle.Check

/-- Names stand for terms of measured types. -/
def Env.Measured (env : Env) : Prop :=
  ∀ x t b, env.terms.lookup? x = some (.typed t b) → t.Measured

namespace Env.Measured

variable {env : Env}

theorem enterBlock (measured : env.Measured) : env.enterBlock.Measured := by
  intro x t b found
  exact measured x t b (by simpa [Env.enterBlock] using found)

theorem enterRoutine (measured : env.Measured) : env.enterRoutine.Measured := by
  intro x t b found
  exact measured x t b (by simpa [Env.enterRoutine] using found)

theorem insert {t : Ty} {b : Binding} {name : String} {constant : Bool} (measured : env.Measured)
    (own : t.Measured) :
    Env.Measured { env with terms := env.terms.insert name ⟨.typed t b, constant⟩ } := by
  intro x u c found
  simp only [Scope.Table.lookup?_insert] at found
  split at found
  · cases found
    exact own
  · exact measured x u c found

theorem bindParams {params : List Param} {ts : List Ty} (measured : env.Measured)
    (formals : List.Forall₂ ParamTyped params ts) : (env.bindParams params ts).Measured := by
  induction formals generalizing env with
  | nil => exact measured
  | @cons p t ps ts typed _ ih =>
    have own : t.Measured := (ParamTyped.proper typed).measured
    cases p <;> exact ih (measured.insert own)

theorem initial : Env.Measured .standard := by
  intro x t b found
  rw [lookup_standard] at found
  obtain ⟨-, constant | ⟨name, ps, r, rfl, routine⟩⟩ := standardTerms_typed found
  · have table : ∀ row ∈ standardConstants, row.2.Measured := by
      simp [standardConstants, Ty.Measured]
    exact table _ constant
  · have table : ∀ row ∈ standardRoutines, (Ty.func row.2.2.1 row.2.2.2).Measured := by
      simp [standardRoutines, Ty.Measured]
    exact table _ routine

end Env.Measured

theorem propagate_measured {base elem : Ty} (measured : elem.Measured) :
    (propagate base elem).Measured := by
  unfold propagate
  split
  · exact measured.refOf
  · exact measured

theorem Meaning.result_measured {env : Env} {x : String} {m : Meaning} {params : List Ty} {t : Ty}
    (measured : env.Measured) (found : env.terms.lookup? x = some m)
    (signature : m.signature? = some (params, t)) : t.Measured := by
  cases m with
  | equality b => simp [signature?] at signature
  | typed u b =>
    have own := measured x u b found
    cases u with
    | func ps r =>
      simp only [signature?, Option.some.injEq, Prod.mk.injEq] at signature
      rw [← signature.2]
      simpa only [Ty.Measured] using own
    | _ => simp [signature?] at signature

mutual
theorem ExprTyped.measured (e : Expr) {env : Env} {t : Ty} (measured : env.Measured)
    (typed : ExprTyped env e t) : t.Measured := by
  cases e with
  | int =>
    simp [typed.2.1, Ty.Measured]
  | char | bool =>
    simp [typed.2, Ty.Measured]
  | ident =>
    obtain ⟨-, -, b, -, found⟩ := typed
    exact measured _ _ _ found
  | subscript i array index =>
    obtain ⟨-, -, base, length, elem, k, arrayTyped, shape, -, -, rfl⟩ := typed
    have own := (ExprTyped.measured array measured arrayTyped).deref
    rw [shape] at own
    exact propagate_measured own.2
  | select i record field =>
    obtain ⟨-, -, base, fields, inner, k, recordTyped, shape, found, rfl⟩ := typed
    have own := (ExprTyped.measured record measured recordTyped).deref
    rw [shape] at own
    exact propagate_measured (Ty.Measured.field? own found)
  | unary i decl op operand =>
    obtain ⟨-, m, want, got, found, -, signature, -, -⟩ := typed
    rcases Env.unary?_found found with known | known
    · exact Meaning.result_measured measured known signature
    · exact Meaning.result_measured measured known signature
  | binary i decl op left right =>
    obtain ⟨-, m, u, v, found, -, -, -, joins⟩ := typed
    cases m with
    | equality b =>
      obtain ⟨-, rfl⟩ := joins
      trivial
    | typed s b =>
      obtain ⟨p, q, rfl, -⟩ := joins
      exact Meaning.result_measured measured found rfl
  | call i decl name args =>
    obtain ⟨-, -, wants, b, -, found, -⟩ := typed
    exact Meaning.result_measured measured found rfl
  | cond i test yes no =>
    obtain ⟨-, u, v, w, -, -, yesTyped, -, -, rfl⟩ := typed
    exact (ExprTyped.measured yes measured yesTyped).deref
  | letIn i decls body =>
    obtain ⟨-, inner, u, declsTyped, bodyTyped, rfl⟩ := typed
    have known := DeclsTyped.measured decls measured.enterBlock declsTyped
    exact (ExprTyped.measured body known bodyTyped).deref
  | array i elems =>
    obtain ⟨-, elem, some, elemsTyped, rfl⟩ := typed
    cases elems with
    | nil => exact absurd rfl some
    | cons e es =>
      obtain ⟨⟨u, headTyped, rfl⟩, -⟩ := elemsTyped
      refine ⟨by simp, (ExprTyped.measured e measured headTyped).deref⟩
  | record i fields =>
    obtain ⟨-, -, types, fieldsTyped, rfl⟩ := typed
    have each := FieldsTyped.measured fields measured fieldsTyped
    simp only [Ty.ofFields, Ty.Measured, Ty.fieldsMeasured_iff, List.mem_mergeSort]
    exact each

theorem FieldsTyped.measured : ∀ (fields : List (String × Expr)) {env : Env}
    {types : List (String × Ty)}, env.Measured → FieldsTyped env fields types →
      ∀ f ∈ types, f.2.Measured
  | [], env, types, measured, typed => by
    simp only [FieldsTyped] at typed
    simp [typed]
  | (name, e) :: rest, env, types, measured, typed => by
    obtain ⟨t, others, headTyped, restTyped, rfl⟩ := typed
    rw [List.forall_mem_cons]
    exact ⟨(ExprTyped.measured e measured headTyped).deref,
      FieldsTyped.measured rest measured restTyped⟩

theorem DeclsTyped.measured (ds : List Decl) {env final : Env} (measured : env.Measured)
    (typed : DeclsTyped env ds final) : final.Measured := by
  cases ds with
  | nil =>
    rw [typed]
    exact measured
  | cons d ds =>
    obtain ⟨next, headTyped, restTyped⟩ := typed
    exact DeclsTyped.measured ds (DeclTyped.measured d measured headTyped) restTyped

theorem DeclTyped.measured (d : Decl) {env next : Env} (measured : env.Measured)
    (typed : DeclTyped env d next) : next.Measured := by
  cases d with
  | const i name value =>
    obtain ⟨t, valueTyped, -, -, rfl⟩ := typed
    exact measured.insert (ExprTyped.measured value measured valueTyped).deref
  | var i name sig =>
    obtain ⟨t, value, -, rfl⟩ := typed
    exact measured.insert value.measured
  | func i name params sig body =>
    obtain ⟨ts, result, t, -, -, value, rfl, -, -⟩ := typed
    exact measured.insert (by simpa only [Ty.Measured] using value.measured)
  | proc i name params body =>
    obtain ⟨ts, -, -, rfl, -⟩ := typed
    exact measured.insert (by simp [Ty.Measured])
  | type i name sig =>
    obtain ⟨t, rfl⟩ := typed
    exact measured
end

end Triangle.Check
