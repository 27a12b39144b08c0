import Mathlib
import Triangle.Generate.Environment
import Triangle.Proofs.Scope

/-! What a name is found to be in the standard environments of the checker and the generator. -/
namespace Triangle

/-! ## The checker -/

theorem terms_standard (x : String) :
    Check.Env.standard.terms.find? x =
      (Check.standardTerms.lookup x).map fun m => (⟨m, true⟩, 0) := by
  have distinct : (Check.standardTerms.map Prod.fst).Nodup := by decide
  have filled := Scope.Table.find?_foldl_addConst id Check.standardTerms (.new 0) x
  rw [Scope.lookup_reverse distinct] at filled
  refine (show Check.Env.standard.terms.find? x = _ from filled).trans ?_
  cases Check.standardTerms.lookup x <;> rfl

theorem lookup_standard (x : String) :
    Check.Env.standard.terms.lookup? x = Check.standardTerms.lookup x := by
  rw [Scope.Table.lookup?, terms_standard]
  cases Check.standardTerms.lookup x <;> rfl

/-- A standard name with a type is a constant or a routine. -/
theorem standardTerms_typed {x : String} {t : Ty} {b : Binding}
    (found : Check.standardTerms.lookup x = some (.typed t b)) :
    b.isStandard = true ∧ ((x, t) ∈ Check.standardConstants ∨
      ∃ name ps r, t = .func ps r ∧ (x, name, ps, r) ∈ Check.standardRoutines) := by
  have member := Scope.mem_of_lookup found
  simp only [Check.standardTerms, List.mem_append, List.mem_map] at member
  rcases member with (⟨⟨name, u⟩, constant, same⟩ | ⟨⟨key, name, ps, r⟩, routine, same⟩) |
    ⟨op, -, same⟩
  · cases same
    exact ⟨rfl, .inl constant⟩
  · cases same
    exact ⟨rfl, .inr ⟨name, ps, r, rfl, routine⟩⟩
  · cases same

/-! ## The generator -/

theorem known_standard (x : String) :
    Generate.Env.standard.locals.lookupWithDepth? x =
      (Generate.knownValues.lookup x).map fun v => (.known v, 0) := by
  have distinct : (Generate.knownValues.map Prod.fst).Nodup := by decide
  have filled := Scope.Table.find?_foldl_addConst Generate.Entity.known Generate.knownValues (.new 0) x
  rw [Scope.lookup_reverse distinct] at filled
  rw [Scope.Table.lookupWithDepth?, show Generate.Env.standard.locals.find? x = _ from filled]
  cases Generate.knownValues.lookup x <;> rfl

/-- What the standard routines are in the code. -/
def standardCallables : List (String × Generate.Callable) :=
  Generate.primitives.map (fun (key, p) => (key, .primitive p)) ++
    Generate.conversions.map fun key => (key, .conversion)

theorem callables_standard (x : String) :
    Generate.Env.standard.callables.lookupWithDepth? x =
      (standardCallables.lookup x).map fun c => (c, 0) := by
  have filled : Generate.Env.standard.callables =
      standardCallables.foldl (fun t (key, c) => t.addConst key (id c)) (.new 0) := by
    simp only [standardCallables, List.foldl_append, List.foldl_map]
    rfl
  have distinct : (standardCallables.map Prod.fst).Nodup := by decide
  rw [filled, Scope.Table.lookupWithDepth?, Scope.Table.find?_foldl_addConst,
    Scope.lookup_reverse distinct]
  cases standardCallables.lookup x <;> rfl

end Triangle
