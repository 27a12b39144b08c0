import Mathlib

/-! Computations with a state that may fail, one after the other. -/
namespace Triangle.Result

variable {ε σ α β : Type} {x : EStateM ε σ α} {f : α → EStateM ε σ β} {s s' : σ} {a : α} {b : β}

/-! ## One step -/

@[simp] theorem get_bind {f : σ → EStateM ε σ β} : (get >>= f) s = f s s := rfl

@[simp] theorem map_get {g : σ → β} : (g <$> get : EStateM ε σ β) s = .ok (g s) s := rfl

@[simp] theorem set_apply : (set s' : EStateM ε σ PUnit) s = .ok ⟨⟩ s' := rfl

@[simp] theorem set_bind {f : PUnit → EStateM ε σ β} : (set s' >>= f) s = f ⟨⟩ s' := rfl

@[simp] theorem map_set {g : PUnit → β} : (g <$> set s' : EStateM ε σ β) s = .ok (g ⟨⟩) s' := rfl

@[simp] theorem modify_apply {g : σ → σ} : (modify g : EStateM ε σ PUnit) s = .ok ⟨⟩ (g s) := rfl

@[simp] theorem modify_bind {g : σ → σ} {f : PUnit → EStateM ε σ β} :
    (modify g >>= f) s = f ⟨⟩ (g s) := rfl

@[simp] theorem pure_apply : (pure a : EStateM ε σ α) s = .ok a s := rfl

@[simp] theorem throw_apply {e : ε} : (throw e : EStateM ε σ α) s = .error e s := rfl

@[simp] theorem throw_bind {e : ε} : ((throw e : EStateM ε σ α) >>= f) s = .error e s := rfl

/-! ## One after the other -/

theorem bind_ok (first : x s = .ok a s') : (x >>= f) s = f a s' := by
  simp [bind, EStateM.bind, first]

theorem bind_error {e : ε} (first : x s = .error e s') : (x >>= f) s = .error e s' := by
  simp [bind, EStateM.bind, first]

/-- What succeeds has succeeded in both parts. -/
theorem of_bind (done : (x >>= f) s = .ok b s') :
    ∃ a middle, x s = .ok a middle ∧ f a middle = .ok b s' := by
  cases first : x s with
  | ok a middle => exact ⟨a, middle, rfl, by rwa [bind_ok first] at done⟩
  | error e middle =>
    rw [bind_error first] at done
    cases done

theorem of_pure {c : α} (done : (pure a : EStateM ε σ α) s = .ok c s') : c = a ∧ s' = s := by
  cases done
  exact ⟨rfl, rfl⟩

end Triangle.Result
