import Mathlib
import Triangle.Ty

/-! Sameness of types, and the words that values take when sizes do not wrap around. A type of
values is built from the scalar types by arrays of at least one element and by records. -/
namespace Triangle

theorem wrap64_eq {n : Int} (lower : -0x8000000000000000 ≤ n) (upper : n < 0x8000000000000000) :
    wrap64 n = n := by
  apply Int.bmod_eq_of_le_mul_two <;> omega

@[simp] theorem wrap64_wrap64 (n : Int) : wrap64 (wrap64 n) = wrap64 n := Int.bmod_bmod

@[simp] theorem wrap64_add_left (n k : Int) : wrap64 (wrap64 n + k) = wrap64 (n + k) :=
  Int.bmod_add_bmod

@[simp] theorem wrap64_add_right (n k : Int) : wrap64 (n + wrap64 k) = wrap64 (n + k) :=
  Int.add_bmod_bmod

@[simp] theorem wrap64_sub_right (n k : Int) : wrap64 (n - wrap64 k) = wrap64 (n - k) :=
  Int.sub_bmod_bmod

namespace Ty

/-! ## Sameness -/

mutual
theorem eq_of_identical : ∀ {t u : Ty}, t.identical u = true → t = u
  | .func ps r, .func qs s, same => by
    simp only [identical, Bool.and_eq_true] at same
    rw [eq_of_identicalAll same.1, eq_of_identical same.2]
  | .array n t, .array m u, same => by
    simp only [identical, Bool.and_eq_true, beq_iff_eq] at same
    rw [same.1, eq_of_identical same.2]
  | .record fs, .record gs, same => by
    simp only [identical] at same
    rw [eq_of_identicalFields same]
  | .ref t, .ref u, same => by
    simp only [identical] at same
    rw [eq_of_identical same]
  | .void, u, same => by cases u <;> simp_all [identical]
  | .boolean, u, same => by cases u <;> simp_all [identical]
  | .integer, u, same => by cases u <;> simp_all [identical]
  | .char, u, same => by cases u <;> simp_all [identical]

theorem eq_of_identicalAll : ∀ {ts us : List Ty}, identicalAll ts us = true → ts = us
  | [], [], _ => rfl
  | t :: ts, u :: us, same => by
    simp only [identicalAll, Bool.and_eq_true] at same
    rw [eq_of_identical same.1, eq_of_identicalAll same.2]

theorem eq_of_identicalFields : ∀ {fs gs : List (String × Ty)},
    identicalFields fs gs = true → fs = gs
  | [], [], _ => rfl
  | (n, t) :: fs, (m, u) :: gs, same => by
    simp only [identicalFields, Bool.and_eq_true, beq_iff_eq] at same
    rw [same.1.1, eq_of_identical same.1.2, eq_of_identicalFields same.2]
end

mutual
theorem identical_self : ∀ t : Ty, t.identical t = true
  | .void | .boolean | .integer | .char => rfl
  | .func ps r => by simp [identical, identicalAll_self ps, identical_self r]
  | .array n t => by simp [identical, identical_self t]
  | .record fs => by simp [identical, identicalFields_self fs]
  | .ref t => by simp [identical, identical_self t]

theorem identicalAll_self : ∀ ts : List Ty, identicalAll ts ts = true
  | [] => rfl
  | t :: ts => by simp [identicalAll, identical_self t, identicalAll_self ts]

theorem identicalFields_self : ∀ fs : List (String × Ty), identicalFields fs fs = true
  | [] => rfl
  | (n, t) :: fs => by simp [identicalFields, identical_self t, identicalFields_self fs]
end

@[simp] theorem identical_iff {t u : Ty} : t.identical u = true ↔ t = u :=
  ⟨eq_of_identical, fun same => same ▸ identical_self t⟩

@[simp] theorem equal_iff {t u : Ty} : t.equal u = true ↔ t.deref = u.deref := identical_iff

/-! ## Sizes -/

mutual
/-- Words that a value takes, without a bound. -/
def trueSize : Ty → Nat
  | void => 0
  | boolean | integer | char | ref _ => 1
  | func _ _ => 2
  | array length elem => length.toNat * elem.trueSize
  | record fields => trueFieldsSize fields

def trueFieldsSize : List (String × Ty) → Nat
  | [] => 0
  | (_, t) :: rest => t.trueSize + trueFieldsSize rest
end

mutual
/-- A type of the values that expressions have and variables hold. -/
def IsValue : Ty → Prop
  | boolean | integer | char => True
  | array length elem => 1 ≤ length ∧ elem.IsValue
  | record fields => FieldsAreValues fields
  | void | func _ _ | ref _ => False

def FieldsAreValues : List (String × Ty) → Prop
  | [] => True
  | (_, t) :: rest => t.IsValue ∧ FieldsAreValues rest
end

mutual
/-- Arrays are not empty, at any depth. -/
def Measured : Ty → Prop
  | void | boolean | integer | char => True
  | func _ result => result.Measured
  | array length elem => 1 ≤ length ∧ elem.Measured
  | record fields => FieldsMeasured fields
  | ref inner => inner.Measured

def FieldsMeasured : List (String × Ty) → Prop
  | [] => True
  | (_, t) :: rest => t.Measured ∧ FieldsMeasured rest
end

theorem fieldsMeasured_iff {fields : List (String × Ty)} :
    FieldsMeasured fields ↔ ∀ f ∈ fields, f.2.Measured := by
  induction fields with
  | nil => simp [FieldsMeasured]
  | cons f fields ih => simp [FieldsMeasured, ih]

mutual
theorem IsValue.measured : ∀ {t : Ty}, t.IsValue → t.Measured
  | .boolean, _ | .integer, _ | .char, _ => trivial
  | .array _ elem, value => by
    exact ⟨value.1, value.2.measured⟩
  | .record fields, values => fieldsMeasured (by simpa only [IsValue] using values)

theorem fieldsMeasured : ∀ {fields : List (String × Ty)}, FieldsAreValues fields →
    FieldsMeasured fields
  | [], _ => trivial
  | (_, t) :: rest, values => by
    exact ⟨values.1.measured, fieldsMeasured values.2⟩
end

theorem IsValue.deref {t : Ty} (value : t.IsValue) : t.deref = t := by
  cases t with
  | ref inner => simp [IsValue] at value
  | _ => rfl

/-- An element is no larger than its array. -/
theorem trueSize_elem_le {length : Int} {elem : Ty} (nonempty : 1 ≤ length) :
    elem.trueSize ≤ (array length elem).trueSize := by
  have : 1 ≤ length.toNat := by omega
  simpa [trueSize] using Nat.mul_le_mul_right elem.trueSize this

mutual
/-- Where the words fit into a word they are counted without wrapping around. -/
theorem Measured.size_eq : ∀ {t : Ty}, t.Measured → t.trueSize < 0x8000 → t.size = t.trueSize
  | .void, _, _ | .boolean, _, _ | .integer, _, _ | .char, _, _ | .ref _, _, _ | .func _ _, _, _ => rfl
  | .array length elem, measured, bound => by
    simp only [Measured] at measured
    have inner := measured.2.size_eq ((trueSize_elem_le measured.1).trans_lt bound)
    have exact : (length * elem.trueSize : Int) = (array length elem).trueSize := by
      simp [trueSize, Int.toNat_of_nonneg (by omega : 0 ≤ length)]
    rw [size, inner, exact]
    exact wrap64_eq (by omega) (by omega)
  | .record fields, measured, bound => by
    simp only [trueSize] at bound
    simpa [size, trueSize] using @FieldsMeasured.size_eq _ 0 measured (by omega)

theorem FieldsMeasured.size_eq : ∀ {fields : List (String × Ty)} {total : Nat},
    FieldsMeasured fields → total + trueFieldsSize fields < 0x8000 →
      fieldsSize total fields = (total + trueFieldsSize fields : Nat)
  | [], total, _, _ => by simp [fieldsSize, trueFieldsSize]
  | (_, t) :: rest, total, measured, bound => by
    simp only [trueFieldsSize] at bound
    have first := measured.1.size_eq (by omega)
    have whole : wrap64 (total + t.trueSize : Int) = (total + t.trueSize : Nat) := by
      rw [wrap64_eq] <;> omega
    rw [fieldsSize, first, whole, measured.2.size_eq (by omega), trueFieldsSize, Nat.add_assoc]
end

theorem size_eq {t : Ty} (value : t.IsValue) (bound : t.trueSize < 0x8000) :
    t.size = t.trueSize :=
  value.measured.size_eq bound

/-! ## Fields -/

/-- The type of the first field called `name` and its distance from the start of the record. -/
def fieldAt? (name : String) : List (String × Ty) → Option (Ty × Nat)
  | [] => none
  | (n, t) :: rest =>
    if n = name then some (t, 0) else (fieldAt? name rest).map fun (u, k) => (u, t.trueSize + k)

theorem fieldAt?_value {fields : List (String × Ty)} (values : FieldsAreValues fields)
    (found : fieldAt? name fields = some (t, k)) :
    t.IsValue ∧ k + t.trueSize ≤ trueFieldsSize fields := by
  induction fields generalizing k with
  | nil => simp [fieldAt?] at found
  | cons field rest ih =>
    obtain ⟨n, u⟩ := field
    simp only [fieldAt?] at found
    split at found
    · cases found
      exact ⟨values.1, by simp [trueFieldsSize]⟩
    · obtain ⟨⟨w, j⟩, inner, same⟩ := Option.map_eq_some_iff.mp found
      simp only [Prod.mk.injEq] at same
      obtain ⟨rfl, rfl⟩ := same
      obtain ⟨value, bound⟩ := ih values.2 inner
      exact ⟨value, by simp only [trueFieldsSize]; omega⟩

/-- Where the sizes fit, the offset of a field is its distance. -/
theorem field?_eq {fields : List (String × Ty)} {offset : Nat} (values : FieldsAreValues fields)
    (bound : offset + trueFieldsSize fields < 0x8000) :
    field? name offset fields = (fieldAt? name fields).map fun (t, k) => (t, (offset + k : Nat)) := by
  induction fields generalizing offset with
  | nil => rfl
  | cons field rest ih =>
    obtain ⟨n, u⟩ := field
    simp only [trueFieldsSize] at bound
    have next : wrap64 (offset + u.size) = (offset + u.trueSize : Nat) := by
      rw [size_eq values.1 (by omega), wrap64_eq] <;> omega
    simp only [field?, fieldAt?, next]
    split
    · simp
    · rw [ih values.2 (by omega)]
      cases fieldAt? name rest with
      | none => rfl
      | some found => simp [Nat.add_assoc]

end Ty
end Triangle
