import Mathlib
import Triangle.Proofs.StandardNames
import Triangle.Proofs.Typing.Basic

/-! Accepted signatures and parameters have types as the rules want them. -/
namespace Triangle.Check
open Checked

/-! ## Results without mistakes -/

namespace Checked

variable {α β γ δ : Type}

@[simp] theorem pass_ok {node node' : α} {b b' : β} :
    pass node b = ⟨node', .ok b', []⟩ ↔ node' = node ∧ b' = b := by
  simp only [pass, mk.injEq, Except.ok.injEq, and_true, eq_comm]

@[simp] theorem fail_ok {node node' : α} {d : Diagnostic} {b : β} :
    fail node d = ⟨node', .ok b, []⟩ ↔ False := by
  simp [fail]

@[simp] theorem andThen_ok {c : Checked α β} {rebuild : α → γ} {next : α → β → Checked γ δ}
    {node : γ} {b : δ} :
    c.andThen rebuild next = ⟨node, .ok b, []⟩ ↔
      ∃ node' a, c = ⟨node', .ok a, []⟩ ∧ next node' a = ⟨node, .ok b, []⟩ := by
  obtain ⟨node', result, reports⟩ := c
  cases result with
  | error d => simp [andThen]
  | ok a =>
    simp only [andThen, mk.injEq, List.append_eq_nil_iff, Except.ok.injEq]
    constructor
    · rintro ⟨same, done, rfl, clean⟩
      exact ⟨node', a, ⟨rfl, rfl, rfl⟩, by rw [← same, ← done, ← clean]⟩
    · rintro ⟨_, _, ⟨rfl, rfl, rfl⟩, done⟩
      simp [done]

@[simp] theorem settle_ok {make : Info → α} {info : Info} {r : Except Diagnostic Ty} {node : α}
    {t : Ty} :
    settle make info r = ⟨node, .ok t, []⟩ ↔ r = .ok t ∧ node = make (info.setTy t) := by
  cases r with
  | error d => simp [settle]
  | ok u =>
    simp only [settle, pass_ok, Except.ok.injEq]
    constructor
    · rintro ⟨rfl, rfl⟩
      exact ⟨rfl, rfl⟩
    · rintro ⟨rfl, rfl⟩
      exact ⟨rfl, rfl⟩

theorem accepted_of {c : Checked α β} {b : β} (ok : c.result = .ok b) (clean : c.reports = []) :
    c = ⟨c.node, .ok b, []⟩ := by
  rw [← ok, ← clean]

theorem andThen_quiet {c : Checked α β} {rebuild : α → γ} {next : α → β → Checked γ δ}
    (first : c.reports = []) (rest : ∀ node b, (next node b).reports = []) :
    (c.andThen rebuild next).reports = [] := by
  obtain ⟨node, result, reports⟩ := c
  cases result with
  | error d => exact first
  | ok b => simp_all [andThen]

theorem settle_quiet {make : Info → α} {info : Info} {r : Except Diagnostic Ty} :
    (settle make info r).reports = [] := by
  cases r <;> rfl

end Checked

/-! ## Environments -/

/-- What a name stands for has data, or is a routine whose result is data. -/
def Meaning.IsSound : Meaning → Prop
  | .typed (.func _ result) _ => result.IsData
  | .typed t _ => t.deref.IsData
  | .equality _ => True

/-- Named types are types of values, and names stand for data and for routines. -/
structure Env.IsSound (env : Env) : Prop where
  types : ∀ name t, env.types.lookup? name = some t → t.IsValue
  terms : ∀ name m, env.terms.lookup? name = some m → m.IsSound

theorem Meaning.isSound_of_data {t : Ty} (data : t.IsData) (b : Binding) :
    (Meaning.typed t b).IsSound := by
  cases t with
  | func ps r => simp [Ty.IsData] at data
  | ref inner => simp [Ty.IsData] at data
  | _ => exact data

theorem Meaning.isSound_of_proper {t : Ty} (proper : t.Proper) (b : Binding) :
    (Meaning.typed t b).IsSound := by
  cases t with
  | func ps r =>
    obtain ⟨_, rfl | value⟩ := proper
    · trivial
    · exact value.data
  | ref inner => exact Ty.IsValue.data (show inner.IsValue from proper)
  | void | boolean | integer | char => trivial
  | array length elem =>
    exact Ty.IsValue.data (show (Ty.array length elem).IsValue by simpa only [Ty.Proper] using proper)
  | record fields =>
    exact Ty.IsValue.data (show (Ty.record fields).IsValue by simpa only [Ty.Proper] using proper)

namespace Env.IsSound

variable {env : Env} {m : Meaning}

theorem enterBlock (sound : env.IsSound) : env.enterBlock.IsSound where
  types name t found := sound.types name t (by simpa [Env.enterBlock] using found)
  terms name m found := sound.terms name m (by simpa [Env.enterBlock] using found)

theorem enterRoutine (sound : env.IsSound) : env.enterRoutine.IsSound where
  types := sound.types
  terms name m found := sound.terms name m (by simpa [Env.enterRoutine] using found)

theorem addConst (sound : env.IsSound) (name : String) (meaning : m.IsSound) :
    (env.addConst name m).IsSound where
  types := sound.types
  terms x k found := by
    simp only [Env.addConst, Scope.Table.addConst, Scope.Table.lookup?_insert] at found
    split at found
    · cases found
      exact meaning
    · exact sound.terms x k found

theorem addVar (sound : env.IsSound) (name : String) (meaning : m.IsSound) :
    (env.addVar name m).IsSound where
  types := sound.types
  terms x k found := by
    simp only [Env.addVar, Scope.Table.add, Scope.Table.lookup?_insert] at found
    split at found
    · cases found
      exact meaning
    · exact sound.terms x k found

theorem addType (sound : env.IsSound) (name : String) (value : t.IsValue) :
    (env.addType name t).IsSound where
  types x u found := by
    simp only [Env.addType, Scope.Table.addConst, Scope.Table.lookup?_insert] at found
    split at found
    · cases found
      exact value
    · exact sound.types x u found
  terms := sound.terms

theorem standard : Env.standard.IsSound where
  types name t found := by
    have filled := Scope.Table.find?_foldl_addConst id standardTypes (.new 0) name
    rw [Scope.Table.lookup?, show Env.standard.types.find? name = _ from filled] at found
    split at found
    · rename_i u known
      obtain rfl : u = t := by simpa using found
      have member := List.mem_reverse.mp (Scope.mem_of_lookup known)
      simp only [standardTypes, List.mem_cons, List.not_mem_nil, or_false, Prod.mk.injEq] at member
      rcases member with ⟨_, rfl⟩ | ⟨_, rfl⟩ | ⟨_, rfl⟩ <;> trivial
    · cases found
  terms name m found := by
    rw [lookup_standard] at found
    have all : ∀ entry ∈ standardTerms, entry.2.IsSound := by
      simp [standardTerms, standardConstants, standardRoutines, equalities, Meaning.IsSound,
        Ty.IsData, Ty.deref]
    exact all _ (Scope.mem_of_lookup found)

theorem unary (sound : env.IsSound) (found : env.unary? op = some m) : m.IsSound := by
  simp only [Env.unary?] at found
  split at found
  · rename_i own same
    cases found
    split at same
    · rename_i known
      split at same <;> cases same
      exact sound.terms _ _ known
    · cases same
  · split at found
    · rename_i known
      cases found
      exact sound.terms _ _ known
    · exact sound.terms _ _ found

end Env.IsSound

theorem Env.unary?_found {env : Env} {m : Meaning} (found : env.unary? op = some m) :
    env.terms.lookup? op = some m ∨ env.terms.lookup? (unaryKey op) = some m := by
  unfold unary? at found
  grind

/-- A standard operator is found under its own key, unless nothing is. -/
theorem Env.unary?_standard {env : Env} {m : Meaning} (found : env.unary? op = some m)
    (standard : m.decl.isStandard = true) :
    env.terms.lookup? (unaryKey op) = some m ∨ env.terms.lookup? (unaryKey op) = none := by
  unfold unary? at found
  grind [Meaning.decl]

/-! ## Signatures and parameters -/

theorem fieldsAreValues_iff {fields : List (String × Ty)} :
    Ty.FieldsAreValues fields ↔ ∀ f ∈ fields, f.2.IsValue := by
  induction fields with
  | nil => simp [Ty.FieldsAreValues]
  | cons f fields ih => simp [Ty.FieldsAreValues, ih]

theorem isValue_ofFields {fields : List (String × Ty)} (values : Ty.FieldsAreValues fields) :
    (Ty.ofFields fields).IsValue := by
  simp only [Ty.ofFields, Ty.IsValue, fieldsAreValues_iff, List.mem_mergeSort]
  exact fieldsAreValues_iff.mp values

mutual
/-- A signature fails or not, and reports nothing. -/
theorem sig_quiet (env : Env) : ∀ s : Sig, (sig env s).reports = []
  | .named _ _ => settle_quiet
  | .array i length elem => by
    simp only [sig]
    split
    · rfl
    · split
      · rfl
      · exact andThen_quiet (sig_quiet env elem) fun _ _ => settle_quiet
  | .record i fields => andThen_quiet (sigFields_quiet env i.pos [] fields) fun _ _ => settle_quiet

theorem sigFields_quiet (env : Env) (pos : Pos) : ∀ (seen : List String)
    (fields : List (String × Sig)), (sigFields env pos seen fields).reports = []
  | _, [] => rfl
  | seen, (name, s) :: rest => by
    simp only [sigFields]
    split
    · rfl
    · exact andThen_quiet (sig_quiet env s) fun _ _ =>
        andThen_quiet (sigFields_quiet env pos (name :: seen) rest) fun _ _ => rfl
end

theorem resultSig_quiet (env : Env) (result : Option Sig) :
    (resultSig env result).reports = [] := by
  cases result with
  | none => rfl
  | some s => exact andThen_quiet (sig_quiet env s) fun _ _ => rfl

mutual
theorem param_quiet (env : Env) : ∀ p : Param, (param env p).reports = []
  | .value _ _ s | .var _ _ s => andThen_quiet (sig_quiet env s) fun _ _ => settle_quiet
  | .func _ _ ps result => andThen_quiet (params_quiet env [] ps) fun _ _ =>
      andThen_quiet (resultSig_quiet env result) fun _ _ => settle_quiet

theorem params_quiet (env : Env) : ∀ (seen : List String) (ps : List Param),
    (params env seen ps).reports = []
  | _, [] => rfl
  | seen, p :: ps => by
    simp only [params]
    split
    · rfl
    · exact andThen_quiet (param_quiet env p) fun q _ =>
        andThen_quiet (params_quiet env (q.name :: seen) ps) fun _ _ => rfl
end

mutual
theorem sig_value {env : Env} (sound : env.IsSound) : ∀ {s s' : Sig} {t : Ty},
    sig env s = ⟨s', .ok t, []⟩ → t.IsValue
  | .named i name, s', t, accepted => by
    simp only [sig, settle_ok, namedType] at accepted
    obtain ⟨found, _⟩ := accepted
    split at found
    · rename_i u known
      cases found
      exact sound.types name _ known
    · split at found <;> cases found
  | .array i length elem, s', t, accepted => by
    simp only [sig] at accepted
    split at accepted
    · simp at accepted
    · rename_i positive
      split at accepted
      · simp at accepted
      · simp only [andThen_ok, settle_ok, Except.ok.injEq] at accepted
        obtain ⟨elem', u, inner, rfl, _⟩ := accepted
        exact ⟨by omega, sig_value sound inner⟩
  | .record i fields, s', t, accepted => by
    simp only [sig, andThen_ok, settle_ok, Except.ok.injEq] at accepted
    obtain ⟨fields', ts, inner, rfl, _⟩ := accepted
    exact isValue_ofFields (sigFields_values sound inner)

theorem sigFields_values {env : Env} (sound : env.IsSound) {pos : Pos} :
    ∀ {seen : List String} {fields fields' : List (String × Sig)} {ts : List (String × Ty)},
      sigFields env pos seen fields = ⟨fields', .ok ts, []⟩ → Ty.FieldsAreValues ts
  | seen, [], fields', ts, accepted => by
    simp only [sigFields, pass_ok] at accepted
    rw [accepted.2]
    trivial
  | seen, (name, s) :: rest, fields', ts, accepted => by
    simp only [sigFields] at accepted
    split at accepted
    · simp at accepted
    · simp only [andThen_ok, pass_ok] at accepted
      obtain ⟨s', t, first, rest', us, others, _, rfl⟩ := accepted
      exact ⟨sig_value sound first, sigFields_values sound others⟩
end

theorem resultSig_value {env : Env} (sound : env.IsSound) {result result' : Option Sig}
    (accepted : resultSig env result = ⟨result', .ok t, []⟩) : t = .void ∨ t.IsValue := by
  cases result with
  | none =>
    simp only [resultSig, pass_ok] at accepted
    exact .inl accepted.2
  | some s =>
    simp only [resultSig, andThen_ok, pass_ok] at accepted
    obtain ⟨s', u, inner, _, rfl⟩ := accepted
    exact .inr (sig_value sound inner)

theorem ParamTyped.proper (typed : ParamTyped p t) : t.Proper := by
  cases p with
  | value => exact typed.2.proper
  | var =>
    obtain ⟨inner, rfl, value⟩ := typed.2
    exact value
  | func =>
    obtain ⟨params, result, rfl, proper⟩ := typed.2
    exact proper

theorem properAll_of_typed {params : List Param} {types : List Ty}
    (typed : List.Forall₂ ParamTyped params types) : Ty.ProperAll types := by
  induction typed with
  | nil => trivial
  | cons first _ ih => exact ⟨first.proper, ih⟩

theorem refOf_value {t : Ty} (value : t.IsValue) : t.refOf = .ref t := by
  cases t with
  | ref inner => simp [Ty.IsValue] at value
  | _ => rfl

mutual
theorem param_typed {env : Env} (sound : env.IsSound) : ∀ {p p' : Param} {t : Ty},
    param env p = ⟨p', .ok t, []⟩ → ParamTyped p' t ∧ p'.name = p.name
  | .value i name s, p', t, accepted => by
    simp only [param, andThen_ok, settle_ok, Except.ok.injEq] at accepted
    obtain ⟨s', u, inner, rfl, rfl⟩ := accepted
    exact ⟨⟨rfl, sig_value sound inner⟩, rfl⟩
  | .var i name s, p', t, accepted => by
    simp only [param, andThen_ok, settle_ok, Except.ok.injEq] at accepted
    obtain ⟨s', u, inner, rfl, rfl⟩ := accepted
    have value := sig_value sound inner
    exact ⟨⟨rfl, u, refOf_value value, value⟩, rfl⟩
  | .func i name ps result, p', t, accepted => by
    simp only [param, andThen_ok, settle_ok, Except.ok.injEq] at accepted
    obtain ⟨ps', ts, formals, result', u, returned, rfl, rfl⟩ := accepted
    have proper := properAll_of_typed (params_typed sound formals)
    exact ⟨⟨rfl, ts, u, rfl, proper, resultSig_value sound returned⟩, rfl⟩

theorem params_typed {env : Env} (sound : env.IsSound) :
    ∀ {seen : List String} {ps ps' : List Param} {ts : List Ty},
      params env seen ps = ⟨ps', .ok ts, []⟩ → List.Forall₂ ParamTyped ps' ts
  | seen, [], ps', ts, accepted => by
    simp only [params, pass_ok] at accepted
    rw [accepted.1, accepted.2]
    exact .nil
  | seen, p :: ps, ps', ts, accepted => by
    simp only [params] at accepted
    split at accepted
    · simp at accepted
    · simp only [andThen_ok, pass_ok] at accepted
      obtain ⟨p', t, first, rest', us, others, rfl, rfl⟩ := accepted
      exact .cons (param_typed sound first).1 (params_typed sound others)
end

theorem sig_accepted {env : Env} {s : Sig} (ok : (sig env s).result = .ok t) :
    sig env s = ⟨(sig env s).node, .ok t, []⟩ :=
  accepted_of ok (sig_quiet env s)

theorem params_accepted {env : Env} {ps : List Param} {ts : List Ty}
    (ok : (params env [] ps).result = .ok ts) :
    params env [] ps = ⟨(params env [] ps).node, .ok ts, []⟩ :=
  accepted_of ok (params_quiet env [] ps)

theorem Env.IsSound.bindParams {env : Env} {params : List Param} {types : List Ty}
    (sound : env.IsSound) (typed : List.Forall₂ ParamTyped params types) :
    (env.bindParams params types).IsSound := by
  induction typed generalizing env with
  | nil => exact sound
  | @cons p t ps ts first _ ih =>
    have meaning := Meaning.isSound_of_proper first.proper p.binding
    cases p with
    | value | func => exact ih (sound.addConst _ meaning)
    | var => exact ih (sound.addVar _ meaning)

end Triangle.Check
