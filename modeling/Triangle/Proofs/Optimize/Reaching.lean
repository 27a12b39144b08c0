import Mathlib
import Triangle.Optimize.Effects

/-! Following the routines that a command calls finds what the command may change: the names of the
summaries that it reaches and no others, or nothing where one of them may change any. -/
namespace Triangle.Optimize.Summaries
open List

/-- A command or routine with summary `s` calls one with summary `t`. -/
def Calls (g : Summaries) (s t : Summary) : Prop := ∃ id ∈ s.callees, g[id]? = some t

/-- A command with summary `s` may come to run a routine with summary `t`, or that is its own. -/
def Reaches (g : Summaries) : Summary → Summary → Prop := Relation.ReflTransGen g.Calls

variable {g : Summaries} {s : Summary} {seen pending rest : List Nat} {names mutated : List String}
  {id : Nat}

/-! ## What is found is reached -/

/-- One of the routines leads to a summary with the property. -/
def Leads (g : Summaries) (ids : List Nat) (holds : Summary → Prop) : Prop :=
  ∃ id ∈ ids, ∃ s, g[id]? = some s ∧ ∃ t, g.Reaches s t ∧ holds t

theorem Leads.later {holds : Summary → Prop} (leads : g.Leads rest holds) :
    g.Leads (id :: rest) holds := by
  obtain ⟨other, member, found⟩ := leads
  exact ⟨other, mem_cons_of_mem _ member, found⟩

/-- What the callees of a routine lead to, the routine leads to. -/
theorem Leads.before {holds : Summary → Prop} (here : g[id]? = some s)
    (leads : g.Leads (rest ++ s.callees) holds) : g.Leads (id :: rest) holds := by
  obtain ⟨other, member, t, found, u, reaches, fits⟩ := leads
  rcases mem_append.mp member with waiting | called
  · exact ⟨other, mem_cons_of_mem _ waiting, t, found, u, reaches, fits⟩
  · exact ⟨id, mem_cons_self, s, here, u, .head ⟨other, called, found⟩ reaches, fits⟩

theorem leads_of_closureFrom_none (unknown : g.closureFrom seen names pending = none) :
    g.Leads pending (·.all) := by
  fun_induction closureFrom g seen names pending with
  | case1 => cases unknown
  | case2 _ _ _ _ _ ih | case3 _ _ _ _ _ _ ih => exact (ih unknown).later
  | case4 _ _ id _ _ s found all => exact ⟨id, mem_cons_self, s, found, s, .refl, all⟩
  | case5 _ _ _ _ _ _ found _ ih => exact (ih unknown).before found

theorem leads_of_mem_closureFrom (done : g.closureFrom seen names pending = some mutated)
    {name : String} (member : name ∈ mutated) :
    name ∈ names ∨ g.Leads pending (name ∈ ·.names) := by
  fun_induction closureFrom g seen names pending with
  | case1 =>
    cases done
    exact .inl member
  | case2 _ _ _ _ _ ih | case3 _ _ _ _ _ _ ih => exact (ih done).imp_right .later
  | case4 => cases done
  | case5 _ _ id _ _ s found _ ih =>
    rcases ih done with collected | leads
    · rcases mem_append.mp collected with before | here
      · exact .inl before
      · exact .inr ⟨id, mem_cons_self, s, found, s, .refl, here⟩
    · exact .inr (leads.before found)

/-! ## What is reached is found -/

/-- All that the summary says is in `names`, and the routines that it calls are seen or wait. -/
structure Covers (g : Summaries) (seen pending : List Nat) (names : List String) (s : Summary) :
    Prop where
  known : s.all = false
  names : s.names ⊆ names
  callees : ∀ id ∈ s.callees, (g[id]?).isSome → id ∈ seen ∨ id ∈ pending

/-- The summaries of the routines that were seen are covered. -/
def Explored (g : Summaries) (seen pending : List Nat) (names : List String) : Prop :=
  ∀ id ∈ seen, ∀ s, g[id]? = some s → g.Covers seen pending names s

theorem Covers.mono {seen' pending' : List Nat} {names' : List String}
    (covers : g.Covers seen pending names s) (more : names ⊆ names')
    (waiting : ∀ id, (g[id]?).isSome → id ∈ seen ∨ id ∈ pending → id ∈ seen' ∨ id ∈ pending') :
    g.Covers seen' pending' names' s where
  known := covers.known
  names := List.Subset.trans covers.names more
  callees id called there := waiting id there (covers.callees id called there)

theorem Explored.skip (explored : g.Explored seen (id :: rest) names)
    (settled : (g[id]?).isSome → id ∈ seen) : g.Explored seen rest names := by
  intro other member s found
  refine (explored other member s found).mono (List.Subset.refl _) fun k there place => ?_
  rcases place with before | waiting
  · exact .inl before
  · rcases mem_cons.mp waiting with rfl | later
    · exact .inl (settled there)
    · exact .inr later

theorem Explored.visit (explored : g.Explored seen (id :: rest) names) (found : g[id]? = some s)
    (known : s.all = false) :
    g.Explored (id :: seen) (rest ++ s.callees) (names ++ s.names) := by
  intro other member t here
  rcases mem_cons.mp member with rfl | before
  · cases found.symm.trans here
    exact ⟨known, subset_append_right _ _, fun k called _ => .inr (mem_append_right _ called)⟩
  · refine (explored other before t here).mono (subset_append_left _ _) fun k _ place => ?_
    rcases place with earlier | waiting
    · exact .inl (mem_cons_of_mem _ earlier)
    · rcases mem_cons.mp waiting with rfl | later
      · exact .inl mem_cons_self
      · exact .inr (mem_append_left _ later)

/-- When no routine waits any more, those that waited have been seen, and all seen are covered. -/
theorem closureFrom_explores (done : g.closureFrom seen names pending = some mutated)
    (explored : g.Explored seen pending names) :
    ∃ final, g.Explored final [] mutated ∧ names ⊆ mutated ∧
      ∀ id, (g[id]?).isSome → id ∈ seen ∨ id ∈ pending → id ∈ final := by
  fun_induction closureFrom g seen names pending with
  | case1 seen _ =>
    cases done
    exact ⟨seen, explored, List.Subset.refl _, fun _ _ place =>
      place.resolve_right not_mem_nil⟩
  | case2 seen names id rest met ih =>
    obtain ⟨final, whole, more, all⟩ := ih done (explored.skip fun _ => met)
    exact ⟨final, whole, more, fun k there place => all k there (by grind)⟩
  | case3 seen names id rest _ missing ih =>
    obtain ⟨final, whole, more, all⟩ := ih done (explored.skip (by simp [missing]))
    exact ⟨final, whole, more, fun k there place => all k there (by grind)⟩
  | case4 => cases done
  | case5 seen names id rest _ s found known ih =>
    obtain ⟨final, whole, more, all⟩ :=
      ih done (explored.visit found (Bool.eq_false_of_not_eq_true known))
    exact ⟨final, whole, List.Subset.trans (subset_append_left _ _) more,
      fun k there place => all k there (by grind)⟩

/-- Every summary that is reached is covered in the end. -/
theorem covers_of_reaches (done : g.closure s = some mutated) :
    ∃ final, ∀ t, g.Reaches s t → g.Covers final [] mutated t := by
  unfold closure at done
  split at done
  · cases done
  · rename_i known
    obtain ⟨final, explored, more, all⟩ := closureFrom_explores done (by simp [Explored])
    refine ⟨final, fun t reaches => ?_⟩
    induction reaches with
    | refl =>
      exact ⟨Bool.eq_false_of_not_eq_true known, more, fun id called there =>
        .inl (all id there (.inr called))⟩
    | tail _ calls ih =>
      obtain ⟨id, called, found⟩ := calls
      have seen := (ih.callees id called (by simp [found])).resolve_right not_mem_nil
      exact explored id seen _ found

theorem reaches_of_leads {holds : Summary → Prop} (leads : g.Leads s.callees holds) :
    ∃ t, g.Reaches s t ∧ holds t := by
  obtain ⟨id, called, t, found, u, reaches, fits⟩ := leads
  exact ⟨u, .head ⟨id, called, found⟩ reaches, fits⟩

/-- The names that a command may change hold those of its own summary. -/
theorem names_subset_closure (done : g.closure s = some mutated) : s.names ⊆ mutated := by
  obtain ⟨final, covers⟩ := covers_of_reaches done
  exact (covers s .refl).names

/-- Any name may change if and only if a summary that may change any is reached; otherwise those
that may change are the names of all summaries that are reached. -/
theorem closure_exact (g : Summaries) (s : Summary) :
    (g.closure s = none ↔ ∃ t, g.Reaches s t ∧ t.all = true) ∧
      ∀ mutated, g.closure s = some mutated →
        ∀ name, name ∈ mutated ↔ ∃ t, g.Reaches s t ∧ name ∈ t.names := by
  refine ⟨⟨fun unknown => ?_, ?_⟩, fun mutated done name => ⟨fun member => ?_, ?_⟩⟩
  · unfold closure at unknown
    split at unknown
    · rename_i all
      exact ⟨s, .refl, all⟩
    · exact reaches_of_leads (leads_of_closureFrom_none unknown)
  · rintro ⟨t, reaches, all⟩
    by_contra known
    obtain ⟨mutated, done⟩ := Option.ne_none_iff_exists'.mp known
    obtain ⟨final, covers⟩ := covers_of_reaches done
    simp [(covers t reaches).known] at all
  · unfold closure at done
    split at done
    · cases done
    · rcases leads_of_mem_closureFrom done member with here | leads
      · exact ⟨s, .refl, here⟩
      · exact reaches_of_leads leads
  · rintro ⟨t, reaches, member⟩
    obtain ⟨final, covers⟩ := covers_of_reaches done
    exact (covers t reaches).names member

/-- Two routines that call each other, and a third that is not called. -/
def crossed : Summaries :=
  [{ names := ["x"], callees := [1] }, { names := ["y"], callees := [0, 1] }, { all := true }]

theorem closure_of_crossed : crossed.closure { names := ["z"], callees := [1] } = some ["z", "y", "x"] ∧
    ∃ t, crossed.Reaches { names := ["z"], callees := [1] } t ∧ "x" ∈ t.names := by
  have done : crossed.closure { names := ["z"], callees := [1] } = some ["z", "y", "x"] := by
    cbv
  exact ⟨done, ((closure_exact _ _).2 _ done "x").mp (by simp)⟩

end Triangle.Optimize.Summaries
