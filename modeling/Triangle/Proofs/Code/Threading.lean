import Mathlib
import Triangle.Proofs.Code.Relocation

/-! Jump threading keeps what code does. A machine that runs the threaded code goes at once where the
other goes along a chain of jumps; a jump that is left out was only reached through its labels. -/
namespace Triangle.Code
open Machine Function List

/-! ## Chains of redirections -/

section Chains

variable {table : List (String × String)} {seen : List String} {name : String} {fuel : Nat}

/-- The next label along the chain, or the same where the chain ends. -/
def nextLabel (table : List (String × String)) (name : String) : String :=
  (redirect? table name).getD name

theorem redirect?_mem {next : String} (redirected : redirect? table name = some next) :
    (name, next) ∈ table := mem_reverse.mp (Scope.mem_of_lookup redirected)

/-- The end of a chain is further along it. -/
theorem follow_leads (table : List (String × String)) (fuel : Nat) (seen : List String)
    (name : String) :
    Relation.ReflTransGen (fun a b => redirect? table a = some b) name
      (follow table fuel seen name) := by
  induction fuel generalizing seen name with
  | zero => exact .refl
  | succ fuel ih =>
    rw [follow]
    split
    · exact .refl
    · rename_i next redirected
      split
      · exact .refl
      · exact .head redirected (ih (name :: seen) next)

/-- Labels that are redirected are fewer than the redirections. -/
theorem length_le_of_redirected (distinct : seen.Nodup)
    (redirected : ∀ s ∈ seen, (redirect? table s).isSome) : seen.length ≤ table.length := by
  have inside : seen ⊆ table.map Prod.fst := by
    intro s member
    obtain ⟨next, found⟩ := Option.isSome_iff_exists.mp (redirected s member)
    exact mem_map.mpr ⟨_, redirect?_mem found, rfl⟩
  simpa using (distinct.subperm inside).length_le

/-- A chain ends at a label without redirection or on a cycle. -/
theorem follow_periodic (distinct : seen.Nodup)
    (redirected : ∀ s ∈ seen, (redirect? table s).isSome)
    (behind : ∀ s ∈ seen, ∃ k, (nextLabel table)^[k + 1] s = name)
    (enough : table.length < seen.length + fuel) :
    follow table fuel seen name ∈ periodicPts (nextLabel table) := by
  induction fuel generalizing seen name with
  | zero =>
    have bound := length_le_of_redirected distinct redirected
    omega
  | succ fuel ih =>
    rw [follow]
    split
    · rename_i last
      exact mk_mem_periodicPts Nat.one_pos (by simp [IsPeriodicPt, IsFixedPt, nextLabel, last])
    · rename_i next found
      split
      · rename_i met
        obtain ⟨k, returns⟩ := behind name met
        exact mk_mem_periodicPts (Nat.succ_pos k) returns
      · rename_i unmet
        have one : nextLabel table name = next := by simp [nextLabel, found]
        refine ih (nodup_cons.mpr ⟨unmet, distinct⟩) ?_ ?_ (by simp; omega)
        · simpa [found] using redirected
        · intro s member
          rcases mem_cons.mp member with rfl | before
          · exact ⟨0, one⟩
          · obtain ⟨k, reaches⟩ := behind s before
            exact ⟨k + 1, by rw [iterate_succ_apply', reaches, one]⟩

/-- A label without redirection stays where it is, so it would be the whole cycle. -/
theorem redirected_on_cycle (cyclic : name ∈ periodicPts (nextLabel table))
    (moves : (redirect? table name).isSome) (k : Nat) :
    (redirect? table ((nextLabel table)^[k] name)).isSome := by
  by_contra stays
  have fixed : IsFixedPt (nextLabel table) ((nextLabel table)^[k] name) := by
    simp [IsFixedPt, nextLabel, Option.not_isSome_iff_eq_none.mp stays]
  have one : minimalPeriod (nextLabel table) name = 1 := by
    rw [← minimalPeriod_apply_iterate cyclic k]
    exact minimalPeriod_eq_one_iff_isFixedPt.mpr fixed
  have same : (nextLabel table)^[k] name = name :=
    (minimalPeriod_eq_one_iff_isFixedPt.mp one).iterate k
  rw [same] at stays
  exact stays moves

/-- A label on a cycle is where the chain from it ends. -/
theorem finalTarget_periodic (cyclic : name ∈ periodicPts (nextLabel table)) :
    finalTarget table name = name := by
  by_cases last : redirect? table name = none
  · simp [finalTarget, follow, last]
  let label (k : Nat) : String := (nextLabel table)^[k] name
  let period := minimalPeriod (nextLabel table) name
  have positive : 0 < period := minimalPeriod_pos_of_mem_periodicPts cyclic
  have returns : label period = name := iterate_minimalPeriod
  have different {j k : Nat} (first : j < period) (second : k < period) (same : label j = label k) :
      j = k := iterate_injOn_Iio_minimalPeriod first second same
  have redirected (k : Nat) : (redirect? table (label k)).isSome :=
    redirected_on_cycle cyclic (Option.isSome_iff_ne_none.mpr last) k
  let visited (k : Nat) : List String := (range k).reverse.map label
  have short : period ≤ table.length := by
    have distinct : (visited period).Nodup := by
      refine List.Nodup.map_on (fun j first k second same => ?_) (nodup_reverse.mpr nodup_range)
      simp only [mem_reverse, mem_range] at first second
      exact different first second same
    have onCycle : ∀ s ∈ visited period, (redirect? table s).isSome := fun s member => by
      obtain ⟨k, -, rfl⟩ := mem_map.mp member
      exact redirected k
    have bound := length_le_of_redirected distinct onCycle
    simpa [visited] using bound
  have around (left : Nat) : ∀ k fuel, k + left = period → left < fuel →
      follow table fuel (visited k) (label k) = name := by
    induction left with
    | zero =>
      intro k fuel whole enough
      obtain ⟨fuel, rfl⟩ : ∃ f, fuel = f + 1 := ⟨fuel - 1, by omega⟩
      obtain rfl : k = period := by omega
      obtain ⟨next, found⟩ := Option.isSome_iff_exists.mp (redirected 0)
      have met : name ∈ visited period :=
        mem_map.mpr ⟨0, by simpa using positive, rfl⟩
      rw [returns, follow, show redirect? table name = some next from found]
      simp [met]
    | succ left ih =>
      intro k fuel whole enough
      obtain ⟨fuel, rfl⟩ : ∃ f, fuel = f + 1 := ⟨fuel - 1, by omega⟩
      obtain ⟨next, found⟩ := Option.isSome_iff_exists.mp (redirected k)
      have unmet : label k ∉ visited k := by
        intro member
        obtain ⟨j, less, same⟩ := mem_map.mp member
        simp only [mem_reverse, mem_range] at less
        have := different (by omega) (by omega) same
        omega
      have one : label (k + 1) = next := by
        simp only [label, iterate_succ_apply']
        simp only [label] at found
        simp [nextLabel, found]
      have more : visited (k + 1) = label k :: visited k := by simp [visited, range_succ]
      have later := ih (k + 1) fuel (by omega) (by omega)
      rw [follow, found]
      simpa [unmet, one, more] using later
  exact around period 0 (table.length + 1) (by omega) (by omega)

theorem finalTarget_final (table : List (String × String)) (name : String) :
    finalTarget table (finalTarget table name) = finalTarget table name :=
  finalTarget_periodic (follow_periodic nodup_nil (by simp) (by simp) (by simp))

end Chains

/-! ## Where redirections come from -/

theorem leadingJump?_eq_some {items : List Item} {target : String}
    (leads : leadingJump? items = some target) :
    ∃ between ins after, items = between ++ .op ins (some target) :: after ∧ ins.op = .jump ∧
      span between = 0 := by
  induction items with
  | nil => cases leads
  | cons item items ih =>
    cases item with
    | label name =>
      obtain ⟨between, ins, after, rfl, jump, none⟩ := ih leads
      exact ⟨.label name :: between, ins, after, rfl, jump, by simpa using none⟩
    | op ins aim =>
      simp only [leadingJump?] at leads
      split at leads
      · rename_i jump
        subst leads
        exact ⟨[], ins, items, rfl, jump, rfl⟩
      · cases leads

/-- A redirected label leads to the jump that it is redirected along. -/
theorem leads_of_redirects {items : List Item} {name target : String}
    (member : (name, target) ∈ redirects items) :
    ∃ before after, items = before ++ .label name :: after ∧ leadingJump? after = some target := by
  induction items with
  | nil => cases member
  | cons item items ih =>
    have later (inside : (name, target) ∈ redirects items) : ∃ before after,
        item :: items = before ++ .label name :: after ∧ leadingJump? after = some target := by
      obtain ⟨before, after, rfl, leads⟩ := ih inside
      exact ⟨item :: before, after, rfl, leads⟩
    cases item with
    | op ins aim => exact later member
    | label other =>
      simp only [redirects] at member
      split at member
      · rename_i aim leads
        rcases mem_cons.mp member with same | inside
        · cases same
          exact ⟨[], items, rfl, leads⟩
        · exact later inside
      · exact later member

/-- A redirected label stands before a jump, with nothing but labels between them. -/
theorem mem_redirects {items : List Item} {name target : String}
    (member : (name, target) ∈ redirects items) :
    ∃ before between ins after,
      items = before ++ .label name :: (between ++ .op ins (some target) :: after) ∧
        ins.op = .jump ∧ span between = 0 := by
  obtain ⟨before, rest, rfl, leads⟩ := leads_of_redirects member
  obtain ⟨between, ins, after, rfl, jump, none⟩ := leadingJump?_eq_some leads
  exact ⟨before, between, ins, after, rfl, jump, none⟩

/-! ## The threaded code -/

variable {table : List (String × String)} {last : Option Item} {dropped : Bool} {items : List Item}

/-- Threading goes on after a part of the code from what it has kept of it. -/
theorem threadAfter_append (table : List (String × String)) (last : Option Item) (dropped : Bool)
    (before : List Item) : ∃ out last' dropped', ∀ after,
      threadAfter table last dropped (before ++ after) = out ++ threadAfter table last' dropped' after := by
  induction before generalizing last dropped with
  | nil => exact ⟨[], last, dropped, fun _ => rfl⟩
  | cons item before ih =>
    cases item with
    | label name =>
      by_cases gone : finalTarget table name ≠ name
      · obtain ⟨out, last', dropped', rest⟩ := ih last true
        exact ⟨out, last', dropped', fun after => by simp [threadAfter, gone, rest]⟩
      · obtain ⟨out, last', dropped', rest⟩ := ih (some (.label name)) false
        exact ⟨.label name :: out, last', dropped', fun after => by simp [threadAfter, gone, rest]⟩
    | op ins target =>
      by_cases gone : (dropped && ins.op == .jump && last.any transfers) = true
      · obtain ⟨out, last', dropped', rest⟩ := ih last false
        exact ⟨out, last', dropped', fun after => by
          rw [cons_append, threadAfter, if_pos gone, rest]⟩
      · obtain ⟨out, last', dropped', rest⟩ := ih (some (.op ins (target.map (finalTarget table)))) false
        exact ⟨.op ins (target.map (finalTarget table)) :: out, last', dropped', fun after => by
          rw [cons_append, threadAfter, if_neg gone, rest, cons_append]⟩

theorem labelNames_threadAfter (table : List (String × String)) (last : Option Item) (dropped : Bool)
    (items : List Item) : labelNames (threadAfter table last dropped items) =
      (labelNames items).filter fun name => finalTarget table name = name := by
  induction items generalizing last dropped with
  | nil => rfl
  | cons item items ih =>
    cases item with
    | label name =>
      by_cases gone : finalTarget table name = name
      · simp [threadAfter, gone, ih]
      · simp [threadAfter, gone, ih]
    | op ins target =>
      simp only [threadAfter]
      split
      · simp [ih]
      · simp [ih]

theorem span_threadAfter (table : List (String × String)) (last : Option Item) (dropped : Bool)
    (items : List Item) : span (threadAfter table last dropped items) ≤ span items := by
  induction items generalizing last dropped with
  | nil => exact Nat.le_refl _
  | cons item items ih =>
    cases item with
    | label name =>
      simp only [threadAfter]
      split
      · simpa using ih last true
      · simpa using ih (some (.label name)) false
    | op ins target =>
      simp only [threadAfter]
      split
      · have rest := ih last false
        rw [span_op]
        omega
      · have rest := ih (some (.op ins (target.map (finalTarget table)))) false
        rw [span_op, span_op]
        omega

/-- Every instruction of the threaded code is one of the code, with its target replaced. -/
theorem op_mem_threadAfter {ins : Instruction} {aim : Option String}
    (member : .op ins aim ∈ threadAfter table last dropped items) :
    ∃ target, .op ins target ∈ items ∧ aim = target.map (finalTarget table) := by
  induction items generalizing last dropped with
  | nil => cases member
  | cons item items ih =>
    have later {last : Option Item} {dropped : Bool}
        (inside : .op ins aim ∈ threadAfter table last dropped items) :
        ∃ target, .op ins target ∈ item :: items ∧ aim = target.map (finalTarget table) := by
      obtain ⟨target, found, same⟩ := ih inside
      exact ⟨target, mem_cons_of_mem _ found, same⟩
    cases item with
    | label name =>
      simp only [threadAfter] at member
      split at member
      · exact later member
      · exact later (by simpa using member)
    | op ins' target =>
      simp only [threadAfter] at member
      split at member
      · exact later member
      · rcases mem_cons.mp member with same | inside
        · obtain ⟨rfl, rfl⟩ := Item.op.inj same
          exact ⟨target, mem_cons_self, rfl⟩
        · exact later inside

theorem relocatable_thread (relocatable : ∀ item ∈ items, item.Relocatable) :
    ∀ item ∈ thread items, item.Relocatable := by
  intro item member
  cases item with
  | label name => trivial
  | op ins aim =>
    obtain ⟨target, inside, rfl⟩ := op_mem_threadAfter member
    have before := relocatable _ inside
    unfold Item.Relocatable at before ⊢
    cases op : ins.op <;> simp_all

/-- Along a chain of redirections all labels are in the code. -/
theorem chain_label (resolvable : Resolvable items) {a b : String}
    (chain : Relation.ReflTransGen (fun a b => redirect? (redirects items) a = some b) a b)
    (known : a ∈ labelNames items) : b ∈ labelNames items := by
  induction chain with
  | refl => exact known
  | @tail b c _ redirected _ =>
    obtain ⟨before, between, ins, after, same, jump, _⟩ := mem_redirects (redirect?_mem redirected)
    have member : .op ins (some c) ∈ items := by rw [same]; simp
    exact ((resolvable.fine _ member) (by simp [redundant, jump])).2 _ rfl

theorem resolvable_thread (resolvable : Resolvable items) : Resolvable (thread items) where
  distinct := by
    rw [thread, labelNames_threadAfter]
    exact resolvable.distinct.filter _
  small := (span_threadAfter _ _ _ items).trans resolvable.small
  fine item member := by
    cases item with
    | label name => trivial
    | op ins aim =>
      obtain ⟨target, inside, rfl⟩ := op_mem_threadAfter member
      intro active
      obtain ⟨fits, known⟩ := resolvable.fine _ inside active
      cases target with
      | none => exact ⟨fits, by simp⟩
      | some name =>
        refine ⟨fits, ?_⟩
        rintro _ ⟨rfl⟩
        rw [thread, labelNames_threadAfter, mem_filter]
        exact ⟨chain_label resolvable (follow_leads _ _ _ name) (known name rfl),
          by simp [finalTarget_final]⟩

/-! ## Runs -/

/-- The address in the code where the threaded code is at its own address. The item before is not one
that control never falls through. -/
def Meets (items : List Item) (a b : Nat) : Prop :=
  ∃ before after out last dropped, items = before ++ after ∧
    thread items = out ++ threadAfter (redirects items) last dropped after ∧
    last.any transfers = false ∧ a = span before ∧ b = span out

/-- Both codes have come to their end, or go on with the same item. -/
inductive AtItem (items : List Item) (a b : Nat) : Prop where
  | done (all : a = span items) (all' : b = span (thread items))
  | op {before after out : List Item} {ins : Instruction} {target : Option String}
      (whole : items = before ++ .op ins target :: after)
      (whole' : thread items = out ++ .op ins (target.map (finalTarget (redirects items))) ::
        threadAfter (redirects items) (some (.op ins (target.map (finalTarget (redirects items)))))
          false after)
      (active : redundant ins = false) (place : a = span before) (place' : b = span out)

/-- Labels and instructions without an effect take no place. -/
theorem Meets.atItem {a b : Nat} (meets : Meets items a b) : AtItem items a b := by
  obtain ⟨before, after, out, last, dropped, whole, whole', falls, place, place'⟩ := meets
  induction after generalizing before out last dropped with
  | nil =>
    refine .done ?_ ?_
    · rw [whole, place, append_nil]
    · rw [whole', place', threadAfter, append_nil]
  | cons item after ih =>
    cases item with
    | label name =>
      rw [← singleton_append, ← append_assoc] at whole
      simp only [threadAfter] at whole'
      split at whole'
      · exact ih _ out last true whole whole' falls (by simpa using place) place'
      · rw [← singleton_append, ← append_assoc] at whole'
        exact ih _ _ (some (.label name)) false whole whole' rfl (by simpa using place)
          (by simpa using place')
    | op ins target =>
      simp only [threadAfter, falls, Bool.and_false, Bool.false_eq_true, if_false] at whole'
      by_cases active : redundant ins = false
      · exact .op whole whole' active place place'
      · rw [Bool.not_eq_false] at active
        rw [← singleton_append, ← append_assoc] at whole whole'
        refine ih _ _ (some (.op ins (target.map _))) false whole whole' ?_ ?_ ?_
        · simp only [Option.any_some, transfers]
          unfold redundant at active
          cases op : ins.op <;> simp_all
        · simpa [span_op, active] using place
        · simpa [span_op, active] using place'

variable {code code' : List Instruction} {labels labels' : List (String × Nat)} {m n : Machine}

/-- A machine at a label goes along the redirections from it. -/
theorem chain_runs (placed : Placed labels code 0 items) {a b : String} {x y : Nat}
    (chain : Relation.ReflTransGen (fun a b => redirect? (redirects items) a = some b) a b)
    (found : labels.lookup a = some x) (alike : Alike code code' x y m n) :
    ∃ k m' z, labels.lookup b = some z ∧ m.Reaches k m' ∧ Alike code code' z y m' n := by
  induction chain with
  | refl => exact ⟨0, m, x, found, .here m, alike⟩
  | @tail b c _ redirected ih =>
    obtain ⟨k, m', z, known, reaches, alike⟩ := ih
    obtain ⟨before, between, ins, after, same, jump, none⟩ := mem_redirects (redirect?_mem redirected)
    have there := placed
    rw [same] at there
    cases (Placed.label there).symm.trans known
    rw [← singleton_append, ← append_assoc, ← append_assoc] at there
    obtain ⟨i, resolved, valid, here⟩ := there.item (by simp [redundant, jump])
    obtain ⟨w, target, small, rfl⟩ := substitute_aimed resolved valid
    simp only [span_append, span_label, span_nil, none, Nat.add_zero, jump] at here
    obtain ⟨m'', one, alike⟩ := alike.jump here small
    exact ⟨k + 1, m'', w, target, reaches.trans one, alike⟩

/-- At a label that threading keeps both codes meet. -/
theorem meets_label {name : String} (known : name ∈ labelNames items)
    (kept : finalTarget (redirects items) name = name) (placed : Placed labels code 0 items)
    (placed' : Placed labels' code' 0 (thread items)) {x y : Nat}
    (found : labels.lookup name = some x) (found' : labels'.lookup name = some y) :
    Meets items x y := by
  obtain ⟨before, after, same⟩ := append_of_mem (mem_labelNames.mp known)
  obtain ⟨out, last, dropped, split⟩ := threadAfter_append (redirects items) none false before
  have whole : thread items = out ++ .label name ::
      threadAfter (redirects items) (some (.label name)) false after := by
    have parts := split (.label name :: after)
    rw [← same] at parts
    rw [thread, parts]
    simp [threadAfter, kept]
  rw [same] at placed
  rw [whole] at placed'
  cases placed.label.symm.trans found
  cases placed'.label.symm.trans found'
  refine ⟨before ++ [.label name], after, out ++ [.label name], some (.label name), false, ?_, ?_, rfl,
    ?_, ?_⟩
  · simpa using same
  · simpa using whole
  · simp
  · simp

/-- The threaded code does in each step what the code does in one or more. -/
theorem thread_keeps (resolvable : Resolvable items) (relocatable : ∀ item ∈ items, item.Relocatable)
    (placed : Placed labels code 0 items) (placed' : Placed labels' code' 0 (thread items))
    (length : code.length = span items) (length' : code'.length = span (thread items)) {m n : Machine}
    (start : ∃ a b, Meets items a b ∧ Alike code code' a b m n) :
    Keeps (fun m n => ∃ a b, Meets items a b ∧ Alike code code' a b m n) m n := by
  obtain ⟨a, b, meets, alike⟩ := start
  cases meets.atItem with
  | done all all' =>
    exact alike.keeps_end (getElem?_eq_none (by omega)) (getElem?_eq_none (by omega))
  | @op before after out ins target whole whole' active place place' =>
    subst place place'
    have member : .op ins target ∈ items := by rw [whole]; simp
    have here := placed
    have here' := placed'
    rw [whole] at here
    rw [whole'] at here'
    refine keeps_item here here' (relocatable _ member) active alike ?_ ?_
    · intro falls m' n' later
      refine ⟨_, _, ⟨before ++ [.op ins target], after,
        out ++ [.op ins (target.map (finalTarget (redirects items)))], _, false, by simpa using whole,
        by simpa using whole', ?_, ?_, ?_⟩, later⟩
      · simpa [transfers] using falls
      · simp [span_op, active]
      · simp [span_op, active]
    · rintro name rfl x y found found' m' n' later
      have known : name ∈ labelNames items := (resolvable.fine _ member active).2 name rfl
      have chain := follow_leads (redirects items) ((redirects items).length + 1) [] name
      obtain ⟨k, m'', z, target, reaches, alike⟩ := chain_runs placed chain found later
      exact ⟨k, m'', reaches, z, y, meets_label (chain_label resolvable chain known)
        (finalTarget_final _ name) placed placed' target found', alike⟩

/-- Threaded code can be resolved and runs like the code. -/
theorem thread_imitates (resolved : resolve items = .ok code)
    (relocatable : ∀ item ∈ items, item.Relocatable) :
    ∃ code', resolve (thread items) = .ok code' ∧
      ∀ input, (start code' input).Imitates (start code input) := by
  have resolvable := resolvable_of_resolve resolved
  obtain ⟨code', resolved'⟩ := (resolvable_thread resolvable).resolves
  obtain ⟨length, labels, placed⟩ := resolve_laid resolved
  obtain ⟨length', labels', placed'⟩ := resolve_laid resolved'
  refine ⟨code', resolved', fun input => ?_⟩
  have keeps {m n : Machine} (related : ∃ a b, Meets items a b ∧ Alike code code' a b m n) :=
    thread_keeps resolvable relocatable placed placed' length length' related
  exact Keeps.imitates keeps
    ⟨0, 0, ⟨[], items, [], none, false, rfl, rfl, rfl, rfl, rfl⟩, alike_start code code' input⟩ rfl rfl

end Triangle.Code
