import Mathlib
import Triangle.Proofs.Code.Threading

/-! Jump threading is done in one pass. Labels that stay are ends of chains or lie on cycles, and what
follows them stays too; so threaded code has the redirections of the code between such labels and no
others. -/
namespace Triangle.Code
open Function List

variable {table : List (String × String)} {last : Option Item} {items : List Item} {name next : String}

/-! ## Labels at the end of a chain -/

theorem finalTarget_eq_iff :
    finalTarget table name = name ↔ name ∈ periodicPts (nextLabel table) := by
  refine ⟨fun same => ?_, finalTarget_periodic⟩
  rw [← same]
  exact follow_periodic nodup_nil (by simp) (by simp) (by simp)

theorem finalTarget_iterate (ends : finalTarget table name = name) (k : Nat) :
    finalTarget table ((nextLabel table)^[k] name) = (nextLabel table)^[k] name := by
  obtain ⟨period, positive, periodic⟩ := finalTarget_eq_iff.mp ends
  exact finalTarget_periodic (mk_mem_periodicPts positive (periodic.apply_iterate k))

/-! ## Redirections of threaded code -/

/-- After an item that control may pass, the next jump stays. -/
theorem leadingJump?_threadAfter (passes : last.any transfers = false) (dropped : Bool)
    (items : List Item) :
    leadingJump? (threadAfter table last dropped items) =
      (leadingJump? items).map (finalTarget table) := by
  induction items generalizing last dropped with
  | nil => rfl
  | cons item items ih =>
    cases item with
    | label name =>
      simp only [threadAfter]
      split
      · exact ih passes true
      · have label : (some (Item.label name)).any transfers = false := rfl
        exact ih label false
    | op ins target =>
      by_cases jump : ins.op = .jump
      · simp [threadAfter, passes, leadingJump?, jump]
      · simp [threadAfter, passes, leadingJump?, jump]

theorem redirects_threadAfter (table : List (String × String)) (last : Option Item) (dropped : Bool)
    (items : List Item) :
    redirects (threadAfter table last dropped items) =
      ((redirects items).filter fun r => finalTarget table r.1 = r.1).map
        fun r => (r.1, finalTarget table r.2) := by
  induction items generalizing last dropped with
  | nil => rfl
  | cons item items ih =>
    cases item with
    | label name =>
      by_cases stays : finalTarget table name = name
      · have onward : leadingJump? (threadAfter table (some (.label name)) false items) =
            (leadingJump? items).map (finalTarget table) := leadingJump?_threadAfter rfl false items
        cases leads : leadingJump? items with
        | none => simp [threadAfter, redirects, stays, onward, leads, ih]
        | some target => simp [threadAfter, redirects, stays, onward, leads, ih]
      · cases leads : leadingJump? items with
        | none => simp [threadAfter, redirects, stays, leads, ih]
        | some target => simp [threadAfter, redirects, stays, leads, ih]
    | op ins target =>
      simp only [threadAfter]
      split
      · exact ih last false
      · exact ih _ false

theorem lookup_filter_map {entries : List (String × String)} (keep : String → Bool) {f : String → String}
    (kept : keep name = true) :
    ((entries.filter fun r => keep r.1).map fun r => (r.1, f r.2)).lookup name =
      (entries.lookup name).map f := by
  induction entries with
  | nil => rfl
  | cons entry entries ih =>
    obtain ⟨key, value⟩ := entry
    by_cases same : name = key
    · subst same
      simp [kept]
    · cases stays : keep key with
      | false => simp [stays, ih, lookup_cons, beq_false_of_ne same]
      | true => simp [stays, ih, lookup_cons, beq_false_of_ne same]

/-- Labels that stay are redirected as before. -/
theorem redirect?_thread (ends : finalTarget (redirects items) name = name) :
    redirect? (redirects (thread items)) name = redirect? (redirects items) name := by
  have renamed : redirect? (redirects (thread items)) name =
      (redirect? (redirects items) name).map (finalTarget (redirects items)) := by
    rw [redirect?, thread, redirects_threadAfter, ← map_reverse, ← filter_reverse]
    exact lookup_filter_map (fun name => finalTarget (redirects items) name = name)
      (decide_eq_true ends)
  rw [renamed]
  cases redirected : redirect? (redirects items) name with
  | none => rfl
  | some next =>
    have one : nextLabel (redirects items) name = next := by simp [nextLabel, redirected]
    rw [Option.map_some, ← one]
    exact congrArg some (finalTarget_iterate ends 1)

theorem iterate_thread (ends : finalTarget (redirects items) name = name) (k : Nat) :
    (nextLabel (redirects (thread items)))^[k] name = (nextLabel (redirects items))^[k] name := by
  induction k with
  | zero => rfl
  | succ k ih =>
    rw [iterate_succ_apply', iterate_succ_apply', ih, nextLabel,
      redirect?_thread (finalTarget_iterate ends k), ← nextLabel]

/-- Labels that stay once stay again. -/
theorem finalTarget_thread (ends : finalTarget (redirects items) name = name) :
    finalTarget (redirects (thread items)) name = name := by
  obtain ⟨period, positive, periodic⟩ := finalTarget_eq_iff.mp ends
  refine finalTarget_eq_iff.mpr ⟨period, positive, ?_⟩
  rw [IsPeriodicPt, IsFixedPt, iterate_thread ends]
  exact periodic

/-- Code without redirected labels and targets is left as it is. -/
theorem threadAfter_of_final (last : Option Item)
    (labels : ∀ name ∈ labelNames items, finalTarget table name = name)
    (targets : ∀ ins name, .op ins (some name) ∈ items → finalTarget table name = name) :
    threadAfter table last false items = items := by
  induction items generalizing last with
  | nil => rfl
  | cons item items ih =>
    have later := fun last => ih last (fun name member => labels name (by cases item <;> simp [member]))
      fun ins name member => targets ins name (mem_cons_of_mem _ member)
    cases item with
    | label name =>
      have stays : finalTarget table name = name := labels name (by simp)
      simp [threadAfter, stays, later]
    | op ins target =>
      have same : target.map (finalTarget table) = target := by
        cases target with
        | none => rfl
        | some name => exact congrArg some (targets ins name mem_cons_self)
      simp [threadAfter, same, later]

theorem target_final {ins : Instruction} (member : .op ins (some name) ∈ thread items) :
    finalTarget (redirects items) name = name := by
  obtain ⟨target, -, renamed⟩ := op_mem_threadAfter member
  obtain ⟨source, -, rfl⟩ := Option.map_eq_some_iff.mp renamed.symm
  exact finalTarget_final _ _

theorem thread_again (items : List Item) : thread (thread items) = thread items := by
  refine threadAfter_of_final none (fun name member => ?_) fun ins name member => ?_
  · rw [thread, labelNames_threadAfter, mem_filter] at member
    exact finalTarget_thread (of_decide_eq_true member.2)
  · exact finalTarget_thread (target_final member)

/-! ## Jumps to jumps -/

/-- The label is followed, possibly through further labels, by a symbolic jump to `next`. -/
def JumpsOn (items : List Item) (name next : String) : Prop :=
  ∃ before after, items = before ++ .label name :: after ∧ leadingJump? after = some next

theorem JumpsOn.mem_redirects (jumps : JumpsOn items name next) : (name, next) ∈ redirects items := by
  obtain ⟨before, after, rfl, leads⟩ := jumps
  induction before with
  | nil => simp [redirects, leads]
  | cons item before ih =>
    cases item with
    | label other =>
      rw [cons_append, redirects]
      split
      · exact mem_cons_of_mem _ ih
      · exact ih
    | op ins target => exact ih

theorem JumpsOn.redirected (jumps : JumpsOn items name next) :
    (redirect? (redirects items) name).isSome := by
  rw [redirect?, lookup_isSome_iff]
  exact ⟨_, mem_reverse.mpr jumps.mem_redirects, beq_self_eq_true _⟩

theorem jumpsOn_of_redirect? (redirected : redirect? (redirects items) name = some next) :
    JumpsOn items name next := leads_of_redirects (redirect?_mem redirected)

/-- From a redirected label on a cycle the jumps lead around it. -/
theorem jumps_around (cyclic : name ∈ periodicPts (nextLabel (redirects items)))
    (moves : (redirect? (redirects items) name).isSome) :
    Relation.TransGen (JumpsOn items) name name := by
  have onward (k : Nat) : JumpsOn items ((nextLabel (redirects items))^[k] name)
      ((nextLabel (redirects items))^[k + 1] name) := by
    obtain ⟨next, found⟩ := Option.isSome_iff_exists.mp (redirected_on_cycle cyclic moves k)
    rw [iterate_succ_apply', nextLabel, found]
    exact jumpsOn_of_redirect? found
  have path (k : Nat) :
      Relation.TransGen (JumpsOn items) name ((nextLabel (redirects items))^[k + 1] name) := by
    induction k with
    | zero => exact .single (onward 0)
    | succ k ih => exact ih.tail (onward (k + 1))
  obtain ⟨period, positive, returns⟩ := cyclic
  obtain ⟨k, rfl⟩ : ∃ k, period = k + 1 := ⟨period - 1, by omega⟩
  have whole := path k
  rwa [returns.eq] at whole

/-- Threading again changes nothing, and no instruction of threaded code aims at a label in front of a
symbolic jump unless such jumps lead from that label back to it. -/
theorem thread_complete (items : List Item) :
    thread (thread items) = thread items ∧
      ∀ ins target next, .op ins (some target) ∈ thread items → JumpsOn (thread items) target next →
        Relation.TransGen (JumpsOn (thread items)) target target := by
  refine ⟨thread_again items, fun ins target next member jumps => ?_⟩
  have cyclic := finalTarget_eq_iff.mp (finalTarget_thread (target_final member))
  exact jumps_around cyclic jumps.redirected

/-- A branch to a jump into a circle of two jumps. -/
def circling : List Item :=
  [.jumpIf 0 "in", .halt, .label "in", .jump "left", .label "left", .jump "right", .label "right",
    .jump "left"]

theorem circling_threads :
    thread circling = [.jumpIf 0 "left", .halt, .label "left", .jump "right", .label "right",
      .jump "left"] ∧
    thread (thread circling) = thread circling ∧
    Relation.TransGen (JumpsOn (thread circling)) "left" "left" :=
  ⟨by decide, (thread_complete circling).1,
    (thread_complete circling).2 ⟨.jumpIf, .CB, 0, 0⟩ "left" "right" (by decide)
      ⟨[.jumpIf 0 "left", .halt], [.jump "right", .label "right", .jump "left"], by decide, by decide⟩⟩

end Triangle.Code
