import Mathlib
import Triangle.Proofs.Code.Threading

/-! Where control lands in symbolic code once it has passed labels and followed jumps, and that jump
threading keeps it: the instructions that are neither labels nor symbolic jumps stay, in order, and
control gets from each to the same others. -/
namespace Triangle.Code
open List

/-! ## Landings -/

/-- Whether an item is an instruction that control comes to rest at: no label, no symbolic jump. -/
def Item.lasting : Item → Bool
  | .label _ => false
  | .op ins target => !(ins.op == .jump && target.isSome)

/-- The item with another name for its target. -/
def Item.retarget (rename : String → String) : Item → Item
  | .label name => .label name
  | .op ins target => .op ins (target.map rename)

/-- The label that the item aims at, if it aims at one. -/
def Item.target? : Item → Option String
  | .label _ => none
  | .op _ target => target

/-- Where control goes from a position on its own: past a label, or along a symbolic jump. -/
def hop? (items : List Item) (x : Nat) : Option Nat :=
  match items[x]? with
  | some (.label _) => some (x + 1)
  | some (.op ins (some name)) => if ins.op = .jump then items.idxOf? (.label name) else none
  | _ => none

/-- Control gets from one position to another in so many hops. -/
inductive Hops (items : List Item) : Nat → Nat → Nat → Prop
  | here (x : Nat) : Hops items 0 x x
  | next {n x y z : Nat} (first : hop? items x = some y) (rest : Hops items n y z) :
      Hops items (n + 1) x z

/-- The item stands at `x`, and `k` of the lasting ones stand before it. -/
structure StandsAt (items : List Item) (k x : Nat) (item : Item) : Prop where
  here : items[x]? = some item
  lasting : item.lasting = true
  rank : (items.take x).countP Item.lasting = k

/-- An instruction by its rank among the lasting ones, the end of the code, or a circle of jumps. -/
inductive Landing where
  | instruction (rank : Nat)
  | finish
  | endless

/-- Where control lands from `x`. -/
inductive Lands (items : List Item) (x : Nat) : Landing → Prop
  | instruction {n y k : Nat} {item : Item} (hops : Hops items n x y)
      (stands : StandsAt items k y item) : Lands items x (.instruction k)
  | finish {n : Nat} (hops : Hops items n x items.length) : Lands items x .finish
  | endless (hops : ∀ n, ∃ y, Hops items n x y) : Lands items x .endless

/-- Where control lands from a label. -/
def LabelLands (items : List Item) (name : String) (landing : Landing) : Prop :=
  ∃ x, items.idxOf? (.label name) = some x ∧ Lands items x landing

/-- No label occurs twice, and every target is a label of the code. -/
structure Linked (items : List Item) : Prop where
  distinct : (labelNames items).Nodup
  defined : ∀ item ∈ items, ∀ name ∈ item.target?, name ∈ labelNames items

variable {items : List Item} {x y z n m k : Nat} {item : Item} {name : String} {landing : Landing}

theorem Hops.trans (first : Hops items n x y) (second : Hops items m y z) :
    Hops items (n + m) x z := by
  induction first with
  | here => simpa using second
  | next first _ ih =>
    rw [Nat.add_right_comm]
    exact .next first (ih second)

/-- A run of hops can be cut short. -/
theorem Hops.cut (hops : Hops items n x y) (less : m ≤ n) : ∃ z, Hops items m x z := by
  induction hops generalizing m with
  | here x =>
    obtain rfl : m = 0 := by omega
    exact ⟨x, .here x⟩
  | @next n x y z first _ ih =>
    cases m with
    | zero => exact ⟨x, .here x⟩
    | succ m =>
      obtain ⟨w, rest⟩ := ih (Nat.le_of_succ_le_succ less)
      exact ⟨w, .next first rest⟩

/-- Two runs of hops from one position go along each other. -/
theorem Hops.along (first : Hops items (n + m) x y) (second : Hops items n x z) :
    Hops items m z y := by
  induction second with
  | here => simpa using first
  | @next n x w z one _ ih =>
    rw [Nat.add_right_comm] at first
    cases first with
    | next one' rest =>
      cases one.symm.trans one'
      exact ih rest

/-- Where control rests no hop leads on, so a run that ends there is as long as any. -/
theorem Hops.rest (hops : Hops items n x y) (rests : hop? items y = none) (other : Hops items m x z) :
    m ≤ n ∧ Hops items (n - m) z y := by
  have short : m ≤ n := by
    by_contra long
    obtain ⟨w, more⟩ : ∃ w, Hops items (n + 1) x w := other.cut (by omega)
    cases more.along hops with
    | next one _ => simp [rests] at one
  refine ⟨short, Hops.along ?_ other⟩
  rwa [Nat.add_sub_cancel' short]

theorem hop?_length (items : List Item) : hop? items items.length = none := by simp [hop?]

theorem StandsAt.rests (stands : StandsAt items k x item) : hop? items x = none := by
  have lasting := stands.lasting
  rw [hop?, stands.here]
  cases item with
  | label name => cases lasting
  | op ins target =>
    cases target with
    | none => rfl
    | some name => simp_all [Item.lasting]

theorem StandsAt.less (stands : StandsAt items k x item) : x < items.length :=
  (List.getElem?_eq_some_iff.mp stands.here).1

/-- A rank is that of one position. -/
theorem StandsAt.unique {item' : Item} (first : StandsAt items k x item)
    (second : StandsAt items k y item') : x = y := by
  have before {x y : Nat} {item : Item} (here : StandsAt items k x item)
      (rank : (items.take y).countP Item.lasting = k) : y ≤ x := by
    by_contra less
    have split : (items.take (x + 1)).countP Item.lasting = k + 1 := by
      rw [take_add_one, here.here, countP_append, here.rank]
      simp [here.lasting]
    have more : (items.take (x + 1)).countP Item.lasting ≤ (items.take y).countP Item.lasting :=
      (take_prefix_take_left (by omega)).sublist.countP_le
    omega
  exact Nat.le_antisymm (before second first.rank) (before first second.rank)

/-- Control lands at one place. -/
theorem Lands.unique {landing' : Landing} (first : Lands items x landing)
    (second : Lands items x landing') : landing = landing' := by
  have ends {n y : Nat} (hops : Hops items n x y) (rests : hop? items y = none) :
      ¬∀ n, ∃ z, Hops items n x z := by
    intro endless
    obtain ⟨z, more⟩ := endless (n + 1)
    have := (hops.rest rests more).1
    omega
  have same {n m y z : Nat} (hops : Hops items n x y) (rests : hop? items y = none)
      (hops' : Hops items m x z) (rests' : hop? items z = none) : y = z := by
    obtain ⟨less, more⟩ := hops.rest rests hops'
    obtain ⟨less', _⟩ := hops'.rest rests' hops
    rw [show n - m = 0 by omega] at more
    cases more
    rfl
  cases first with
  | instruction hops stands =>
    cases second with
    | instruction hops' stands' =>
      cases same hops stands.rests hops' stands'.rests
      rw [← stands.rank, stands'.rank]
    | finish hops' =>
      cases same hops stands.rests hops' (hop?_length items)
      exact absurd stands.less (Nat.lt_irrefl _)
    | endless hops' => exact absurd hops' (ends hops stands.rests)
  | finish hops =>
    cases second with
    | instruction hops' stands' =>
      cases same hops (hop?_length items) hops' stands'.rests
      exact absurd stands'.less (Nat.lt_irrefl _)
    | finish => rfl
    | endless hops' => exact absurd hops' (ends hops (hop?_length items))
  | endless hops =>
    cases second with
    | instruction hops' stands' => exact absurd hops (ends hops' stands'.rests)
    | finish hops' => exact absurd hops (ends hops' (hop?_length items))
    | endless => rfl

theorem hop?_inside (hop : hop? items x = some y) : y ≤ items.length := by
  unfold hop? at hop
  split at hop
  · rename_i here
    cases hop
    exact (List.getElem?_eq_some_iff.mp here).1
  · split at hop
    · exact (List.idxOf?_eq_some_iff.mp hop).1.le
    · cases hop
  · cases hop

theorem Hops.inside (hops : Hops items n x y) (inside : x ≤ items.length) : y ≤ items.length := by
  induction hops with
  | here => exact inside
  | next first _ ih => exact ih (hop?_inside first)

/-- In linked code control rests only at lasting instructions and at the end. -/
theorem Linked.rests (linked : Linked items) (inside : x ≤ items.length)
    (rests : hop? items x = none) :
    x = items.length ∨ ∃ k item, StandsAt items k x item := by
  rcases Nat.lt_or_eq_of_le inside with less | same
  · refine .inr ⟨_, items[x], ⟨getElem?_eq_getElem less, ?_, rfl⟩⟩
    rw [hop?, getElem?_eq_getElem less] at rests
    have member : items[x] ∈ items := getElem_mem less
    cases here : items[x] with
    | label name => simp [here] at rests
    | op ins target =>
      cases target with
      | none => simp [Item.lasting]
      | some name =>
        rw [here] at member
        simp only [here] at rests
        by_cases jump : ins.op = .jump
        · rw [if_pos jump, idxOf?_eq_none_iff] at rests
          exact absurd (mem_labelNames.mp (linked.defined _ member name rfl)) rests
        · simp [Item.lasting, jump]
  · exact .inl same

/-- In linked code control lands somewhere. -/
theorem Linked.lands (linked : Linked items) (inside : x ≤ items.length) :
    ∃ landing, Lands items x landing := by
  by_cases endless : ∀ n, ∃ y, Hops items n x y
  · exact ⟨.endless, .endless endless⟩
  obtain ⟨n, y, hops, rests⟩ : ∃ n y, Hops items n x y ∧ hop? items y = none := by
    by_contra onward
    push Not at onward
    refine endless fun n => ?_
    induction n with
    | zero => exact ⟨x, .here x⟩
    | succ n ih =>
      obtain ⟨y, hops⟩ := ih
      obtain ⟨z, one⟩ := Option.ne_none_iff_exists'.mp (onward n y hops)
      exact ⟨z, hops.trans (.next one (.here z))⟩
  rcases linked.rests (hops.inside inside) rests with rfl | ⟨k, item, stands⟩
  · exact ⟨.finish, .finish hops⟩
  · exact ⟨_, .instruction hops stands⟩

/-- Control lands where it lands after some hops. -/
theorem Hops.lands_iff (hops : Hops items n x y) : Lands items y landing ↔ Lands items x landing := by
  constructor
  · intro lands
    cases lands with
    | instruction more stands => exact .instruction (hops.trans more) stands
    | finish more => exact .finish (hops.trans more)
    | endless more =>
      refine .endless fun m => ?_
      obtain ⟨z, rest⟩ := more m
      exact (hops.trans rest).cut (Nat.le_add_left m n)
  · intro lands
    cases lands with
    | instruction more stands => exact .instruction (more.rest stands.rests hops).2 stands
    | finish more => exact .finish (more.rest (hop?_length items) hops).2
    | endless more =>
      refine .endless fun m => ?_
      obtain ⟨z, whole⟩ := more (n + m)
      exact ⟨z, whole.along hops⟩

/-! ## Labels -/

variable {before after : List Item}

/-- Where a label stands that occurs once. -/
theorem idxOf?_label (distinct : (labelNames (before ++ .label name :: after)).Nodup) :
    (before ++ .label name :: after).idxOf? (.label name) = some before.length := by
  have missing : Item.label name ∉ before := by
    intro member
    rw [labelNames_append, labelNames_label] at distinct
    exact (nodup_append.mp distinct).2.2 name (mem_labelNames.mpr member) name (by simp) rfl
  have none : before.findIdx? (· == .label name) = none := idxOf?_eq_none_iff.mpr missing
  simp [idxOf?, findIdx?_append, findIdx?_cons, none]

/-- Control passes a label. -/
theorem hops_label (whole : items = before ++ .label name :: after) :
    Hops items 1 before.length (before.length + 1) := by
  refine .next ?_ (.here _)
  simp [hop?, whole]

/-- From labels before a symbolic jump control gets to the jump's target. -/
theorem hops_leadingJump {target : String} (leads : leadingJump? after = some target)
    (whole : items = before ++ after) (found : items.idxOf? (.label target) = some z) :
    ∃ n, Hops items (n + 1) before.length z := by
  induction after generalizing before with
  | nil => cases leads
  | cons item after ih =>
    cases item with
    | label name =>
      obtain ⟨n, rest⟩ := @ih (before ++ [.label name]) leads (by simpa using whole)
      rw [length_append] at rest
      exact ⟨n + 1, Nat.add_comm 1 (n + 1) ▸ (hops_label whole).trans rest⟩
    | op ins aim =>
      simp only [leadingJump?] at leads
      split at leads
      · rename_i jump
        subst leads
        have here : hop? items before.length = items.idxOf? (.label target) := by
          simp [hop?, whole, jump]
        exact ⟨0, .next (here.trans found) (.here z)⟩
      · cases leads

theorem Linked.place (linked : Linked items) (known : name ∈ labelNames items) :
    ∃ before after, items = before ++ .label name :: after ∧
      items.idxOf? (.label name) = some before.length := by
  obtain ⟨before, after, rfl⟩ := append_of_mem (mem_labelNames.mp known)
  exact ⟨before, after, rfl, idxOf?_label linked.distinct⟩

/-- What follows a redirected label leads to its redirection. -/
theorem Linked.leads {target : String} (linked : Linked items)
    (whole : items = before ++ .label name :: after)
    (redirected : redirect? (redirects items) name = some target) :
    leadingJump? after = some target := by
  obtain ⟨before', after', whole', leads⟩ := leads_of_redirects (redirect?_mem redirected)
  have place : items.idxOf? (.label name) = some before.length := by
    rw [whole]
    exact idxOf?_label (whole ▸ linked.distinct)
  have place' : items.idxOf? (.label name) = some before'.length := by
    rw [whole']
    exact idxOf?_label (whole' ▸ linked.distinct)
  have length : before.length = before'.length := Option.some.inj (place.symm.trans place')
  obtain ⟨_, same⟩ := append_inj (whole.symm.trans whole') length
  cases same
  exact leads

/-- A jump's target is a label. -/
theorem Linked.known_of_leads {target : String} (linked : Linked items) (whole : items = before ++ after)
    (leads : leadingJump? after = some target) : target ∈ labelNames items := by
  obtain ⟨between, ins, rest, rfl, _⟩ := leadingJump?_eq_some leads
  have member : .op ins (some target) ∈ items := by simp [whole]
  exact linked.defined _ member target rfl

/-- Along redirections control gets from label to label. -/
theorem Linked.hops_chain (linked : Linked items) {a b : String}
    (chain : Relation.ReflTransGen (fun a b => redirect? (redirects items) a = some b) a b)
    (known : a ∈ labelNames items) :
    b ∈ labelNames items ∧ ∃ n x y, items.idxOf? (.label a) = some x ∧
      items.idxOf? (.label b) = some y ∧ Hops items n x y := by
  induction chain with
  | refl =>
    obtain ⟨before, _, _, found⟩ := linked.place known
    exact ⟨known, 0, _, _, found, found, .here _⟩
  | @tail b c _ redirected ih =>
    obtain ⟨known', n, x, y, found, found', hops⟩ := ih
    obtain ⟨before, after, whole, place⟩ := linked.place known'
    cases place.symm.trans found'
    have leads := linked.leads whole redirected
    have onward : items = (before ++ [.label b]) ++ after := by simpa using whole
    have aim := linked.known_of_leads onward leads
    obtain ⟨_, _, _, found''⟩ := linked.place aim
    obtain ⟨m, rest⟩ := hops_leadingJump leads onward found''
    rw [length_append] at rest
    exact ⟨aim, _, x, _, found, found'', hops.trans ((hops_label whole).trans rest)⟩

/-! ## Threaded code -/

theorem Item.lasting_retarget (rename : String → String) (item : Item) :
    (item.retarget rename).lasting = item.lasting := by
  cases item with
  | label => rfl
  | op ins target => cases target <;> rfl

/-- Threading goes on after a part of the code from what it has kept of it: all that lasts. Where it
has dropped the labels before, a symbolic jump follows. -/
theorem Linked.thread_split (linked : Linked items) (whole : items = before ++ after) :
    ∃ out last dropped,
      thread items = out ++ threadAfter (redirects items) last dropped after ∧
      (dropped = true → (leadingJump? after).isSome) ∧
      out.filter Item.lasting =
        (before.filter Item.lasting).map (Item.retarget (finalTarget (redirects items))) := by
  induction before using reverseRecOn generalizing after with
  | nil => exact ⟨[], none, false, by rw [whole]; rfl, by simp, rfl⟩
  | append_singleton before item ih =>
    rw [append_assoc] at whole
    obtain ⟨out, last, dropped, rest, ready, kept⟩ := ih whole
    rw [singleton_append] at rest ready whole
    cases item with
    | label name =>
      simp only [threadAfter] at rest
      split at rest
      · rename_i moved
        refine ⟨out, last, true, rest, fun _ => ?_, by simpa [Item.lasting] using kept⟩
        cases redirected : redirect? (redirects items) name with
        | none => simp [finalTarget, follow, redirected] at moved
        | some target => simp [linked.leads whole redirected]
      · refine ⟨out ++ [.label name], some (.label name), false, by simpa using rest, by simp, ?_⟩
        simpa [Item.lasting] using kept
    | op ins target =>
      simp only [threadAfter] at rest
      split at rest
      · rename_i gone
        simp only [Bool.and_eq_true, beq_iff_eq] at gone
        obtain ⟨⟨first, jump⟩, _⟩ := gone
        have symbolic := ready first
        simp only [leadingJump?, jump, if_true] at symbolic
        refine ⟨out, last, false, rest, by simp, ?_⟩
        simpa [Item.lasting, jump, symbolic] using kept
      · refine ⟨out ++ [.op ins (target.map (finalTarget (redirects items)))], _, false,
          by simpa using rest, by simp, ?_⟩
        have same := Item.lasting_retarget (finalTarget (redirects items)) (.op ins target)
        simp only [Item.retarget] at same
        rw [filter_append, kept, filter_append, map_append]
        cases lasts : (Item.op ins target).lasting with
        | false => simp [same, lasts]
        | true => simp [same, lasts, Item.retarget]

theorem Linked.threaded (linked : Linked items) : Linked (thread items) where
  distinct := by
    rw [thread, labelNames_threadAfter]
    exact linked.distinct.filter _
  defined item member name aims := by
    cases item with
    | label => cases aims
    | op ins aim =>
      obtain ⟨target, inside, same⟩ := op_mem_threadAfter member
      obtain ⟨source, rfl, rfl⟩ := Option.map_eq_some_iff.mp (same.symm.trans aims)
      have chain := follow_leads (redirects items) ((redirects items).length + 1) [] source
      rw [thread, labelNames_threadAfter, mem_filter]
      exact ⟨(linked.hops_chain chain (linked.defined _ inside source rfl)).1,
        by simp [finalTarget_final]⟩

/-- The threaded code is as far as the code, and no jump that comes next is left out. -/
inductive Abreast (items : List Item) : Nat → Nat → Prop
  | intro {before after out : List Item} {last : Option Item} {dropped : Bool}
      (whole : items = before ++ after)
      (whole' : thread items = out ++ threadAfter (redirects items) last dropped after)
      (falls : last.any transfers = false)
      (kept : out.countP Item.lasting = before.countP Item.lasting) :
      Abreast items before.length out.length

/-- Both codes are at their end, both rest at one instruction, or both go on. -/
inductive Pace (items : List Item) (x y : Nat) : Prop
  | finish (all : x = items.length) (all' : y = (thread items).length)
  | rest {k : Nat} {item item' : Item} (stands : StandsAt items k x item)
      (stands' : StandsAt (thread items) k y item')
  | move {n m x' y' : Nat} (hops : Hops items (n + 1) x x')
      (hops' : Hops (thread items) (m + 1) y y') (abreast : Abreast items x' y')

theorem countP_of_filter {out : List Item}
    (kept : out.filter Item.lasting =
      (before.filter Item.lasting).map (Item.retarget (finalTarget (redirects items)))) :
    out.countP Item.lasting = before.countP Item.lasting := by
  simpa [countP_eq_length_filter] using congrArg List.length kept

/-- Behind a label that is kept both codes are abreast. -/
theorem Linked.abreast_label (linked : Linked items) (known : name ∈ labelNames items)
    (kept : finalTarget (redirects items) name = name) :
    ∃ x y, items.idxOf? (.label name) = some x ∧ (thread items).idxOf? (.label name) = some y ∧
      Hops items 1 x (x + 1) ∧ Hops (thread items) 1 y (y + 1) ∧ Abreast items (x + 1) (y + 1) := by
  obtain ⟨before, after, whole, place⟩ := linked.place known
  obtain ⟨out, last, dropped, rest, _, lasts⟩ := linked.thread_split whole
  simp only [threadAfter, kept, ne_eq, not_true_eq_false, if_false] at rest
  have place' : (thread items).idxOf? (.label name) = some out.length := by
    rw [rest]
    exact idxOf?_label (rest ▸ linked.threaded.distinct)
  refine ⟨before.length, out.length, place, place', hops_label whole, hops_label rest, ?_⟩
  have onward : items = (before ++ [.label name]) ++ after := by simpa using whole
  have onward' : thread items = (out ++ [.label name]) ++
      threadAfter (redirects items) (some (.label name)) false after := by simpa using rest
  simpa using Abreast.intro onward onward' rfl (by simpa using countP_of_filter lasts)

/-- From a target, and from what threading makes of it, control gets to where both are abreast. -/
theorem Linked.abreast_target (linked : Linked items) (known : name ∈ labelNames items) :
    ∃ n x x' y y', items.idxOf? (.label name) = some x ∧
      (thread items).idxOf? (.label (finalTarget (redirects items) name)) = some y ∧
      Hops items n x x' ∧ Hops (thread items) 1 y y' ∧ Abreast items x' y' := by
  have chain := follow_leads (redirects items) ((redirects items).length + 1) [] name
  obtain ⟨known', n, x, z, found, found', hops⟩ := linked.hops_chain chain known
  obtain ⟨z', y, place, place', one, one', abreast⟩ :=
    linked.abreast_label known' (finalTarget_final (redirects items) name)
  cases place.symm.trans found'
  exact ⟨n + 1, x, _, y, _, found, place', hops.trans one, one', abreast⟩

/-- Labels that are dropped take a hop in the one code and none in the other. -/
theorem Abreast.pace (linked : Linked items) (abreast : Abreast items x y) :
    ∃ n x', Hops items n x x' ∧ Pace items x' y := by
  obtain ⟨whole, whole', falls, kept⟩ := abreast
  rename_i before after out last dropped
  induction after generalizing before last dropped with
  | nil =>
    refine ⟨0, _, .here _, .finish ?_ ?_⟩
    · simp [whole]
    · simp [whole', threadAfter]
  | cons item after ih =>
    have onward : items = (before ++ [item]) ++ after := by simpa using whole
    cases item with
    | label name =>
      simp only [threadAfter] at whole'
      split at whole'
      · obtain ⟨n, x', hops, pace⟩ := ih onward whole' falls (by simpa [Item.lasting] using kept)
        rw [length_append] at hops
        exact ⟨1 + n, x', (hops_label whole).trans hops, pace⟩
      · refine ⟨0, _, .here _, .move (hops_label whole) (hops_label whole') ?_⟩
        have onward' : thread items = (out ++ [.label name]) ++
            threadAfter (redirects items) (some (.label name)) false after := by simpa using whole'
        simpa using Abreast.intro onward onward' rfl (by simpa using kept)
    | op ins target =>
      simp only [threadAfter, falls, Bool.and_false, Bool.false_eq_true, if_false] at whole'
      refine ⟨0, _, .here _, ?_⟩
      cases lasts : (Item.op ins target).lasting with
      | true =>
        refine .rest (k := before.countP Item.lasting) ⟨by simp [whole], lasts, by simp [whole]⟩
          ⟨by rw [whole']; simp; rfl, ?_, by simp [whole', kept]⟩
        exact (Item.lasting_retarget (finalTarget (redirects items)) (.op ins target)).trans lasts
      | false =>
        simp only [Item.lasting, Bool.not_eq_false', Bool.and_eq_true, beq_iff_eq] at lasts
        obtain ⟨jump, aimed⟩ := lasts
        obtain ⟨name, rfl⟩ := Option.isSome_iff_exists.mp aimed
        have member : .op ins (some name) ∈ items := by simp [whole]
        have known : name ∈ labelNames items := linked.defined _ member name rfl
        obtain ⟨n, z, x', w, y', found, found', hops, hops', abreast⟩ := linked.abreast_target known
        have first : hop? items before.length = some z := by simpa [hop?, whole, jump] using found
        have first' : hop? (thread items) out.length = some w := by
          simpa [hop?, whole', jump] using found'
        exact .move (.next first hops) (.next first' hops') abreast

/-! ## Threading keeps landings -/

theorem Pace.rests_iff (pace : Pace items x y) :
    hop? (thread items) y = none ↔
      (x = items.length ∧ y = (thread items).length) ∨
        ∃ k item item', StandsAt items k x item ∧ StandsAt (thread items) k y item' := by
  constructor
  · intro rests
    cases pace with
    | finish all all' => exact .inl ⟨all, all'⟩
    | rest stands stands' => exact .inr ⟨_, _, _, stands, stands'⟩
    | move _ hops' =>
      cases hops' with
      | next first _ => simp [rests] at first
  · rintro (⟨_, rfl⟩ | ⟨k, item, item', _, stands'⟩)
    · exact hop?_length _
    · exact stands'.rests

/-- Where the threaded code comes to rest the code comes to rest too. -/
theorem Abreast.rest (linked : Linked items) (abreast : Abreast items x y)
    (hops : Hops (thread items) n y z) (rests : hop? (thread items) z = none) :
    ∃ m x', Hops items m x x' ∧ Pace items x' z := by
  induction n using Nat.strongRecOn generalizing x y with
  | ind n ih =>
    obtain ⟨k, x', first, pace⟩ := abreast.pace linked
    by_cases still : hop? (thread items) y = none
    · obtain ⟨_, more⟩ := (Hops.here y).rest still hops
      rw [Nat.zero_sub] at more
      cases more
      exact ⟨k, x', first, pace⟩
    · cases pace with
      | finish all all' => exact absurd (all' ▸ hop?_length _) still
      | rest stands stands' => exact absurd stands'.rests still
      | move moves moves' abreast' =>
        obtain ⟨less, more⟩ := hops.rest rests moves'
        obtain ⟨m, x'', later, pace'⟩ := ih _ (by omega) abreast' more
        exact ⟨_, x'', first.trans (moves.trans later), pace'⟩

/-- As long as the threaded code goes on the code goes on too. -/
theorem Abreast.onward (linked : Linked items) (abreast : Abreast items x y)
    (endless : ∀ n, ∃ z, Hops (thread items) n y z) (n : Nat) : ∃ m ≥ n, ∃ z, Hops items m x z := by
  induction n generalizing x y with
  | zero => exact ⟨0, Nat.le_refl 0, x, .here x⟩
  | succ n ih =>
    have moves : hop? (thread items) y ≠ none := by
      obtain ⟨z, one⟩ := endless 1
      cases one with
      | next first _ => simp [first]
    obtain ⟨k, x', first, pace⟩ := abreast.pace linked
    cases pace with
    | finish all all' => exact absurd (all' ▸ hop?_length _) moves
    | rest stands stands' => exact absurd stands'.rests moves
    | @move a b x'' y' hops hops' abreast' =>
      have later (n : Nat) : ∃ z, Hops (thread items) n y' z := by
        obtain ⟨z, whole⟩ := endless (b + 1 + n)
        exact ⟨z, whole.along hops'⟩
      obtain ⟨m, enough, z, rest⟩ := ih abreast' later
      exact ⟨_, by omega, z, first.trans (hops.trans rest)⟩

theorem Abreast.lands (linked : Linked items) (abreast : Abreast items x y)
    (lands : Lands (thread items) y landing) : Lands items x landing := by
  cases lands with
  | instruction hops stands =>
    obtain ⟨m, x', hops', pace⟩ := abreast.rest linked hops stands.rests
    rcases pace.rests_iff.mp stands.rests with ⟨_, rfl⟩ | ⟨k, item, item', here, here'⟩
    · exact absurd stands.less (Nat.lt_irrefl _)
    · rw [← stands.rank, here'.rank]
      exact .instruction hops' here
  | finish hops =>
    obtain ⟨m, x', hops', pace⟩ := abreast.rest linked hops (hop?_length _)
    rcases pace.rests_iff.mp (hop?_length _) with ⟨rfl, _⟩ | ⟨k, item, item', here, here'⟩
    · exact .finish hops'
    · exact absurd here'.less (Nat.lt_irrefl _)
  | endless hops =>
    refine .endless fun n => ?_
    obtain ⟨m, enough, z, more⟩ := abreast.onward linked hops n
    exact more.cut enough

theorem Abreast.lands_iff (linked : Linked items) (abreast : Abreast items x y) :
    Lands (thread items) y landing ↔ Lands items x landing := by
  refine ⟨abreast.lands linked, fun lands => ?_⟩
  have inside : y ≤ (thread items).length := by
    obtain ⟨_, whole', _, _⟩ := abreast
    simp [whole']
  obtain ⟨landing', lands'⟩ := linked.threaded.lands inside
  cases (abreast.lands linked lands').unique lands
  exact lands'

theorem Linked.labelLands_iff (linked : Linked items) (known : name ∈ labelNames items) :
    LabelLands (thread items) (finalTarget (redirects items) name) landing ↔
      LabelLands items name landing := by
  obtain ⟨n, x, x', y, y', found, found', hops, hops', abreast⟩ := linked.abreast_target known
  have same : Lands (thread items) y landing ↔ Lands items x landing :=
    hops'.lands_iff.symm.trans ((abreast.lands_iff linked).trans hops.lands_iff)
  simpa [LabelLands, found, found'] using same

/-- Where an instruction that lasts stands after threading, and what it is then. -/
theorem Linked.stands (linked : Linked items) (stands : StandsAt items k x item) :
    ∃ y, StandsAt (thread items) k y (item.retarget (finalTarget (redirects items))) ∧
      (transfers item = false → Abreast items (x + 1) (y + 1)) := by
  have less := stands.less
  have here : items[x] = item := (List.getElem?_eq_some_iff.mp stands.here).2
  have whole : items = items.take x ++ item :: items.drop (x + 1) := by
    rw [← here, List.getElem_cons_drop, List.take_append_drop]
  obtain ⟨out, last, dropped, rest, ready, kept⟩ := linked.thread_split whole
  have count := countP_of_filter kept
  have lasts := stands.lasting
  cases item with
  | label name => cases lasts
  | op ins target =>
    have stays : ¬(dropped && ins.op == .jump && last.any transfers) = true := by
      simp only [Bool.and_eq_true, beq_iff_eq]
      rintro ⟨⟨first, jump⟩, _⟩
      have symbolic := ready first
      simp only [leadingJump?, jump, if_true] at symbolic
      simp [Item.lasting, jump, symbolic] at lasts
    rw [threadAfter, if_neg stays] at rest
    have lasts' := (Item.lasting_retarget (finalTarget (redirects items)) (.op ins target)).trans lasts
    refine ⟨out.length, ⟨by rw [rest]; simp [Item.retarget], lasts', ?_⟩, fun falls => ?_⟩
    · rw [rest, take_left, count, stands.rank]
    · have onward : items = (items.take x ++ [.op ins target]) ++ items.drop (x + 1) := by
        simpa using whole
      have onward' : thread items = (out ++ [.op ins (target.map (finalTarget (redirects items)))]) ++
          threadAfter (redirects items)
            (some (.op ins (target.map (finalTarget (redirects items))))) false
            (items.drop (x + 1)) := by simpa using rest
      have one : (Item.op ins (target.map (finalTarget (redirects items)))).lasting = true := lasts'
      have abreast := Abreast.intro onward onward' (by simpa [transfers] using falls)
        (by simp [count, one, lasts])
      simpa [Nat.min_eq_left less.le] using abreast

/-- The second code has the instructions of the first that last, with other names for their targets.
Control gets from the start to the same one in both, and from each to the same others, by its target
and by going on. It goes on from all but a return, a halt, a jump to an address on the stack and one to
a fixed address, the only `JUMP` that lasts. -/
structure SameFlow (items items' : List Item) : Prop where
  instructions : ∃ rename, items'.filter Item.lasting =
    (items.filter Item.lasting).map (Item.retarget rename)
  start : ∀ landing, Lands items' 0 landing ↔ Lands items 0 landing
  target : ∀ {k x x' ins ins' name name'}, StandsAt items k x (.op ins (some name)) →
    StandsAt items' k x' (.op ins' (some name')) →
      ∀ landing, LabelLands items' name' landing ↔ LabelLands items name landing
  next : ∀ {k x x' ins ins' target target'}, StandsAt items k x (.op ins target) →
    StandsAt items' k x' (.op ins' target') → ins.op ∉ [Op.jump, .jumpI, .ret, .halt] →
      ∀ landing, Lands items' (x' + 1) landing ↔ Lands items (x + 1) landing

/-- Threading keeps where control goes in code whose labels are distinct and whose targets are
defined, and such code it stays. -/
theorem thread_keeps_flow (linked : Linked items) :
    SameFlow items (thread items) ∧ Linked (thread items) := by
  refine ⟨⟨?_, ?_, ?_, ?_⟩, linked.threaded⟩
  · obtain ⟨out, last, dropped, rest, _, kept⟩ := linked.thread_split (append_nil items).symm
    rw [threadAfter, append_nil] at rest
    exact ⟨_, rest ▸ kept⟩
  · intro landing
    have abreast : Abreast items ([] : List Item).length ([] : List Item).length :=
      .intro (nil_append items).symm rfl rfl rfl
    exact abreast.lands_iff linked
  · intro k x x' ins ins' name name' stands stands' landing
    obtain ⟨y, there, _⟩ := linked.stands stands
    cases there.unique stands'
    cases Option.some.inj (there.here.symm.trans stands'.here)
    have known := linked.defined _ (mem_of_getElem? stands.here) name rfl
    exact linked.labelLands_iff known
  · intro k x x' ins ins' target target' stands stands' goesOn landing
    obtain ⟨y, there, abreast⟩ := linked.stands stands
    cases there.unique stands'
    have falls : transfers (.op ins target) = false := by simpa [transfers, and_assoc] using goesOn
    exact (abreast falls).lands_iff linked

/-- Labels in a row, a chain of jumps, a way into a circle of jumps, and a jump that only dropped labels
lead to. -/
theorem circling_keeps_flow :
    thread [.jumpIf 0 "in", .jump "a", .label "in", .jump "round", .label "a", .label "b", .jump "c",
        .label "round", .jump "back", .label "back", .jump "round", .label "c", .halt] =
      [.jumpIf 0 "round", .jump "c", .label "round", .jump "back", .label "back", .jump "round",
        .label "c", .halt] ∧
    SameFlow [.jumpIf 0 "in", .jump "a", .label "in", .jump "round", .label "a", .label "b", .jump "c",
        .label "round", .jump "back", .label "back", .jump "round", .label "c", .halt]
      [.jumpIf 0 "round", .jump "c", .label "round", .jump "back", .label "back", .jump "round",
        .label "c", .halt] :=
  ⟨rfl, (thread_keeps_flow ⟨by decide, by decide⟩).1⟩

end Triangle.Code
