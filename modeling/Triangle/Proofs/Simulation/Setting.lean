import Mathlib
import Triangle.Proofs.Machine.Primitives
import Triangle.Proofs.Placement

/-! The code in which a program stands, and what one item of it does. Each rule leads from the view
before an item to the view after it. -/
namespace Triangle
open Machine Semantics Code

theorem Primitive.exists_target (p : Primitive) :
    ∃ target : Nat, (target : Int) = primBase + p.displacement :=
  ⟨(primBase + p.displacement).toNat, by cases p <;> decide⟩

/-- Code with the addresses of its labels. Subscripts may leave their arrays only if `leaves`, and
routines are declared only if `routines`. -/
structure Setting where
  labels : List (String × Nat)
  code : List Instruction
  size : code.length ≤ codeSize
  leaves : Prop
  routines : Prop

variable {label : String}

namespace Setting

variable {S : Setting} {α : Type} {n a b addr lb : Nat} {s : Semantics.State} {r : Reg}
  {stack below gone changed ws : List Word} {result : EStateM.Result Stop Semantics.State α}
  {after : α → Semantics.State → View → Prop}

/-- The items stand in the code from address `a` on. -/
abbrev At (S : Setting) (a : Nat) (items : List Item) : Prop := Placed S.labels S.code a items

abbrev Follows (S : Setting) (n : Nat) (v : View) (result : EStateM.Result Stop Semantics.State α)
    (after : α → Semantics.State → View → Prop) : Prop :=
  Machine.Follows S.code S.leaves n v result after

/-- The stack of a running machine fits into the data store. -/
theorem fitting {v : View}
    (follows : v.stack.length ≤ dataSize → S.Follows n v result after) :
    S.Follows n v result after :=
  fun m shows => follows shows.fits m shows

@[simp] theorem span_load : span [.load k r d] = 1 := rfl

@[simp] theorem span_loadA : span [.loadA r d] = 1 := rfl

@[simp] theorem span_loadI : span [.loadI k] = 1 := rfl

@[simp] theorem span_loadL : span [.loadL d] = 1 := rfl

@[simp] theorem span_store : span [.store k r d] = 1 := rfl

@[simp] theorem span_storeI : span [.storeI k] = 1 := rfl

@[simp] theorem span_callI : span [.callI] = 1 := rfl

@[simp] theorem span_callPrim (p : Primitive) : span [.callPrim p] = 1 := rfl

@[simp] theorem span_call (label : String) : span [.call r label] = 1 := rfl

@[simp] theorem span_jump (label : String) : span [.jump label] = 1 := rfl

@[simp] theorem span_jumpIf (label : String) : span [.jumpIf k label] = 1 := rfl

@[simp] theorem span_loadLabel (label : String) : span [.loadLabel label] = 1 := rfl

@[simp] theorem span_ret : span [.ret k d] = 1 := rfl

@[simp] theorem span_label (label : String) : span [.label label] = 0 := rfl

theorem load (placed : S.At a [.load k r d]) (holds : RegIs S.code (s.view a lb stack) r b)
    (sum : (b : Int) + d = addr) (slice : Slice stack addr ws) (count : k = ws.length)
    (rest : S.Follows n (s.view (a + 1) lb (stack ++ ws)) result after) :
    S.Follows n (s.view a lb stack) result after :=
  .step (.load (placed.plain rfl) holds sum slice count) rest

theorem loadA (placed : S.At a [.loadA r d]) (holds : RegIs S.code (s.view a lb stack) r b)
    (sum : (b : Int) + d = addr) (small : addr < 0x10000)
    (rest : S.Follows n (s.view (a + 1) lb (stack ++ [.truncate addr])) result after) :
    S.Follows n (s.view a lb stack) result after :=
  .step (.loadA (placed.plain rfl) holds sum small) rest

theorem loadL (placed : S.At a [.loadL d])
    (rest : S.Follows n (s.view (a + 1) lb (stack ++ [.truncate d])) result after) :
    S.Follows n (s.view a lb stack) result after :=
  .step (.loadL (placed.plain rfl)) rest

theorem loadI (placed : S.At a [.loadI k]) (slice : Slice stack addr ws) (count : k = ws.length)
    (rest : S.Follows n (s.view (a + 1) lb (stack ++ ws)) result after) :
    S.Follows n (s.view a lb (stack ++ [.truncate addr])) result after :=
  .step (.loadI (placed.plain rfl) rfl slice count) rest

theorem loadLabel (placed : S.At a [.loadLabel label]) (known : S.labels.lookup label = some addr)
    (rest : S.Follows n (s.view (a + 1) lb (stack ++ [.truncate addr])) result after) :
    S.Follows n (s.view a lb stack) result after := by
  obtain ⟨target, found, small, here⟩ := placed.aimed rfl
  obtain rfl : addr = target := Option.some.inj (known.symm.trans found)
  exact .step (.loadA here regIs_CB (by simp) (by omega)) rest

theorem store (placed : S.At a [.store k r d])
    (holds : RegIs S.code (s.view a lb (stack ++ ws)) r b) (sum : (b : Int) + d = addr)
    (count : k = ws.length) (replaces : Replaces stack addr ws changed)
    (rest : S.Follows n (s.view (a + 1) lb changed) result after) :
    S.Follows n (s.view a lb (stack ++ ws)) result after :=
  .step (.store (placed.plain rfl) holds sum rfl count replaces) rest

theorem storeI (placed : S.At a [.storeI k]) (count : k = ws.length)
    (replaces : Replaces stack addr ws changed)
    (rest : S.Follows n (s.view (a + 1) lb changed) result after) :
    S.Follows n (s.view a lb (stack ++ ws ++ [.truncate addr])) result after :=
  .step (.storeI (placed.plain rfl) rfl count replaces) rest

theorem push {k : Nat} (placed : S.At a [.push k])
    (rest : S.Follows n (s.view (a + span [.push k]) lb (stack ++ List.replicate k 0)) result after) :
    S.Follows n (s.view a lb stack) result after := by
  by_cases none : k = 0
  · subst none
    simpa [span, Item.push, Item.plain, Item.emitted, redundant] using rest
  · have active : redundant ⟨.push, .CB, 0, k⟩ = false := by simpa [redundant] using none
    have length : span [.push k] = 1 := by simp [span, Item.push, Item.plain, Item.emitted, active]
    rw [length] at rest
    exact .step (.push (placed.plain active)) rest

theorem pop (placed : S.At a [.pop k d]) (count : k = ws.length) (depth : d = gone.length)
    (rest : S.Follows n (s.view (a + span [.pop k d]) lb (stack ++ ws)) result after) :
    S.Follows n (s.view a lb (stack ++ gone ++ ws)) result after := by
  by_cases none : d = 0
  · have empty : gone = [] := by
      rw [← List.length_eq_zero_iff]
      omega
    subst none empty
    simpa [span, Item.pop, Item.plain, Item.emitted, redundant] using rest
  · have active : redundant ⟨.pop, .CB, k, d⟩ = false := by simpa [redundant] using none
    have length : span [.pop k d] = 1 := by simp [span, Item.pop, Item.plain, Item.emitted, active]
    rw [length] at rest
    exact .step (.pop (placed.plain active) rfl count depth) rest

/-- A jump is a step towards the bound. -/
theorem jump_on (placed : S.At a [.jump label]) (known : S.labels.lookup label = some addr)
    (rest : S.Follows n (s.view addr lb stack) result after) :
    S.Follows (n + 1) (s.view a lb stack) result after := by
  obtain ⟨target, found, small, here⟩ := placed.aimed rfl
  obtain rfl : addr = target := Option.some.inj (known.symm.trans found)
  exact .advance (.jump here (by omega)) rest

theorem jumpIf_on {truth : Bool} (placed : S.At a [.jumpIf k label])
    (known : S.labels.lookup label = some addr)
    (rest : S.Follows n (s.view (if (truth.toNat : Int) = k then addr else a + 1) lb stack) result
      after) : S.Follows (n + 1) (s.view a lb (stack ++ [.ofBool truth])) result after := by
  obtain ⟨target, found, small, here⟩ := placed.aimed rfl
  obtain rfl : addr = target := Option.some.inj (known.symm.trans found)
  have value : (Word.ofBool truth).toInt = truth.toNat := by cases truth <;> rfl
  have jumps := Advances.jumpIf (v := s.view a lb (stack ++ [.ofBool truth])) here (by omega) rfl
  rw [value] at jumps
  exact .advance jumps rest

theorem jump (placed : S.At a [.jump label]) (known : S.labels.lookup label = some addr)
    (rest : S.Follows n (s.view addr lb stack) result after) :
    S.Follows n (s.view a lb stack) result after :=
  (jump_on placed known rest).fewer (Nat.le_succ n)

theorem jumpIf {truth : Bool} (placed : S.At a [.jumpIf k label])
    (known : S.labels.lookup label = some addr)
    (rest : S.Follows n (s.view (if (truth.toNat : Int) = k then addr else a + 1) lb stack) result
      after) : S.Follows n (s.view a lb (stack ++ [.ofBool truth])) result after :=
  (jumpIf_on placed known rest).fewer (Nat.le_succ n)

/-- The address of a label that stands here. -/
theorem label_at (placed : S.At a [.label label]) : S.labels.lookup label = some a :=
  placed.1

/-! ## Calls -/

theorem call_site (placed : S.At a [.call r label])
    (known : S.labels.lookup label = some addr) (holds : RegIs S.code (s.view a lb stack) r b) :
    CallSite S.code (s.view a lb stack) addr b (s.view a lb stack) := by
  obtain ⟨target, found, small, here⟩ := placed.aimed rfl
  obtain rfl : addr = target := Option.some.inj (known.symm.trans found)
  have named : (⟨UInt8.ofInt (r.index.toNat : Int)⟩ : Reg) = r := by
    have bound : r.index.toNat < 256 := r.index.toNat_lt
    have same : ((r.index.toNat : Int) % 2 ^ 8).toNat = r.index.toNat := by omega
    rw [UInt8.ofInt, same, UInt8.ofNat_toNat]
  exact .call here regIs_CB (by simp) (by omega) (by rw [named]; exact holds)

theorem callPrim_site {p : Primitive} (placed : S.At a [.callPrim p])
    (aimed : (addr : Int) = primBase + p.displacement) :
    CallSite S.code (s.view a lb stack) addr 0 (s.view a lb stack) := by
  refine .call (placed.plain rfl) regIs_PB aimed.symm ?_ regIs_SB
  have near : p.displacement < 27 := by cases p <;> decide
  simp only [primBase, codeSize] at aimed
  omega

theorem callI_site (placed : S.At a [.callI]) (linkSmall : b < 0x8000) (small : addr < 0x8000) :
    CallSite S.code (s.view a lb (stack ++ [.truncate b, .truncate addr])) addr b
      (s.view a lb stack) :=
  .callI (placed.plain rfl) rfl linkSmall small

/-- A call of a routine of the code opens a frame, and is a step towards the bound. -/
theorem enter {v : View} {args : List Word} {cp link target : Nat}
    (site : CallSite S.code v target link (s.view cp lb (below ++ args)))
    (inside : target < S.code.length) (base : lb ≤ below.length)
    (body : lb < 0x8000 → cp + 1 < 0x8000 → S.Follows n (s.view target (below ++ args).length
      (below ++ args ++ [.truncate link, .truncate lb, .truncate (cp + 1 : Nat)])) result after) :
    S.Follows (n + 1) v result after := by
  refine .advance (site.enters S.size inside) (S.fitting fun fits => body ?_ ?_)
  · simp only [State.view, List.length_append, dataSize] at fits
    omega
  · obtain ⟨same, i, here, -⟩ := site
    obtain ⟨position, -⟩ := List.getElem?_eq_some_iff.mp here
    have size := S.size
    simp only [State.view] at same
    rw [codeSize] at size
    omega

theorem ret {args : List Word} {link outer back : Nat} (placed : S.At a [.ret k d])
    (base : lb = below.length + args.length) (count : k = ws.length) (depth : d = args.length)
    (outerSmall : outer < 0x8000) (backSmall : back < 0x8000)
    (rest : S.Follows n (s.view back outer (below ++ ws)) result after) :
    S.Follows n (s.view a lb (below ++ args ++
      [.truncate link, .truncate outer, .truncate back] ++ ws)) result after :=
  .step (.ret (placed.plain rfl) rfl base count depth outerSmall backSmall) rest

/-- Arithmetic on words that is exact. -/
theorem compute {p : Primitive} {op : Word → Word → Option Word} {x y z : Word}
    (placed : S.At a [.callPrim p]) (primitive : Machine.primitive p = arithmetic op)
    (exact : op x y = some z)
    (rest : S.Follows n (s.view (a + 1) lb (stack ++ [z])) result after) :
    S.Follows n (s.view a lb (stack ++ [x, y])) result after := by
  obtain ⟨target, aimed⟩ := p.exists_target
  have site := @callPrim_site S a target lb s (stack ++ [x, y]) p placed aimed
  have follows := (site.primitive aimed : _ → Machine.Follows S.code S.leaves n _ _ _) fun m shows => by
    rw [primitive]
    exact Matches.arithmetic shows op
  rw [exact] at follows
  refine follows.after ?_
  rintro _ ⟨_, ⟨-, v, same, -, rfl⟩, rfl⟩
  cases same
  exact rest

end Setting
end Triangle
