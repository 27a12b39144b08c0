import Mathlib
import Triangle.Proofs.Simulation.Declarations

/-! Statements other than calls. -/
namespace Triangle
open List

open Nat (add_assoc add_zero)

open Generate (emit_shifts bind_ok moveTo_ok pure_ok newLabel_ok emit_ok)
open Machine Semantics Code

variable {test : Expr}

namespace Scene

variable {S : Setting} {n : Nat} {sc : Scene S n} {st st' : Generate.State}

theorem Aligned.emitted {item : Item} {items : List Item} (aligned : sc.Aligned st)
    (done : Generate.emit item st = .ok items st') (still : Generate.itemGrowth item = 0) :
    sc.Aligned st' :=
  aligned.same (still ▸ emit_shifts aligned.settled done)

/-- After a test and the branch on it the stack is as before. -/
theorem Aligned.tested {middle : Generate.State} {items more : List Item}
    {label : String} {k : Int} (aligned : sc.Aligned st)
    (typed : ∃ t, Check.ExprTyped sc.types test t ∧ t.deref = .boolean)
    (tested : Generate.expr sc.env test st = .ok items middle)
    (branched : Generate.emit (.jumpIf k label) middle = .ok more st') : sc.Aligned st' := by
  have shifts := Generate.test_shifts sc.knownFit typed aligned.settled tested
  exact aligned.same ((shifts.trans (emit_shifts shifts.settled branched)).by (by simp))

end Scene

variable {body : Stmt}

namespace Setting

variable {S : Setting} {n a : Nat} {sc : Scene S n} {s : Semantics.State}
  {st st' : Generate.State}

theorem StmtRuns.assign {target value : Expr} (locates : S.LocateRuns target)
    (runs : S.ExprRuns value) (i : Info) : S.StmtRuns (.assign i target value) := by
  intro n sc st st' items a s typed clean aligned done placed stored
  obtain ⟨t, u, root, targetTyped, valueTyped, same, rooted, assignable⟩ := typed
  simp only [Stmt.nodes, cons_append, clean_cons, clean_append] at clean
  obtain ⟨-, cleanTarget, cleanValue⟩ := clean
  simp only [Generate.stmt, bind_ok, moveTo_ok, Generate.sizeOf_ok, pure_ok] at done
  obtain ⟨_, _, rfl, pushed, _, made, ⟨base, loc⟩, _, located, _, _, ⟨u', slot, rfl, rfl⟩, code, _,
    saved, rfl, rfl⟩ := done
  obtain rfl : u = u' := Option.some.inj (valueTyped.slot.symm.trans slot)
  simp only [placed_append, span_append, ← add_assoc] at placed ⊢
  obtain ⟨⟨valuePlaced, targetPlaced⟩, savePlaced⟩ := placed
  have aligned : sc.Aligned (st.moved i.pos) := by simpa using aligned
  refine (runs sc valueTyped cleanValue aligned made valuePlaced stored).bind ?_
  rintro v s' _ ⟨kind, stored', rfl⟩
  have small := cleanValue.small valueTyped
  refine (locates (sc.push v.words) targetTyped cleanTarget
    (aligned.expr valueTyped small made kind) located targetPlaced
    (Scene.stored_push.mpr stored')).bind ?_
  rintro m s'' _ ⟨addr, ws, holds, address, places, stored'', rfl⟩
  have stored'' : sc.world.Stored s''.store := Scene.stored_push.mp stored''
  obtain ⟨p, rfl⟩ := places root rooted assignable
  obtain ⟨kept, replaces⟩ := stored''.write (World.PlaceAt.under holds) (same ▸ kind)
  exact Scene.store_runs address stored'' replaces (Scene.size_eq kind small) saved savePlaced
    (.done ⟨kept, rfl⟩)

theorem stmts_run {ss : List Stmt} {items : List Item} (each : ∀ c ∈ ss, S.StmtRuns c)
    (typed : Check.StmtsTyped sc.types ss) (clean : S.Clean (Stmt.listNodes ss))
    (aligned : sc.Aligned st) (done : Generate.stmts sc.env ss st = .ok items st')
    (placed : S.At a items) (stored : sc.world.Stored s.store) :
    S.Follows n (sc.view s a) (Semantics.stmts (call n) n sc.names ss s)
      fun _ s' view => sc.world.Stored s'.store ∧ view = sc.view s' (a + span items) := by
  induction ss generalizing st items a s with
  | nil =>
    obtain ⟨rfl, -⟩ := Generate.pure_ok.mp done
    exact .done ⟨stored, rfl⟩
  | cons c ss ih =>
    simp only [Stmt.listNodes, clean_append] at clean
    simp only [Generate.stmts, bind_ok, pure_ok] at done
    obtain ⟨first, _, headDone, rest, _, tailDone, rfl, rfl⟩ := done
    obtain ⟨headPlaced, tailPlaced⟩ := placed_append.mp placed
    refine (each c mem_cons_self sc typed.1 clean.1 aligned headDone headPlaced stored).bind ?_
    rintro _ s' _ ⟨stored', rfl⟩
    rw [span_append, ← add_assoc]
    exact ih (fun c member => each c (mem_cons_of_mem _ member)) typed.2 clean.2
      (aligned.stmt typed.1 headDone) tailDone tailPlaced stored'

theorem StmtRuns.seq {ss : List Stmt} (each : ∀ c ∈ ss, S.StmtRuns c) (i : Info) :
    S.StmtRuns (.seq i ss) := by
  intro n sc st st' items a s typed clean aligned done placed stored
  simp only [Stmt.nodes, clean_cons] at clean
  simp only [Generate.stmt, bind_ok, moveTo_ok] at done
  obtain ⟨_, _, rfl, done⟩ := done
  exact stmts_run each typed clean.2 (Scene.aligned_moved.mpr aligned) done placed stored

theorem StmtRuns.skip (i : Info) : S.StmtRuns (.skip i) := by
  intro n sc st st' items a s typed clean aligned done placed stored
  simp only [Generate.stmt, bind_ok, moveTo_ok, pure_ok] at done
  obtain ⟨_, _, rfl, rfl, rfl⟩ := done
  exact .done ⟨stored, rfl⟩

/-! ## Choices -/

theorem StmtRuns.ifThen {yes : Stmt} (tests : S.ExprRuns test) (runs : S.StmtRuns yes)
    (i : Info) : S.StmtRuns (.ifThen i test yes) := by
  intro n sc st st' items a s typed clean aligned done placed stored
  simp only [Stmt.nodes, cons_append, clean_cons, clean_append] at clean
  simp only [Generate.stmt, bind_ok, moveTo_ok, newLabel_ok, pure_ok] at done
  obtain ⟨_, _, rfl, other, _, ⟨-, rfl⟩, finished, _, ⟨-, rfl⟩, decision, st₁, tested, branch, st₂,
    branched, code, st₃, made, past, st₄, passed, middle, st₅, labelled, finish, st₆, ended, rfl, rfl⟩ :=
    done
  have aligned : sc.Aligned (st.moved i.pos).numbered.numbered := by simpa using aligned
  have aligned' := aligned.tested typed.1 tested branched
  obtain ⟨rfl, -⟩ := emit_ok branched
  obtain ⟨rfl, -⟩ := emit_ok passed
  obtain ⟨rfl, -⟩ := emit_ok labelled
  obtain ⟨rfl, -⟩ := emit_ok ended
  simp only [placed_append, span_append, span_jumpIf, span_jump, span_label, add_zero,
    ← add_assoc] at placed ⊢
  obtain ⟨⟨⟨⟨⟨decides, branches⟩, yesPlaced⟩, passes⟩, otherHere⟩, endHere⟩ := placed
  rw [Semantics.stmt, ← bind_assoc]
  refine (test_runs tests typed.1 clean.2.1 aligned tested decides stored).bind ?_
  rintro b s' _ ⟨stored', rfl⟩
  refine S.jumpIf branches (label_at otherHere) ?_
  cases b with
  | true =>
    refine (runs sc typed.2 clean.2.2 aligned' made yesPlaced stored').finish ?_
    rintro _ s'' _ ⟨stored'', rfl⟩
    exact S.jump passes (label_at endHere) (.done ⟨stored'', rfl⟩)
  | false => exact .done ⟨stored', rfl⟩

theorem StmtRuns.ifElse {yes no : Stmt} (tests : S.ExprRuns test)
    (first : S.StmtRuns yes) (second : S.StmtRuns no) (i : Info) :
    S.StmtRuns (.ifElse i test yes no) := by
  intro n sc st st' items a s typed clean aligned done placed stored
  simp only [Stmt.nodes, cons_append, clean_cons, clean_append] at clean
  simp only [Generate.stmt, bind_ok, moveTo_ok, newLabel_ok, pure_ok] at done
  obtain ⟨_, _, rfl, other, _, ⟨-, rfl⟩, finished, _, ⟨-, rfl⟩, decision, st₁, tested, branch, st₂,
    branched, yesCode, st₃, yesDone, past, st₄, passed, middle, st₅, labelled, noCode, st₆, noDone,
    finish, st₇, ended, rfl, rfl⟩ := done
  have aligned : sc.Aligned (st.moved i.pos).numbered.numbered := by simpa using aligned
  have aligned₂ := aligned.tested typed.1 tested branched
  have aligned₅ := ((aligned₂.stmt typed.2.1 yesDone).emitted passed rfl).emitted labelled rfl
  obtain ⟨rfl, -⟩ := emit_ok branched
  obtain ⟨rfl, -⟩ := emit_ok passed
  obtain ⟨rfl, -⟩ := emit_ok labelled
  obtain ⟨rfl, -⟩ := emit_ok ended
  simp only [placed_append, span_append, span_jumpIf, span_jump, span_label, add_zero,
    ← add_assoc] at placed ⊢
  obtain ⟨⟨⟨⟨⟨⟨decides, branches⟩, yesPlaced⟩, passes⟩, otherHere⟩, noPlaced⟩, endHere⟩ := placed
  rw [Semantics.stmt, ← bind_assoc]
  refine (test_runs tests typed.1 clean.2.1.1 aligned tested decides stored).bind ?_
  rintro b s' _ ⟨stored', rfl⟩
  refine S.jumpIf branches (label_at otherHere) ?_
  cases b with
  | true =>
    refine (first sc typed.2.1 clean.2.1.2 aligned₂ yesDone yesPlaced stored').finish ?_
    rintro _ s'' _ ⟨stored'', rfl⟩
    exact S.jump passes (label_at endHere) (.done ⟨stored'', rfl⟩)
  | false => exact second sc typed.2.2 clean.2.2 aligned₅ noDone noPlaced stored'

/-! ## Loops -/

/-- A loop that takes at least one step in each round follows its rounds. -/
theorem rounds_run {round : Run Bool} {P : Semantics.State → View → Prop}
    {after : Unit → Semantics.State → View → Prop}
    (turn : ∀ {k s v} (again : Run Unit), k < n → P s v →
      (∀ s' v', P s' v' → S.Follows k v' (again s') after) →
      S.Follows (k + 1) v ((round >>= fun more => if more then again else pure ()) s) after)
    {v : View} (start : P s v) : S.Follows n v (rounds round n s) after := by
  suffices all : ∀ k ≤ n, ∀ s v, P s v → S.Follows k v (rounds round k s) after from
    all n (Nat.le_refl n) s v start
  intro k
  induction k with
  | zero => exact fun _ _ _ _ => .unfinished
  | succ k ih => exact fun bound s v here => turn _ (by omega) here fun s' v' => ih (by omega) s' v'

theorem StmtRuns.whileDo (tests : S.ExprRuns test)
    (runs : S.StmtRuns body) (i : Info) : S.StmtRuns (.whileDo i test body) := by
  intro n sc st st' items a s typed clean aligned done placed stored
  simp only [Stmt.nodes, cons_append, clean_cons, clean_append] at clean
  simp only [Generate.stmt, bind_ok, moveTo_ok, newLabel_ok, pure_ok] at done
  obtain ⟨_, _, rfl, top, _, ⟨-, rfl⟩, check, _, ⟨-, rfl⟩, enter, st₁, entered, start, st₂, started,
    code, st₃, made, middle, st₄, labelled, decision, st₅, tested, back, st₆, returned, rfl, rfl⟩ := done
  have aligned : sc.Aligned (st.moved i.pos).numbered.numbered := by simpa using aligned
  have aligned₂ := (aligned.emitted entered rfl).emitted started rfl
  have aligned₄ := (aligned₂.stmt typed.2 made).emitted labelled rfl
  obtain ⟨rfl, -⟩ := emit_ok entered
  obtain ⟨rfl, -⟩ := emit_ok started
  obtain ⟨rfl, -⟩ := emit_ok labelled
  obtain ⟨rfl, -⟩ := emit_ok returned
  simp only [placed_append, span_append, span_jumpIf, span_jump, span_label, add_zero,
    ← add_assoc] at placed ⊢
  obtain ⟨⟨⟨⟨⟨enters, topHere⟩, bodyPlaced⟩, checkHere⟩, testPlaced⟩, backPlaced⟩ := placed
  refine S.jump enters (label_at checkHere) (rounds_run (P := fun s view =>
    sc.world.Stored s.store ∧ view = sc.view s (a + 1 + span code)) ?_ ⟨stored, rfl⟩)
  rintro k s _ again bound ⟨stored, rfl⟩ next
  rw [← bind_assoc, bind_assoc]
  refine ((test_runs tests typed.1 clean.2.1 aligned₄ tested testPlaced stored).fewer bound).bind ?_
  rintro b s' _ ⟨stored', rfl⟩
  refine S.jumpIf_on backPlaced (label_at topHere) ?_
  cases b with
  | true =>
    rw [if_pos rfl, bind_assoc]
    refine ((runs sc typed.2 clean.2.2 aligned₂ made bodyPlaced stored').fewer (by omega)).bind ?_
    rintro _ s'' _ ⟨stored'', rfl⟩
    exact next s'' _ ⟨stored'', rfl⟩
  | false => exact .done ⟨stored', rfl⟩

theorem StmtRuns.repeatUntil (runs : S.StmtRuns body)
    (tests : S.ExprRuns test) (i : Info) : S.StmtRuns (.repeatUntil i body test) := by
  intro n sc st st' items a s typed clean aligned done placed stored
  simp only [Stmt.nodes, cons_append, clean_cons, clean_append] at clean
  simp only [Generate.stmt, bind_ok, moveTo_ok, newLabel_ok, pure_ok] at done
  obtain ⟨_, _, rfl, top, _, ⟨-, rfl⟩, start, st₁, started, code, st₂, made, decision, st₃, tested, back,
    st₄, returned, rfl, rfl⟩ := done
  have aligned : sc.Aligned (st.moved i.pos).numbered := by simpa using aligned
  have aligned₁ := aligned.emitted started rfl
  have aligned₂ := aligned₁.stmt typed.1 made
  obtain ⟨rfl, -⟩ := emit_ok started
  obtain ⟨rfl, -⟩ := emit_ok returned
  simp only [placed_append, span_append, span_jumpIf, span_label, add_zero, ← add_assoc] at placed ⊢
  obtain ⟨⟨⟨topHere, bodyPlaced⟩, testPlaced⟩, backPlaced⟩ := placed
  refine rounds_run (P := fun s view => sc.world.Stored s.store ∧ view = sc.view s a) ?_ ⟨stored, rfl⟩
  rintro k s _ again bound ⟨stored, rfl⟩ next
  rw [bind_assoc]
  refine ((runs sc typed.1 clean.2.1 aligned₁ made bodyPlaced stored).fewer bound).bind ?_
  rintro _ s' _ ⟨stored', rfl⟩
  rw [← bind_assoc, bind_assoc]
  refine ((test_runs tests typed.2 clean.2.2 aligned₂ tested testPlaced stored').fewer bound).bind ?_
  rintro b s'' _ ⟨stored'', rfl⟩
  refine S.jumpIf_on backPlaced (label_at topHere) ?_
  cases b with
  | true => exact .done ⟨stored'', rfl⟩
  | false => exact next s'' _ ⟨stored'', rfl⟩

theorem StmtRuns.repeatWhile (runs : S.StmtRuns body)
    (tests : S.ExprRuns test) (i : Info) : S.StmtRuns (.repeatWhile i body test) := by
  intro n sc st st' items a s typed clean aligned done placed stored
  simp only [Stmt.nodes, cons_append, clean_cons, clean_append] at clean
  simp only [Generate.stmt, bind_ok, moveTo_ok, newLabel_ok, pure_ok] at done
  obtain ⟨_, _, rfl, top, _, ⟨-, rfl⟩, start, st₁, started, code, st₂, made, decision, st₃, tested, back,
    st₄, returned, rfl, rfl⟩ := done
  have aligned : sc.Aligned (st.moved i.pos).numbered := by simpa using aligned
  have aligned₁ := aligned.emitted started rfl
  have aligned₂ := aligned₁.stmt typed.1 made
  obtain ⟨rfl, -⟩ := emit_ok started
  obtain ⟨rfl, -⟩ := emit_ok returned
  simp only [placed_append, span_append, span_jumpIf, span_label, add_zero, ← add_assoc] at placed ⊢
  obtain ⟨⟨⟨topHere, bodyPlaced⟩, testPlaced⟩, backPlaced⟩ := placed
  refine rounds_run (P := fun s view => sc.world.Stored s.store ∧ view = sc.view s a) ?_ ⟨stored, rfl⟩
  rintro k s _ again bound ⟨stored, rfl⟩ next
  rw [bind_assoc]
  refine ((runs sc typed.1 clean.2.1 aligned₁ made bodyPlaced stored).fewer bound).bind ?_
  rintro _ s' _ ⟨stored', rfl⟩
  refine ((test_runs tests typed.2 clean.2.2 aligned₂ tested testPlaced stored').fewer bound).bind ?_
  rintro b s'' _ ⟨stored'', rfl⟩
  refine S.jumpIf_on backPlaced (label_at topHere) ?_
  cases b with
  | true => exact next s'' _ ⟨stored'', rfl⟩
  | false => exact .done ⟨stored'', rfl⟩

theorem StmtRuns.loopWhile {pre post : Stmt} (before : S.StmtRuns pre)
    (tests : S.ExprRuns test) (later : S.StmtRuns post) (i : Info) :
    S.StmtRuns (.loopWhile i pre test post) := by
  intro n sc st st' items a s typed clean aligned done placed stored
  simp only [Stmt.nodes, cons_append, clean_cons, clean_append] at clean
  simp only [Generate.stmt, bind_ok, moveTo_ok, newLabel_ok, pure_ok] at done
  obtain ⟨_, _, rfl, top, _, ⟨-, rfl⟩, finished, _, ⟨-, rfl⟩, start, st₁, started, preCode, st₂, preDone,
    decision, st₃, tested, leave, st₄, left, postCode, st₅, postDone, back, st₆, returned, finish, st₇,
    ended, rfl, rfl⟩ := done
  have aligned : sc.Aligned (st.moved i.pos).numbered.numbered := by simpa using aligned
  have aligned₁ := aligned.emitted started rfl
  have aligned₂ := aligned₁.stmt typed.1 preDone
  have aligned₄ := aligned₂.tested typed.2.1 tested left
  obtain ⟨rfl, -⟩ := emit_ok started
  obtain ⟨rfl, -⟩ := emit_ok left
  obtain ⟨rfl, -⟩ := emit_ok returned
  obtain ⟨rfl, -⟩ := emit_ok ended
  simp only [placed_append, span_append, span_jumpIf, span_jump, span_label, add_zero,
    ← add_assoc] at placed ⊢
  obtain ⟨⟨⟨⟨⟨⟨topHere, prePlaced⟩, testPlaced⟩, leavePlaced⟩, postPlaced⟩, backPlaced⟩, endHere⟩ :=
    placed
  refine rounds_run (P := fun s view => sc.world.Stored s.store ∧ view = sc.view s a) ?_ ⟨stored, rfl⟩
  rintro k s _ again bound ⟨stored, rfl⟩ next
  rw [bind_assoc]
  refine ((before sc typed.1 clean.2.1.1 aligned₁ preDone prePlaced stored).fewer bound).bind ?_
  rintro _ s' _ ⟨stored', rfl⟩
  rw [← bind_assoc, bind_assoc]
  refine ((test_runs tests typed.2.1 clean.2.1.2 aligned₂ tested testPlaced stored').fewer bound).bind ?_
  rintro b s'' _ ⟨stored'', rfl⟩
  refine S.jumpIf leavePlaced (label_at endHere) ?_
  cases b with
  | true =>
    rw [if_pos rfl, bind_assoc]
    refine ((later sc typed.2.2 clean.2.2 aligned₄ postDone postPlaced stored'').fewer bound).bind ?_
    rintro _ s₃ _ ⟨stored₃, rfl⟩
    exact S.jump_on backPlaced (label_at topHere) (next s₃ _ ⟨stored₃, rfl⟩)
  | false => exact .done ⟨stored'', rfl⟩

theorem StmtRuns.forever (runs : S.StmtRuns body) (i : Info) : S.StmtRuns (.forever i body) := by
  intro n sc st st' items a s typed clean aligned done placed stored
  simp only [Stmt.nodes, clean_cons] at clean
  simp only [Generate.stmt, bind_ok, moveTo_ok, newLabel_ok, pure_ok] at done
  obtain ⟨_, _, rfl, top, _, ⟨-, rfl⟩, start, st₁, started, code, st₂, made, back, st₃, returned, rfl,
    rfl⟩ := done
  have aligned : sc.Aligned (st.moved i.pos).numbered := by simpa using aligned
  have aligned₁ := aligned.emitted started rfl
  obtain ⟨rfl, -⟩ := emit_ok started
  obtain ⟨rfl, -⟩ := emit_ok returned
  simp only [placed_append, span_append, span_jump, span_label, add_zero, ← add_assoc] at placed ⊢
  obtain ⟨⟨topHere, bodyPlaced⟩, backPlaced⟩ := placed
  refine rounds_run (P := fun s view => sc.world.Stored s.store ∧ view = sc.view s a) ?_ ⟨stored, rfl⟩
  rintro k s _ again bound ⟨stored, rfl⟩ next
  rw [bind_assoc]
  refine ((runs sc typed clean.2 aligned₁ made bodyPlaced stored).fewer bound).bind ?_
  rintro _ s' _ ⟨stored', rfl⟩
  exact S.jump_on backPlaced (label_at topHere) (next s' _ ⟨stored', rfl⟩)

end Setting
end Triangle
