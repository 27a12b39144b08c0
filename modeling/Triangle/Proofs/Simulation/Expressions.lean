import Mathlib
import Triangle.Proofs.Simulation.Locations

/-! Expressions without calls and declarations. -/
namespace Triangle
open List

open Generate (emit_ok bind_ok moveTo_ok sizeOf_ok pure_ok)
open Machine Semantics Code

-- all rules below unfold these, so their equations are made before the first of them
attribute [local simp] Generate.expr Generate.locate Semantics.expr

namespace Setting

variable {S : Setting} {n a : Nat} {sc : Scene S n} {s : Semantics.State}
  {st st' : Generate.State}

/-! ## Literals -/

/-- Only a word can be loaded. -/
theorem literal_runs {value : Int} {v : Value} {t : Ty} {p : Pos} {items : List Item}
    (done : Generate.emit (.loadL value) (st.moved p) = .ok items st') (placed : S.At a items)
    (stored : sc.world.Stored s.store)
    (fits : -0x8000 ≤ value → value < 0x8000 → v.HasTy t ∧ v.words = [.truncate value]) :
    S.Follows n (sc.view s a) (.ok v s) (sc.Pushed (a + span items) t) := by
  obtain ⟨rfl, -⟩ := emit_ok done
  have range := placed.bounds rfl
  obtain ⟨typed, words⟩ := fits range.1 range.2
  refine S.loadL placed (.done ⟨typed, stored, ?_⟩)
  rw [words]
  exact (Scene.view_push stored _).symm

theorem ExprRuns.int (i : Info) (value : Int) : S.ExprRuns (.int i value) := by
  intro n sc t st st' items a s typed clean aligned done placed stored
  obtain ⟨-, rfl, -⟩ := typed
  simp only [Generate.expr, bind_ok, moveTo_ok] at done
  obtain ⟨_, _, rfl, done⟩ := done
  exact literal_runs (v := .int (.truncate value)) done placed stored fun _ _ => ⟨trivial, rfl⟩

theorem ExprRuns.char (i : Info) (value : Char) : S.ExprRuns (.char i value) := by
  intro n sc t st st' items a s typed clean aligned done placed stored
  obtain ⟨-, rfl⟩ := typed
  simp only [Generate.expr, bind_ok, moveTo_ok] at done
  obtain ⟨_, _, rfl, done⟩ := done
  exact literal_runs (v := .char value.toNat) done placed stored fun lower upper =>
    ⟨⟨lower, upper⟩, rfl⟩

theorem ExprRuns.bool (i : Info) (value : Bool) : S.ExprRuns (.bool i value) := by
  intro n sc t st st' items a s typed clean aligned done placed stored
  obtain ⟨-, rfl⟩ := typed
  simp only [Generate.expr, bind_ok, moveTo_ok] at done
  obtain ⟨_, _, rfl, done⟩ := done
  refine literal_runs (v := .bool value) done placed stored fun _ _ => ⟨trivial, ?_⟩
  cases value <;> rfl

/-! ## Variables -/

/-- What is in a variable that was located. -/
theorem contents_runs {e : Expr} {t : Ty} {loc : Generate.Location} {middle : Generate.State}
    {base code : List Item} (inner : S.LocateRuns e) (typed : Check.ExprTyped sc.types e t)
    (clean : S.Clean e.nodes) (aligned : sc.Aligned st)
    (found : Generate.locate sc.env e st = .ok (base, loc) middle)
    (loaded : Generate.load loc t.deref.size middle = .ok code st') (placed : S.At a (base ++ code))
    (stored : sc.world.Stored s.store) :
    S.Follows n (sc.view s a) ((do (← Semantics.locate (call n) sc.names e).contents : Run Value) s)
      (sc.Pushed (a + span (base ++ code)) t.deref) := by
  obtain ⟨finds, loads⟩ := placed_append.mp placed
  refine (inner sc typed clean aligned found finds stored).bind ?_
  rintro m s' _ ⟨addr, ws, holds, located, -, stored', rfl⟩
  obtain ⟨v, contents, kind, slice⟩ := holds.contents stored'
  rw [contents]
  refine Scene.load_runs located stored' slice (Scene.size_eq kind (clean.small typed)) loaded loads
    (.done ⟨kind, stored', ?_⟩)
  rw [span_append, Nat.add_assoc]

theorem ExprRuns.ident (i : Info) (decl : Option Binding) (name : String) :
    S.ExprRuns (.ident i decl name) := by
  intro n sc t st st' items a s typed clean aligned done placed stored
  have whole := typed
  obtain ⟨slot, plain, b, -, bound⟩ := typed
  simp only [Generate.expr, bind_ok, moveTo_ok, Generate.entity_ok] at done
  obtain ⟨_, _, rfl, ⟨e, depth⟩, _, ⟨known, rfl⟩, done⟩ := done
  cases e with
  | known value =>
    obtain ⟨m, e', depth', meaning, known', rel, -⟩ := sc.related.value bound plain
    rw [known] at known'
    cases known'
    obtain ⟨v, rfl, -, -, fits⟩ := rel
    have value : Semantics.expr (call n) sc.names (.ident i decl name) s = .ok v s := by
      rw [Semantics.expr, Result.bind_ok (Scene.find_ok meaning)]
      rfl
    rw [value]
    exact literal_runs done placed stored fits
  | stored | indirect =>
    simp only [bind_ok, sizeOf_ok, slot, pure_ok] at done
    obtain ⟨⟨base, loc⟩, _, located, _, middle, ⟨_, same, rfl, rfl⟩, code, _, loaded, rfl, rfl⟩ := done
    cases same
    have found : Generate.locate sc.env (.ident i decl name) st = .ok (base, loc) middle := by
      simp only [Generate.locate, bind_ok, moveTo_ok]
      exact ⟨(), _, rfl, located⟩
    exact contents_runs (LocateRuns.ident i decl name) whole clean aligned found loaded placed stored

theorem ExprRuns.subscript {array index : Expr} (inner : S.LocateRuns array)
    (counts : S.ExprRuns index) (i : Info) : S.ExprRuns (.subscript i array index) := by
  intro n sc t st st' items a s typed clean aligned done placed stored
  simp only [Generate.expr, bind_ok, moveTo_ok, sizeOf_ok, pure_ok] at done
  obtain ⟨_, _, rfl, ⟨base, loc⟩, _, located, _, middle, ⟨u, slot, rfl, rfl⟩, code, _, loaded, rfl,
    rfl⟩ := done
  obtain rfl : t = u := Option.some.inj (typed.slot.symm.trans slot)
  have found : Generate.locate sc.env (.subscript i array index) st = .ok (base, loc) middle := by
    simp only [Generate.locate, bind_ok, moveTo_ok]
    exact ⟨(), _, rfl, located⟩
  exact contents_runs (inner.subscript counts i) typed clean aligned found loaded placed stored

theorem ExprRuns.select {record : Expr} (inner : S.LocateRuns record) (i : Info)
    (field : String) : S.ExprRuns (.select i record field) := by
  intro n sc t st st' items a s typed clean aligned done placed stored
  simp only [Generate.expr, bind_ok, moveTo_ok, sizeOf_ok, pure_ok] at done
  obtain ⟨_, _, rfl, ⟨base, loc⟩, _, located, _, middle, ⟨u, slot, rfl, rfl⟩, code, _, loaded, rfl,
    rfl⟩ := done
  obtain rfl : t = u := Option.some.inj (typed.slot.symm.trans slot)
  have found : Generate.locate sc.env (.select i record field) st = .ok (base, loc) middle := by
    simp only [Generate.locate, bind_ok, moveTo_ok]
    exact ⟨(), _, rfl, located⟩
  exact contents_runs (inner.select i field) typed clean aligned found loaded placed stored

/-! ## Choices -/

/-- A test leaves a truth value on top of the world. -/
theorem test_runs {test : Expr} {items : List Item} (runs : S.ExprRuns test)
    (typed : ∃ t, Check.ExprTyped sc.types test t ∧ t.deref = .boolean)
    (clean : S.Clean test.nodes) (aligned : sc.Aligned st)
    (done : Generate.expr sc.env test st = .ok items st') (placed : S.At a items)
    (stored : sc.world.Stored s.store) :
    S.Follows n (sc.view s a) ((do truth (← Semantics.expr (call n) sc.names test) : Run Bool) s)
      fun b s' view => sc.world.Stored s'.store ∧
        view = s'.view (a + span items) sc.lb (sc.world.content s'.store ++ [.ofBool b]) := by
  obtain ⟨t, typed, boolean⟩ := typed
  refine (runs sc typed clean aligned done placed stored).bind ?_
  rintro v s' _ ⟨kind, stored', rfl⟩
  rw [boolean] at kind
  obtain ⟨b, rfl⟩ := kind.bool
  exact .done ⟨stored', Scene.view_push stored' _⟩

theorem ExprRuns.cond {test yes no : Expr} (tests : S.ExprRuns test) (first : S.ExprRuns yes)
    (second : S.ExprRuns no) (i : Info) : S.ExprRuns (.cond i test yes no) := by
  intro n sc t st st' items a s typed clean aligned done placed stored
  obtain ⟨-, u, v, w, testTyped, boolean, yesTyped, noTyped, same, rfl⟩ := typed
  simp only [Expr.nodes, cons_append, clean_cons, clean_append] at clean
  obtain ⟨-, ⟨cleanTest, cleanYes⟩, cleanNo⟩ := clean
  simp only [Generate.expr, bind_ok, moveTo_ok, Generate.offset_ok,
    Generate.newLabel_ok, Generate.setOffset_ok, pure_ok] at done
  obtain ⟨_, _, rfl, _, _, ⟨rfl, rfl⟩, other, _, ⟨-, rfl⟩, finished, _, ⟨-, rfl⟩, decision, st₁, tested,
    branch, st₂, branched, yesCode, st₃, yesDone, past, st₄, passed, middle, st₅, labelled, _, _, rfl,
    noCode, st₆, noDone, finish, st₇, ended, -, -, -, -, -, -, rfl, -⟩ := done
  obtain ⟨rfl, -⟩ := emit_ok branched
  obtain ⟨rfl, -⟩ := emit_ok passed
  obtain ⟨rfl, -⟩ := emit_ok labelled
  obtain ⟨rfl, -⟩ := emit_ok ended
  simp only [placed_append, span_append, span_jumpIf, span_jump, span_label, Nat.add_zero,
    ← Nat.add_assoc] at placed ⊢
  obtain ⟨⟨⟨⟨⟨⟨decides, branches⟩, yesPlaced⟩, passes⟩, otherHere⟩, noPlaced⟩, endHere⟩ := placed
  have aligned₁ : sc.Aligned (st.moved i.pos).numbered.numbered := by simpa using aligned
  have shifts := Generate.test_shifts sc.knownFit ⟨u, testTyped, boolean⟩ aligned₁.settled tested
  have aligned₂ : sc.Aligned st₂ :=
    aligned₁.same ((shifts.trans (Generate.emit_shifts shifts.settled branched)).by (by simp))
  rw [Semantics.expr, ← bind_assoc]
  refine (test_runs tests ⟨u, testTyped, boolean⟩ cleanTest aligned₁ tested decides stored).bind ?_
  rintro b s' _ ⟨stored', rfl⟩
  refine S.jumpIf branches (label_at otherHere) ?_
  -- the value of either branch has the type of the whole
  have fits : ∀ (x : Value) (s'' : Semantics.State) (a' : Nat) (view : View),
      sc.Pushed a' v.deref x s'' view → sc.Pushed a' v.deref.deref x s'' view := by
    rintro x s'' a' view ⟨kind, rest⟩
    exact ⟨by rwa [kind.isValue.deref], rest⟩
  cases b with
  | true =>
    refine (first sc yesTyped cleanYes aligned₂ yesDone yesPlaced stored').finish ?_
    rintro x s'' _ ⟨kind, stored'', rfl⟩
    exact S.jump passes (label_at endHere) (.done (fits x s'' _ _ ⟨kind, stored'', rfl⟩))
  | false =>
    refine (second sc noTyped cleanNo aligned₁.reset noDone noPlaced stored').mono ?_
    rintro x s'' _ ⟨kind, stored'', rfl⟩
    exact fits x s'' _ _ ⟨by rwa [same], stored'', rfl⟩

/-! ## Arrays and records -/

theorem exprs_run {es : List Expr} {elem : Ty} {items : List Item}
    (each : ∀ e ∈ es, S.ExprRuns e) (typed : Check.ElemsTyped sc.types elem es)
    (clean : S.Clean (Expr.listNodes es)) (aligned : sc.Aligned st)
    (done : Generate.exprs sc.env es st = .ok items st') (placed : S.At a items)
    (stored : sc.world.Stored s.store) :
    S.Follows n (sc.view s a) (Semantics.exprs (call n) sc.names es s)
      fun vs s' view => Value.AllHaveTy elem vs ∧ vs.length = es.length ∧
        sc.world.Stored s'.store ∧
        view = (sc.push (Value.wordsAll vs)).view s' (a + span items) := by
  induction es generalizing sc st items a s with
  | nil =>
    obtain ⟨rfl, -⟩ := Generate.pure_ok.mp done
    exact .done ⟨trivial, rfl, stored, (Scene.view_push_nil stored).symm⟩
  | cons e es ih =>
    obtain ⟨⟨t, headTyped, rfl⟩, tailTyped⟩ := typed
    simp only [Expr.listNodes, clean_append] at clean
    simp only [Generate.exprs, bind_ok, pure_ok] at done
    obtain ⟨first, _, headDone, rest, _, tailDone, rfl, rfl⟩ := done
    obtain ⟨headPlaced, tailPlaced⟩ := placed_append.mp placed
    refine (each e mem_cons_self sc headTyped clean.1 aligned headDone headPlaced stored).bind ?_
    rintro v s' _ ⟨kind, stored', rfl⟩
    have aligned' := aligned.expr headTyped (clean.1.small headTyped) headDone kind
    refine (@ih _ (sc.push v.words) _ _ _ (fun e member => each e (mem_cons_of_mem _ member))
      tailTyped clean.2 aligned' tailDone tailPlaced (by simpa using stored')).bind ?_
    rintro vs s'' _ ⟨kinds, count, stored'', rfl⟩
    have stored'' : sc.world.Stored s''.store := by simpa using stored''
    refine .done ⟨⟨kind, kinds⟩, by simp [count], stored'', ?_⟩
    rw [Scene.view_push_push stored'', span_append, ← Nat.add_assoc]
    rfl

theorem ExprRuns.array {es : List Expr} (each : ∀ e ∈ es, S.ExprRuns e) (i : Info) :
    S.ExprRuns (.array i es) := by
  intro n sc t st st' items a s typed clean aligned done placed stored
  obtain ⟨-, elem, nonempty, elemsTyped, rfl⟩ := typed
  simp only [Expr.nodes, clean_cons] at clean
  simp only [Generate.expr, bind_ok, moveTo_ok] at done
  obtain ⟨_, _, rfl, done⟩ := done
  refine (exprs_run each elemsTyped clean.2 (by simpa using aligned) done placed stored).bind ?_
  rintro vs s' _ ⟨kinds, count, stored', rfl⟩
  have positive := length_pos_iff.mpr nonempty
  refine .done ⟨?_, stored', rfl⟩
  exact ⟨by omega, by omega, kinds⟩

/-- The fields of a record in the order of its type. -/
theorem fields_run {rows : List (String × Expr × Ty)} {values : List (String × Generate.Gen Generate.Code)}
    {items : List Item} (each : ∀ row ∈ rows, S.ExprRuns row.2.1)
    (typed : ∀ row ∈ rows, ∃ t, Check.ExprTyped sc.types row.2.1 t ∧ t.deref = row.2.2)
    (clean : ∀ row ∈ rows, S.Clean row.2.1.nodes)
    (known : ∀ row ∈ rows, values.reverse.lookup row.1 = some (Generate.expr sc.env row.2.1))
    (aligned : sc.Aligned st)
    (done : Generate.fieldValues values (rows.map fun row => (row.1, row.2.2)) st = .ok items st')
    (placed : S.At a items) (stored : sc.world.Stored s.store) :
    S.Follows n (sc.view s a)
      (inOrder (rows.map fun row => (row.1, Semantics.expr (call n) sc.names row.2.1)) s)
      fun fs s' view => Value.FieldsHaveTy fs (rows.map fun row => (row.1, row.2.2)) ∧
        sc.world.Stored s'.store ∧
        view = (sc.push (Value.wordsFields fs)).view s' (a + span items) := by
  induction rows generalizing sc st items a s with
  | nil =>
    obtain ⟨rfl, -⟩ := Generate.pure_ok.mp done
    exact .done ⟨trivial, stored, (Scene.view_push_nil stored).symm⟩
  | cons row rows ih =>
    simp only [forall_mem_cons] at each typed clean known
    obtain ⟨⟨t, headTyped, same⟩, tailTyped⟩ := typed
    simp only [map_cons, Generate.fieldValues, known.1, bind_ok, pure_ok] at done
    obtain ⟨first, _, headDone, rest, _, tailDone, rfl, rfl⟩ := done
    obtain ⟨headPlaced, tailPlaced⟩ := placed_append.mp placed
    refine (each.1 sc headTyped clean.1 aligned headDone headPlaced stored).bind ?_
    rintro v s' _ ⟨kind, stored', rfl⟩
    have aligned' := aligned.expr headTyped (clean.1.small headTyped) headDone kind
    refine (@ih _ (sc.push v.words) _ _ _ each.2 tailTyped clean.2 known.2 aligned' tailDone tailPlaced
      (by simpa using stored')).bind ?_
    rintro fs s'' _ ⟨kinds, stored'', rfl⟩
    have stored'' : sc.world.Stored s''.store := by simpa using stored''
    refine .done ⟨⟨rfl, same ▸ kind, kinds⟩, stored'', ?_⟩
    rw [Scene.view_push_push stored'', span_append, ← Nat.add_assoc]
    rfl

theorem Clean.field {fields : List (String × Expr)} (clean : S.Clean (Expr.fieldNodes fields))
    (member : f ∈ fields) : S.Clean f.2.nodes := by
  induction fields with
  | nil => cases member
  | cons field rest ih =>
    simp only [Expr.fieldNodes, clean_append] at clean
    rcases mem_cons.mp member with rfl | later
    · exact clean.1
    · exact ih clean.2 later

theorem ExprRuns.record {fields : List (String × Expr)} (each : ∀ f ∈ fields, S.ExprRuns f.2)
    (i : Info) : S.ExprRuns (.record i fields) := by
  intro n sc t st st' items a s typed clean aligned done placed stored
  obtain ⟨slot, distinct, types, fieldsTyped, rfl⟩ := typed
  simp only [Expr.nodes, clean_cons] at clean
  simp only [Generate.expr, bind_ok, moveTo_ok, Generate.typeOf_ok, slot] at done
  obtain ⟨_, _, rfl, _, _, ⟨same, rfl⟩, done⟩ := done
  cases same
  obtain ⟨rows, rfl, rfl, rowsTyped⟩ := fieldsTyped.rows
  -- the types and the expressions are sorted alike, since only the names matter
  let sorted := rows.mergeSort fun r q => !decide (q.1 < r.1)
  have typesSorted : sorted.map (fun row => (row.1, row.2.2)) =
      (rows.map fun row => (row.1, row.2.2)).mergeSort fun f g => !decide (g.1 < f.1) :=
    map_mergeSort fun _ _ _ _ => rfl
  have valuesSorted : sorted.map (fun row => (row.1, Semantics.expr (call n) sc.names row.2.1)) =
      sortFields (Semantics.initializers (call n) sc.names
        (rows.map fun row => (row.1, row.2.1))) := by
    rw [initializers_eq, map_map, sortFields]
    exact map_mergeSort fun _ _ _ _ => rfl
  have member : ∀ row ∈ sorted, (row.1, row.2.1) ∈ rows.map fun row => (row.1, row.2.1) :=
    fun row inside => mem_map_of_mem (f := fun row : String × Expr × Ty => (row.1, row.2.1))
      (mem_mergeSort.mp inside)
  simp only [Ty.ofFields, Ty.deref, ← typesSorted] at done ⊢
  rw [Semantics.expr, ← valuesSorted]
  refine (fields_run (fun row inside => each _ (member row inside))
    (fun row inside => rowsTyped row (mem_mergeSort.mp inside))
    (fun row inside => clean.2.field (member row inside))
    (fun row inside => Generate.initializers_lookup distinct (member row inside)) (by simpa using aligned) done
    placed stored).bind ?_
  rintro fs s' _ ⟨kinds, stored', rfl⟩
  exact .done ⟨kinds, stored', rfl⟩

end Setting
end Triangle
