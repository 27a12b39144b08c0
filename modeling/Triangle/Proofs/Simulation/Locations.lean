import Mathlib
import Triangle.Proofs.Simulation.Scene

/-! Variables and their components: the code finds the address at which the variable lies. -/
namespace Triangle
open List

open Generate (emit_ok bind_ok pure_ok emitBinary_ok fail_ok register_ok moveTo_ok)
open Machine Semantics Code

namespace Scene

variable {S : Setting} {n a addr : Nat} {k : Int} {sc : Scene S n} {loc : Generate.Location}
  {s : Semantics.State} {st st' : Generate.State} {items : List Item} {ws out : List Word} {α : Type}
  {result : EStateM.Result Stop Semantics.State α} {after : α → Semantics.State → View → Prop}

theorem view_push_nil (stored : sc.world.Stored s.store) : (sc.push []).view s a = sc.view s a := by
  rw [view_push stored, append_nil]
  rfl

theorem view_push_push {more : List Word} (stored : sc.world.Stored s.store) :
    ((sc.push ws).push more).view s a = (sc.push (ws ++ more)).view s a := by
  have content : (sc.push ws).world.content s.store = sc.world.content s.store ++ ws :=
    World.content_fixed stored ws
  rw [view_push (stored_push.mpr stored), view_push stored, content, append_assoc]
  rfl

/-- A point is at a machine whose stack fits. -/
theorem fitting (stored : sc.world.Stored s.store)
    (follows : sc.world.size ≤ dataSize → S.Follows n (sc.view s a) result after) :
    S.Follows n (sc.view s a) result after :=
  S.fitting fun fits => follows (by rwa [Scene.view, State.view, stored.size] at fits)

theorem size_push (sc : Scene S n) (ws : List Word) :
    (sc.push ws).world.size = sc.world.size + ws.length := by
  simp [push, extend, World.size]

/-! ## Access -/

/-- The plain address replaces the words of the location. -/
theorem address_runs (located : sc.LocatedAt loc addr ws) (stored : sc.world.Stored s.store)
    (bound : addr ≤ sc.world.size) (done : Generate.address loc st = .ok items st')
    (placed : S.At a items)
    (rest : S.Follows n ((sc.push [.truncate addr]).view s (a + span items)) result after) :
    S.Follows n ((sc.push ws).view s a) result after := by
  refine fitting (by simpa using stored) fun fits => ?_
  have small : addr ≤ 1024 := by
    rw [size_push, dataSize] at fits
    omega
  rw [view_push stored] at rest ⊢
  cases loc with
  | inFrame r disp =>
    obtain ⟨rfl, b, depth, named, found, sum⟩ := located
    simp only [Generate.address] at done
    obtain ⟨rfl, -⟩ := emit_ok done
    rw [append_nil]
    have holds := sc.frames.register (S := S) (a := a) stored named found []
    rw [append_nil] at holds
    exact S.loadA placed holds sum (by omega) rest
  | onStack disp =>
    obtain ⟨base, rfl, below, sum⟩ := located
    simp only [Generate.address] at done
    split at done
    · obtain ⟨rfl, -⟩ := Generate.pure_ok.mp done
      obtain rfl : base = addr := by omega
      exact rest
    · simp only [bind_ok, pure_ok] at done
      obtain ⟨_, _, first, _, _, second, rfl, rfl⟩ := done
      obtain ⟨rfl, -⟩ := emit_ok first
      obtain ⟨rfl, -⟩ := emitBinary_ok second
      obtain ⟨loads, adds⟩ := placed_append.mp placed
      have exact : Word.add? (.truncate base) (.truncate disp) = some (.truncate addr) := by
        rw [Word.add?, Word.toInt_truncate (by omega) (by omega),
          Word.toInt_truncate (by omega) (by omega), sum, Word.ofInt?_eq (by omega) (by omega)]
      refine S.loadL loads ?_
      rw [append_assoc]
      exact S.compute adds rfl exact rest

theorem load_runs (located : sc.LocatedAt loc addr ws) (stored : sc.world.Stored s.store)
    (slice : Slice (sc.world.content s.store) addr out) (count : k = out.length)
    (done : Generate.load loc k st = .ok items st') (placed : S.At a items)
    (rest : S.Follows n ((sc.push out).view s (a + span items)) result after) :
    S.Follows n ((sc.push ws).view s a) result after := by
  cases loc with
  | inFrame r disp =>
    obtain ⟨rfl, b, depth, named, found, sum⟩ := located
    simp only [Generate.load] at done
    obtain ⟨rfl, -⟩ := emit_ok done
    have holds := sc.frames.register (S := S) (a := a) stored named found []
    rw [append_nil] at holds
    rw [view_push stored] at rest ⊢
    rw [append_nil]
    exact S.load placed holds sum slice count rest
  | onStack disp =>
    simp only [Generate.load, bind_ok, pure_ok] at done
    obtain ⟨_, _, first, _, _, second, rfl, rfl⟩ := done
    obtain ⟨rfl, -⟩ := emit_ok second
    obtain ⟨finds, loads⟩ := placed_append.mp placed
    have bound : addr ≤ sc.world.size := by
      have inside := slice.bound
      rw [stored.size] at inside
      omega
    refine address_runs located stored bound first finds ?_
    rw [view_push stored] at rest ⊢
    rw [span_append, ← Nat.add_assoc] at rest
    exact S.loadI loads slice count rest

/-- A value that was pushed before the variable was found goes there. -/
theorem store_runs {changed : List Word} (located : (sc.push out).LocatedAt loc addr ws)
    (stored : sc.world.Stored s.store)
    (replaces : Replaces (sc.world.content s.store) addr out changed) (count : k = out.length)
    (done : Generate.store loc k st = .ok items st') (placed : S.At a items)
    (rest : S.Follows n (s.view (a + span items) sc.lb changed) result after) :
    S.Follows n (((sc.push out).push ws).view s a) result after := by
  have stored' : (sc.push out).world.Stored s.store := by simpa using stored
  cases loc with
  | inFrame r disp =>
    obtain ⟨rfl, b, depth, named, found, sum⟩ := located
    simp only [Generate.store] at done
    obtain ⟨rfl, -⟩ := emit_ok done
    have holds := sc.frames.register (S := S) (a := a) stored named found out
    rw [view_push_nil stored', view_push stored]
    exact S.store placed holds sum count replaces rest
  | onStack disp =>
    simp only [Generate.store, bind_ok, pure_ok] at done
    obtain ⟨_, _, first, _, _, second, rfl, rfl⟩ := done
    obtain ⟨rfl, -⟩ := emit_ok second
    obtain ⟨finds, stores⟩ := placed_append.mp placed
    have bound : addr ≤ (sc.push out).world.size := by
      obtain ⟨before, old, after, whole, rfl, -⟩ := replaces
      have length := congrArg List.length whole
      rw [stored.size] at length
      rw [size_push, length]
      simp
      omega
    refine address_runs located stored' bound first finds ?_
    rw [view_push stored']
    rw [span_append, ← Nat.add_assoc] at rest
    have content : (sc.push out).world.content s.store = sc.world.content s.store ++ out :=
      World.content_fixed stored out
    rw [content]
    exact S.storeI stores count replaces rest

/-! ## Names and components -/

theorem find_ok {names : Semantics.Env} (found : names.lookup x = some m) :
    names.find x s = .ok m s := by
  simp [Env.find, found]

theorem locateName_runs {t : Ty} {b : Binding} {x : String}
    (bound : sc.types.terms.lookup? x = some (.typed t b)) (plain : t.isFunc = false)
    (done : Generate.locateName sc.env x st = .ok (items, loc) st') (placed : S.At a items)
    (stored : sc.world.Stored s.store) :
    S.Follows n (sc.view s a) (sc.names.find x s)
      fun m s' view => ∃ addr ws, sc.world.Holds m t.deref addr ∧ sc.LocatedAt loc addr ws ∧
        (sc.types.terms.isConst x = false → ∃ p, m = .place p) ∧
        sc.world.Stored s'.store ∧ view = (sc.push ws).view s' (a + span items) := by
  obtain ⟨m, e, depth, meaning, known, rel, assignable⟩ := sc.related.value bound plain
  simp only [Generate.locateName, bind_ok, Generate.entity_ok] at done
  obtain ⟨⟨e', depth'⟩, _, ⟨found, rfl⟩, done⟩ := done
  rw [known] at found
  cases found
  rw [find_ok meaning]
  cases e with
  | known => simp [fail_ok] at done
  | stored off =>
    simp only [bind_ok, register_ok, pure_ok, Prod.mk.injEq] at done
    obtain ⟨r, _, ⟨named, rfl⟩, ⟨rfl, rfl⟩, rfl⟩ := done
    obtain ⟨base, addr, frame, sum, holds⟩ := rel
    refine .done ⟨addr, [], holds, ⟨rfl, base, depth, named, frame, sum⟩, assignable, stored, ?_⟩
    rw [view_push_nil stored]
    rfl
  | indirect off =>
    simp only [bind_ok, register_ok, pure_ok, Prod.mk.injEq] at done
    obtain ⟨r, _, ⟨named, rfl⟩, _, _, moved, ⟨rfl, rfl⟩, rfl⟩ := done
    obtain ⟨rfl, -⟩ := emit_ok moved
    obtain ⟨base, slot, target, p, frame, sum, fixed, rfl, place⟩ := rel
    have holds := sc.frames.register (S := S) (a := a) stored named frame []
    rw [append_nil] at holds
    refine S.load placed holds sum (fixed _ stored) rfl (.done ?_)
    exact ⟨target, _, place, ⟨target, rfl, Nat.le_refl _, by simp⟩, assignable, stored,
      (view_push stored _).symm⟩

theorem LocatedAt.shift (located : sc.LocatedAt loc addr ws) (small : addr + j ≤ 1024)
    (fits : sc.world.size ≤ dataSize) : sc.LocatedAt (loc.shift j) (addr + j) ws := by
  rw [dataSize] at fits
  cases loc with
  | inFrame r disp =>
    obtain ⟨rfl, b, depth, named, found, sum⟩ := located
    have near := sc.frames.within b (mem_of_getElem? found)
    refine ⟨rfl, b, depth, named, found, ?_⟩
    rw [wrap64_eq] <;> omega
  | onStack disp =>
    obtain ⟨base, rfl, below, sum⟩ := located
    refine ⟨base, rfl, by omega, ?_⟩
    rw [wrap64_eq] <;> omega

theorem deref_propagate {base elem : Ty} (value : elem.IsValue) :
    (Check.propagate base elem).deref = elem := by
  unfold Check.propagate
  split
  · cases elem <;> first | rfl | simp [Ty.IsValue] at value
  · exact value.deref

theorem toStack_runs {place : Generate.Location} (located : sc.LocatedAt place addr ws)
    (stored : sc.world.Stored s.store) (bound : addr ≤ sc.world.size)
    (done : Generate.toStack place st = .ok (items, loc) st') (placed : S.At a items)
    (rest : ∀ (base : Nat) (disp : Int), loc = .onStack disp → base ≤ addr →
      (base : Int) + disp = addr →
      S.Follows n ((sc.push [.truncate base]).view s (a + span items)) result after) :
    S.Follows n ((sc.push ws).view s a) result after := by
  cases place with
  | inFrame r disp =>
    simp only [Generate.toStack, bind_ok, pure_ok, Prod.mk.injEq] at done
    obtain ⟨_, _, moved, ⟨rfl, rfl⟩, rfl⟩ := done
    exact address_runs located stored bound moved placed (rest addr 0 rfl (Nat.le_refl _) (by simp))
  | onStack disp =>
    obtain ⟨⟨rfl, rfl⟩, rfl⟩ := done
    obtain ⟨base, rfl, below, sum⟩ := located
    exact rest base disp rfl below sum

theorem scaleIndex_runs {stack : List Word} {i size lb : Nat}
    (done : Generate.scaleIndex size st = .ok items st') (small : size < 0x8000)
    (near : i < 0x8000) (product : i * size < 0x8000) (placed : S.At a items)
    (rest : S.Follows n (s.view (a + span items) lb (stack ++ [.truncate (i * size : Nat)])) result
      after) :
    S.Follows n (s.view a lb (stack ++ [.truncate i])) result after := by
  unfold Generate.scaleIndex at done
  split at done
  · rename_i one
    obtain ⟨rfl, -⟩ := Generate.pure_ok.mp done
    have same : i * size = i := by rw [show size = 1 by omega, Nat.mul_one]
    rwa [same] at rest
  · simp only [bind_ok, pure_ok] at done
    obtain ⟨_, _, first, _, _, second, rfl, rfl⟩ := done
    obtain ⟨rfl, -⟩ := emit_ok first
    obtain ⟨rfl, -⟩ := emitBinary_ok second
    obtain ⟨loads, scales⟩ := placed_append.mp placed
    have exact : Word.mul? (.truncate i) (.truncate size) = some (.truncate (i * size : Nat)) := by
      rw [Word.mul?, Word.toInt_truncate (by omega) (by omega),
        Word.toInt_truncate (by omega) (by omega), ← Nat.cast_mul,
        Word.ofInt?_eq (by omega) (by omega)]
    refine S.loadL loads ?_
    rw [append_assoc]
    exact S.compute scales rfl exact rest

theorem element_runs {m : Meaning} {length disp : Int} {elem : Ty} {base : Nat} {w : Word}
    {scale : List Item} (holds : sc.world.Holds m (.array length elem) addr)
    (stored : sc.world.Stored s.store) (below : base ≤ addr) (sum : (base : Int) + disp = addr)
    (leaves : S.leaves) (small : elem.trueSize < 0x8000)
    (scaled : Generate.scaleIndex elem.size st = .ok scale st')
    (placed : S.At a (scale ++ [.callPrim .add])) :
    S.Follows n (((sc.push [.truncate base]).push [w]).view s a) (m.element w.toInt s)
      fun m' s' view => ∃ addr ws, sc.world.Holds m' elem addr ∧
        sc.LocatedAt (.onStack disp) addr ws ∧ ((∃ p, m = .place p) → ∃ p, m' = .place p) ∧
        sc.world.Stored s'.store ∧ view = (sc.push ws).view s' (a + span scale + 1) := by
  have stored' : (sc.push [.truncate base]).world.Stored s.store := by simpa using stored
  rcases holds.element stored w.toInt with out | ⟨nonneg, m', step, holds', places⟩
  · rw [out]
    exact .outOfRange leaves
  · rw [step]
    refine fitting (by simpa using stored) fun fits => ?_
    rw [size_push, size_push, dataSize] at fits
    have bound := holds'.bound stored
    have elemValue := holds'.isValue stored
    obtain ⟨i, index⟩ := Int.eq_ofNat_of_zero_le nonneg
    have near : w.toInt < 0x8000 := w.toInt_lt
    have word : w = .truncate i := by rw [Word.truncate, ← index, Int16.ofInt_toInt]
    rw [index, Int.toNat_natCast] at bound holds'
    rw [Ty.size_eq elemValue small] at scaled
    obtain ⟨scales, adds⟩ := placed_append.mp placed
    have content : (sc.push [.truncate base]).world.content s.store =
        sc.world.content s.store ++ [.truncate base] := World.content_fixed stored _
    rw [view_push stored', content, word]
    have exact : Word.add? (.truncate base) (.truncate (i * elem.trueSize : Nat)) =
        some (.truncate (base + i * elem.trueSize : Nat)) := by
      rw [Word.add?, Word.toInt_truncate (by omega) (by omega),
        Word.toInt_truncate (by omega) (by omega), ← Nat.cast_add,
        Word.ofInt?_eq (by omega) (by omega)]
    refine scaleIndex_runs scaled small (by omega) (by omega) scales ?_
    rw [append_assoc]
    refine S.compute adds rfl exact (.done ?_)
    exact ⟨_, _, holds', ⟨base + i * elem.trueSize, rfl, by omega, by omega⟩, places, stored,
      (view_push stored _).symm⟩

end Scene

namespace Setting

variable {S : Setting} {e : Expr}

theorem Clean.head (clean : S.Clean e.nodes) : S.Allows (.expr e) := by
  cases e <;> simp only [Expr.nodes, cons_append, clean_cons] at clean <;> exact clean.1

theorem Clean.small {types : Check.Env} {t : Ty} (clean : S.Clean e.nodes)
    (typed : Check.ExprTyped types e t) : t.deref.trueSize < 0x8000 :=
  clean.head.1 t typed.slot

theorem LocateRuns.ident (i : Info) (decl : Option Binding) (name : String) :
    S.LocateRuns (.ident i decl name) := by
  intro n sc t st st' items loc a s typed clean aligned done placed stored
  obtain ⟨-, plain, b, -, bound⟩ := typed
  simp only [Generate.locate, bind_ok, moveTo_ok] at done
  obtain ⟨_, _, rfl, done⟩ := done
  refine (Scene.locateName_runs bound plain done placed stored).mono ?_
  rintro m s' _ ⟨addr, ws, holds, located, assignable, stored', same⟩
  refine ⟨addr, ws, holds, located, fun x root => ?_, stored', same⟩
  cases root
  exact assignable

theorem LocateRuns.select {record : Expr} (inner : S.LocateRuns record) (i : Info)
    (field : String) : S.LocateRuns (.select i record field) := by
  intro n sc t st st' items loc a s typed clean aligned done placed stored
  obtain ⟨-, -, base, fields, u, disp, recordTyped, shape, entry, rfl⟩ := typed
  simp only [Expr.nodes, clean_cons] at clean
  simp only [Generate.locate, bind_ok, moveTo_ok] at done
  obtain ⟨_, _, rfl, done⟩ := done
  obtain ⟨place, t', fields', u', disp', found, slot, shape', entry', rfl⟩ :=
    Generate.locateField_ok done
  obtain rfl : base = t' := Option.some.inj (recordTyped.slot.symm.trans slot)
  obtain rfl : fields = fields' := by simpa using shape.symm.trans shape'
  rw [entry] at entry'
  cases entry'
  have small := clean.2.small recordTyped
  refine (inner sc recordTyped clean.2 (by simpa using aligned) found placed stored).bind ?_
  rintro m s' _ ⟨addr, ws, holds, located, assignable, stored', rfl⟩
  rw [shape] at holds small
  have values : Ty.FieldsAreValues fields := holds.isValue stored'
  rw [← Nat.cast_zero, Ty.field?_eq values (by simpa [Ty.trueSize] using small),
    Option.map_eq_some_iff] at entry
  obtain ⟨⟨v, k⟩, at?, same⟩ := entry
  simp only [Nat.zero_add, Prod.mk.injEq] at same
  obtain ⟨rfl, rfl⟩ := same
  have found' : Value.component? (.record fields) (.field field) = some (v, k) := at?
  obtain ⟨m', step, holds', places⟩ := holds.component (s := s') found'
  rw [step, Scene.deref_propagate (Ty.fieldAt?_value values at?).1]
  refine Scene.fitting (by simpa using stored') fun fits => ?_
  rw [Scene.size_push] at fits
  have bound := holds'.bound stored'
  refine .done ⟨addr + k, ws, holds', located.shift ?_ ?_, fun x root const => ?_, stored', rfl⟩
  · rw [dataSize] at fits
    omega
  · omega
  · exact places (assignable x root const)

theorem LocateRuns.subscript {array index : Expr} (inner : S.LocateRuns array)
    (counts : S.ExprRuns index) (i : Info) : S.LocateRuns (.subscript i array index) := by
  intro n sc t st st' items loc a s typed clean aligned done placed stored
  obtain ⟨slot, -, base, length, elem, k, arrayTyped, shape, indexTyped, integer, rfl⟩ := typed
  simp only [Expr.nodes, cons_append, clean_cons, clean_append] at clean
  obtain ⟨⟨small, leaves⟩, cleanArray, cleanIndex⟩ := clean
  specialize small _ slot
  simp only [Generate.locate, bind_ok, moveTo_ok] at done
  obtain ⟨_, _, rfl, done⟩ := done
  obtain ⟨code, place, middle, t', found, slot', rest⟩ := Generate.locateElement_ok done
  obtain rfl : Check.propagate base elem = t' := Option.some.inj (slot.symm.trans slot')
  rcases rest with ⟨j, value, rfl, rfl, rfl, rfl⟩ | ⟨rest, counted, rfl⟩
  · obtain ⟨-, -, lower, upper⟩ := indexTyped
    have literal : (Word.truncate value).toInt = value :=
      Word.toInt_truncate (by simpa [Check.minInt] using lower) (by rw [Check.maxInt] at upper; omega)
    refine (inner sc arrayTyped cleanArray (by simpa using aligned) found placed stored).bind ?_
    rintro m s' _ ⟨addr, ws, holds, located, assignable, stored', rfl⟩
    rw [shape] at holds
    have elemValue : elem.IsValue := (holds.isValue stored').2
    rw [Scene.deref_propagate elemValue] at small ⊢
    change S.Follows n _ (m.element (Word.truncate value).toInt s') _
    rw [literal]
    rcases holds.element stored' value with out | ⟨nonneg, m', step, holds', places⟩
    · rw [out]
      exact .outOfRange leaves
    · rw [step, Ty.size_eq elemValue small]
      refine Scene.fitting (by simpa using stored') fun fits => ?_
      rw [Scene.size_push] at fits
      have bound := holds'.bound stored'
      have offset : value * elem.trueSize = (value.toNat * elem.trueSize : Nat) := by
        push_cast
        rw [Int.toNat_of_nonneg nonneg]
      rw [dataSize] at fits
      rw [offset, wrap64_eq (by omega) (by omega)]
      exact .done ⟨_, ws, holds', located.shift (by omega) (by rw [dataSize]; omega),
        fun x root const => places (assignable x root const), stored', rfl⟩
  · obtain ⟨start, count, scale, sum, first, second, third, onStack, counted, scaled, added, rfl⟩ :=
      counted
    obtain ⟨rfl, -⟩ := emitBinary_ok added
    obtain ⟨finds, rest⟩ := placed_append.mp placed
    obtain ⟨rest, adds⟩ := placed_append.mp rest
    obtain ⟨rest, scales⟩ := placed_append.mp rest
    obtain ⟨starts, evaluates⟩ := placed_append.mp rest
    have aligned' : sc.Aligned (st.moved i.pos) := by simpa using aligned
    refine (inner sc arrayTyped cleanArray aligned' found finds stored).bind ?_
    rintro m s' _ ⟨addr, ws, holds, located, assignable, stored', rfl⟩
    rw [shape] at holds
    have elemValue : elem.IsValue := (holds.isValue stored').2
    rw [Scene.deref_propagate elemValue] at small scaled ⊢
    have inside := holds.bound stored'
    refine Scene.toStack_runs located stored' (by omega) onStack starts ?_
    rintro base' disp rfl below sum
    have shifts := Generate.locate_shifts sc.knownFit arrayTyped aligned'.settled found
    have onTop := Generate.toStack_shifts shifts.settled onStack
    have aligned'' : (sc.push [.truncate base']).Aligned first :=
      aligned'.push (shifts.trans onTop) (by simp [Generate.Location.words])
    refine (counts (sc.push [.truncate base']) indexTyped cleanIndex aligned'' counted evaluates
      (by simpa using stored')).bind ?_
    rintro v s'' _ ⟨typed, stored'', rfl⟩
    rw [integer] at typed
    obtain ⟨w, rfl⟩ := typed.int
    have stored'' : sc.world.Stored s''.store := by simpa using stored''
    have rest : S.At (a + span code + span (start ++ count)) (scale ++ [.callPrim .add]) :=
      placed_append.mpr ⟨scales, by simpa [Nat.add_assoc] using adds⟩
    rw [span_append, ← Nat.add_assoc] at rest
    refine (Scene.element_runs holds stored'' below sum leaves small scaled rest).mono ?_
    rintro m' s₃ _ ⟨addr', ws', holds', located', places, stored₃, rfl⟩
    refine ⟨addr', ws', holds', located', fun x root const => places (assignable x root const),
      stored₃, ?_⟩
    simp [Nat.add_assoc]

end Setting
end Triangle
