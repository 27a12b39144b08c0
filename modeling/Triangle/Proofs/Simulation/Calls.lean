import Mathlib
import Triangle.Proofs.Simulation.Expressions

/-! Arguments, calls and operators. -/
namespace Triangle
open List

open Generate (arg_shifts bind_ok moveTo_ok pure_ok offset_ok setOffset_ok)
open Machine Semantics Code

namespace Setting

variable {S : Setting} {n a : Nat} {sc : Scene S n} {s : Semantics.State}
  {st st' : Generate.State} {items : List Item} {ps : List Ty} {r : Ty} {m : Meaning}
  {c : Generate.Callable} {depth : Nat} {name : String} {actuals : List Meaning}
  {pushed : List (List Word)}

/-! ## Calls -/

theorem Implements.follows {w : World} {link target cp lb : Nat} {v : View}
    (code : S.Implements n w m ps r link target) (base : lb ≤ w.size) (stored : w.Stored s.store)
    (args : S.ArgsRel n (w ++ pushed.map .fixed) ps actuals pushed)
    (site : CallSite S.code v target link (s.view cp lb (w.content s.store ++ pushed.flatten))) :
    S.Follows n v (call n m actuals s) (Returned w (cp + 1) lb r) := by
  have runs := code n [] s actuals pushed cp lb v (Nat.le_refl n)
  rw [append_nil] at runs
  exact runs base stored args site

theorem conversion_runs {w : World} {lb : Nat}
    (kind : m = .standard .chr ∧ ps = [.integer] ∧ r = .char ∨
      m = .standard .ord ∧ ps = [.char] ∧ r = .integer)
    (stored : w.Stored s.store) (args : S.ArgsRel n (w ++ pushed.map .fixed) ps actuals pushed) :
    S.Follows n (s.view a lb (w.content s.store ++ pushed.flatten)) (call n m actuals s)
      (Returned w a lb r) := by
  rcases kind with ⟨rfl, rfl, rfl⟩ | ⟨rfl, rfl, rfl⟩
  · simp only [ArgsRel, argRel_value (t := .integer) trivial] at args
    obtain ⟨_, _, _, _, rfl, rfl, ⟨v, rfl, kind, rfl⟩, rfl, rfl⟩ := args
    obtain ⟨x, rfl⟩ := kind.int
    have words : (Value.char x.toInt).words = [x] := by rw [Value.words, Word.truncate_toInt]
    have typed : (Value.char x.toInt).HasTy .char := by
      exact ⟨x.le_toInt, x.toInt_lt⟩
    have applied : Standard.apply .chr [.value (.int x)] s = .ok (some (.char x.toInt)) s := rfl
    rw [call, applied]
    exact .done ⟨stored, [x], .inr ⟨_, rfl, typed, words.symm⟩, rfl⟩
  · simp only [ArgsRel, argRel_value (t := .char) trivial] at args
    obtain ⟨_, _, _, _, rfl, rfl, ⟨v, rfl, kind, rfl⟩, rfl, rfl⟩ := args
    obtain ⟨c, rfl, lower, upper⟩ := kind.char
    have applied : Standard.apply .ord [.value (.char c)] s = .ok (some (.int (.truncate c))) s :=
      congrArg (Standard.checked · s) (Word.ofInt?_eq lower upper)
    rw [call, applied]
    exact .done ⟨stored, [.truncate c], .inr ⟨.int (.truncate c), rfl, trivial, rfl⟩, rfl⟩

/-- A routine is called with its arguments on top of the world. -/
theorem invoke_runs (rel : S.CallableRel n sc.world sc.bases ps r c depth m)
    (known : sc.env.callables.lookupWithDepth? name = some (c, depth))
    (done : Generate.invoke sc.env name st = .ok items st') (placed : S.At a items)
    (stored : sc.world.Stored s.store)
    (args : S.ArgsRel n (sc.world ++ pushed.map .fixed) ps actuals pushed) :
    S.Follows n (s.view a sc.lb (sc.world.content s.store ++ pushed.flatten)) (call n m actuals s)
      (Returned sc.world (a + span items) sc.lb r) := by
  obtain ⟨c', reg, ⟨depth', found, named⟩, rfl⟩ := Generate.invoke_ok done
  rw [known] at found
  cases found
  have base := sc.frames.base_le
  cases c with
  | routine label =>
    obtain ⟨b, target, frame, -, address, code⟩ := rel
    have holds := sc.frames.register (S := S) (a := a) stored named frame pushed.flatten
    exact code.follows base stored args (call_site placed address holds)
  | closure off =>
    obtain ⟨b, slot, link, target, frame, sum, linkSmall, small, fixed, code⟩ := rel
    have holds := sc.frames.register (S := S) (a := a) stored named frame pushed.flatten
    obtain ⟨loads, calls⟩ := @placed_append _ _ _ [.load 2 reg off] [.callI] |>.mp placed
    refine S.load loads holds sum ((fixed _ stored).append _) rfl ?_
    exact code.follows base stored args (callI_site calls linkSmall small)
  | primitive p =>
    obtain ⟨target, aimed⟩ := p.exists_target
    exact (rel.2.2 0 target aimed).follows base stored args (callPrim_site placed aimed)
  | conversion => exact conversion_runs rel stored args

/-! ## Routines as arguments -/

/-- The register of the current frame. -/
theorem regIs_LB {v : View} {code : List Instruction} : RegIs code v .LB v.lb := by
  intro m shows
  have same : m.reg .LB = .ok m.lb := rfl
  rw [same, shows.lb]

/-- A conversion that is passed becomes a routine of its own. -/
theorem thunk_implements {w : World}
    (kind : m = .standard .chr ∧ ps = [.integer] ∧ r = .char ∨
      m = .standard .ord ∧ ps = [.char] ∧ r = .integer)
    (placed : S.At (a + 1) ([.load 1 .LB (-1)] ++ [.ret 1 1])) (link : Nat) :
    S.Implements n w m ps r link (a + 1) := by
  intro k more s actuals pushed cp lb v less base stored args site
  obtain ⟨loads, returns⟩ := placed_append.mp placed
  have inside : a + 1 < S.code.length := (List.getElem?_eq_some_iff.mp (loads.plain rfl)).1
  have one : ∃ x, pushed = [[x]] := by
    rcases kind with ⟨-, rfl, -⟩ | ⟨-, rfl, -⟩
    · simp only [ArgsRel, argRel_value (t := .integer) trivial] at args
      obtain ⟨_, _, _, _, -, rfl, ⟨v, -, kind, rfl⟩, -, rfl⟩ := args
      obtain ⟨x, rfl⟩ := kind.int
      exact ⟨x, rfl⟩
    · simp only [ArgsRel, argRel_value (t := .char) trivial] at args
      obtain ⟨_, _, _, _, -, rfl, ⟨v, -, kind, rfl⟩, -, rfl⟩ := args
      obtain ⟨c, rfl, -⟩ := kind.char
      exact ⟨.truncate c, rfl⟩
  obtain ⟨x, rfl⟩ := one
  -- the argument itself is the result
  have result := @conversion_runs S k (cp + 1) _ _ _ _ _ _ _ lb kind stored args
  refine (S.enter site inside (by rwa [stored.size]) fun outerSmall backSmall => ?_).fewer
    (Nat.le_succ k)
  have slice : Slice (World.content (w ++ more) s.store ++ [[x]].flatten ++
      [.truncate link, .truncate lb, .truncate (cp + 1 : Nat)])
      (World.content (w ++ more) s.store).length [x] :=
    ⟨World.content (w ++ more) s.store, _, rfl, rfl⟩
  refine S.load loads regIs_LB ?_ slice rfl
    (S.ret returns (by simp) rfl rfl outerSmall backSmall result)
  simp [State.view]

/-- A routine that is passed. -/
theorem closure_runs {i : Info} (rel : S.CallableRel n sc.world sc.bases ps r c depth m)
    (known : sc.env.callables.lookupWithDepth? name = some (c, depth))
    (slot : i.ty = some (.func ps r))
    (done : Generate.closure sc.env i name st = .ok items st') (placed : S.At a items)
    (stored : sc.world.Stored s.store) :
    S.Follows n (sc.view s a) (.ok m s)
      fun m s' view => ∃ ws, S.ArgRel n sc.world (.func ps r) m ws ∧ ws.length = 2 ∧
        sc.world.Stored s'.store ∧ view = (sc.push ws).view s' (a + span items) := by
  obtain ⟨c', reg, ⟨depth', found, named⟩, passes⟩ := Generate.closure_ok done
  rw [known] at found
  cases found
  refine Scene.fitting stored fun fits => ?_
  rw [dataSize] at fits
  -- once the two words are there the relation says what they stand for
  have pushes : ∀ (link target : Nat) (a' : Nat), link < 0x8000 → target < 0x8000 →
      S.Implements n sc.world m ps r link target →
      S.Follows n (s.view a' sc.lb (sc.world.content s.store ++ [.truncate link, .truncate target]))
        (.ok m s) fun m s' view => ∃ ws, S.ArgRel n sc.world (.func ps r) m ws ∧ ws.length = 2 ∧
          sc.world.Stored s'.store ∧ view = (sc.push ws).view s' a' := by
    intro link target a' linkSmall small code
    refine .done ⟨_, ?_, rfl, stored, (Scene.view_push stored a').symm⟩
    simp only [ArgRel]
    exact ⟨link, target, linkSmall, small, rfl, code⟩
  have split : ∀ {x y : Item}, S.At a [x, y] → S.At a [x] ∧ S.At (a + span [x]) [y] :=
    fun {x y} both => (@placed_append _ _ _ [x] [y]).mp both
  cases c with
  | routine label =>
    obtain ⟨base, target, frame, small, address, code⟩ := rel
    have holds := sc.frames.register (S := S) (a := a) stored named frame []
    rw [append_nil] at holds
    have near := sc.frames.within base (mem_of_getElem? frame)
    subst passes
    obtain ⟨first, second⟩ := split placed
    refine S.loadA first holds (Int.add_zero _) (by omega) (S.loadLabel second address ?_)
    rw [append_assoc]
    exact pushes base target _ (by omega) small code
  | closure off =>
    obtain ⟨base, slot, link, target, frame, sum, linkSmall, small, fixed, code⟩ := rel
    have holds := sc.frames.register (S := S) (a := a) stored named frame []
    rw [append_nil] at holds
    subst passes
    exact S.load placed holds sum (fixed _ stored) rfl (pushes link target _ linkSmall small code)
  | primitive p =>
    obtain ⟨target, aimed⟩ := p.exists_target
    have near : p.displacement < 27 := by cases p <;> decide
    have small : target < 0x8000 := by
      simp only [primBase, codeSize] at aimed
      omega
    subst passes
    obtain ⟨first, second⟩ := split placed
    refine S.loadA first regIs_SB (show ((0 : Nat) : Int) + 0 = (0 : Nat) from rfl) (by omega)
      (S.loadA second regIs_PB aimed.symm (by omega) ?_)
    rw [append_assoc]
    exact pushes 0 target _ (by omega) small (rel.2.2 0 target aimed)
  | conversion =>
    obtain ⟨ps', r', entry, skip, slot', rfl⟩ := passes
    rw [slot] at slot'
    cases slot'
    have code : Generate.thunkCode ps r entry skip =
        [.jump skip] ++ [.label entry] ++ ([.load 1 .LB (-1)] ++ [.ret 1 1]) ++ [.label skip] := by
      rcases rel with ⟨-, rfl, rfl⟩ | ⟨-, rfl, rfl⟩ <;> rfl
    rw [← singleton_append, code] at placed ⊢
    simp only [placed_append, span_append, span_loadA, span_jump, span_label, span_load, span_ret,
      span_loadLabel, Nat.add_zero, ← Nat.add_assoc] at placed ⊢
    obtain ⟨first, ⟨⟨⟨jumps, entryHere⟩, loads, returns⟩, skipHere⟩, last⟩ := placed
    have inside := (List.getElem?_eq_some_iff.mp (loads.plain rfl)).1
    have size := S.size
    rw [codeSize] at size
    refine S.loadA first regIs_SB (show ((0 : Nat) : Int) + 0 = (0 : Nat) from rfl) (by omega)
      (S.jump jumps (label_at skipHere) (S.loadLabel last (label_at entryHere) ?_))
    rw [append_assoc]
    exact pushes 0 (a + 1 + 1) _ (by omega) (by omega)
      (thunk_implements rel (placed_append.mpr ⟨loads, returns⟩) 0)

/-! ## Arguments -/

theorem ArgRuns.value {value : Expr} (runs : S.ExprRuns value) (i : Info) :
    S.ArgRuns (.value i value) := by
  intro n sc want st st' items a s typed proper clean aligned done placed stored
  have shifts := arg_shifts sc.knownFit typed aligned.settled done
  simp only [Check.ArgTyped] at typed
  obtain ⟨notRef, -, got, typed, same⟩ := typed
  simp only [Arg.nodes, clean_cons] at clean
  simp only [Generate.arg, bind_ok, moveTo_ok] at done
  obtain ⟨_, _, rfl, done⟩ := done
  have itself : want.deref = want := by
    cases want <;> first | rfl | simp [Ty.isRef] at notRef
  refine (runs sc typed clean.2 (by simpa using aligned) done placed stored).bind ?_
  rintro v s' _ ⟨kind, stored', rfl⟩
  have small := clean.2.small typed
  rw [same, itself] at kind small
  exact .done ⟨v.words, (argRel_value kind.isValue).mpr ⟨v, rfl, kind, rfl⟩,
    aligned.push shifts (Scene.size_eq kind small), stored', rfl⟩

theorem ArgRuns.var {target : Expr} (runs : S.LocateRuns target) (i : Info) :
    S.ArgRuns (.var i target) := by
  intro n sc want st st' items a s typed proper clean aligned done placed stored
  have shifts := arg_shifts sc.knownFit typed aligned.settled done
  obtain ⟨inner, got, root, rfl, typed, same, rooted, assignable⟩ := typed
  simp only [Arg.nodes, clean_cons] at clean
  simp only [Generate.arg, bind_ok, moveTo_ok, pure_ok] at done
  obtain ⟨_, _, rfl, ⟨base, loc⟩, _, located, code, _, found, rfl, rfl⟩ := done
  obtain ⟨locates, finds⟩ := placed_append.mp placed
  refine (runs sc typed clean.2 (by simpa using aligned) located locates stored).bind ?_
  rintro m s' _ ⟨addr, ws, holds, address, places, stored', rfl⟩
  obtain ⟨p, rfl⟩ := places root rooted assignable
  have target : got.deref = inner := by
    rw [← proper.deref, ← same, (holds.isValue stored').deref]
  have bound := holds.bound stored'
  refine Scene.address_runs address stored' (by omega) found finds (.done ?_)
  refine ⟨[.truncate addr], ?_, aligned.push shifts rfl, stored', ?_⟩
  · simp only [ArgRel]
    rw [target] at holds
    exact ⟨p, addr, rfl, World.PlaceAt.extend holds _, rfl⟩
  · rw [span_append, Nat.add_assoc]

theorem ArgRuns.func (i : Info) (decl : Option Binding) (name : String) :
    S.ArgRuns (.func i decl name) := by
  intro n sc want st st' items a s typed proper clean aligned done placed stored
  have shifts := arg_shifts sc.knownFit typed aligned.settled done
  obtain ⟨slot, ps, r, b, rfl, -, bound⟩ := typed
  simp only [Generate.arg, bind_ok, moveTo_ok] at done
  obtain ⟨_, _, rfl, done⟩ := done
  obtain ⟨-, m, c, depth, meaning, known, rel⟩ := sc.related.routine bound
  rw [Semantics.arg, Scene.find_ok meaning]
  refine (closure_runs rel known slot done placed stored).mono ?_
  rintro m s' _ ⟨ws, argument, length, stored', rfl⟩
  exact ⟨ws, argument.extend _, aligned.push shifts (by rw [length]; rfl), stored', rfl⟩

theorem args_run {as : List Arg} {wants : List Ty} (each : ∀ arg ∈ as, S.ArgRuns arg)
    (typed : Check.ArgsTyped sc.types as wants) (proper : Ty.ProperAll wants)
    (clean : S.Clean (Arg.listNodes as)) (aligned : sc.Aligned st)
    (done : Generate.args sc.env as st = .ok items st') (placed : S.At a items)
    (stored : sc.world.Stored s.store) :
    S.Follows n (sc.view s a) (Semantics.args (call n) sc.names as s)
      fun ms s' view => ∃ pushed, S.ArgsRel n (sc.world ++ pushed.map .fixed) wants ms pushed ∧
        sc.world.Stored s'.store ∧
        view = s'.view (a + span items) sc.lb (sc.world.content s'.store ++ pushed.flatten) := by
  induction as generalizing sc wants st items a s with
  | nil =>
    subst typed
    obtain ⟨rfl, -⟩ := Generate.pure_ok.mp done
    refine .done ⟨[], ?_, stored, ?_⟩
    · simp [ArgsRel]
    · simp [Scene.view]
  | cons arg as ih =>
    obtain ⟨want, others, headTyped, tailTyped, rfl⟩ := typed
    simp only [Arg.listNodes, clean_append] at clean
    simp only [Generate.args, bind_ok, pure_ok] at done
    obtain ⟨first, _, headDone, rest, _, tailDone, rfl, rfl⟩ := done
    obtain ⟨headPlaced, tailPlaced⟩ := placed_append.mp placed
    refine (each arg mem_cons_self sc headTyped proper.1 clean.1 aligned headDone headPlaced
      stored).bind ?_
    rintro m s' _ ⟨ws, argument, aligned', stored', rfl⟩
    refine (@ih _ (sc.push ws) _ _ _ _ (fun arg member => each arg (mem_cons_of_mem _ member))
      tailTyped proper.2 clean.2 aligned' tailDone tailPlaced (by simpa using stored')).bind ?_
    rintro ms s'' _ ⟨pushed, arguments, stored'', rfl⟩
    have stored'' : sc.world.Stored s''.store := by simpa using stored''
    have world : sc.world ++ (ws :: pushed).map .fixed =
        (sc.push ws).world ++ pushed.map .fixed := by
      simp [Scene.push, Scene.extend]
    have content : (sc.push ws).world.content s''.store = sc.world.content s''.store ++ ws :=
      World.content_fixed stored'' ws
    refine .done ⟨ws :: pushed, ?_, stored'', ?_⟩
    · rw [world]
      exact ⟨m, ms, ws, pushed, rfl, rfl, argument.extend _, arguments⟩
    · rw [content, span_append, ← Nat.add_assoc]
      simp [Scene.push, Scene.extend]

/-! ## Call expressions and statements -/

theorem callee_standard {names : Semantics.Env} {b : Binding} {known : Standard}
    (standard : b.isStandard = true) :
    callee names (some b) (some known) name s = .ok (.standard known) s := by
  simp [callee, standard]

/-- The slot of a call and the name in it lead to the same routine. -/
theorem callee_ok {b : Binding} (bound : sc.types.terms.lookup? name = some (.typed (.func ps r) b))
    (meaning : sc.names.lookup name = some m) :
    callee sc.names (some b) (Standard.named.lookup name) name s = .ok m s := by
  by_cases standard : b.isStandard = true
  · obtain ⟨-, known, named, meaning'⟩ := sc.related.standard bound standard
    obtain rfl : .standard known = m := Option.some.inj (meaning'.symm.trans meaning)
    rw [named, callee_standard standard]
  · simp only [callee, Option.any_some, standard, Bool.false_eq_true, ↓reduceIte]
    exact Scene.find_ok meaning

/-- The result of a function is a value on top of the world. -/
theorem valued_runs {result : Option Value} {v : View} {t : Ty}
    (returned : Returned sc.world a sc.lb t result s v) (value : t ≠ .void) :
    S.Follows n v (valued result s) (sc.Pushed a t.deref) := by
  obtain ⟨stored, ws, ⟨void, -⟩ | ⟨x, rfl, kind, rfl⟩, rfl⟩ := returned
  · exact absurd void value
  · refine .done ⟨?_, stored, (Scene.view_push stored a).symm⟩
    rwa [kind.isValue.deref]

theorem ExprRuns.call {as : List Arg} (each : ∀ arg ∈ as, S.ArgRuns arg) (i : Info)
    (decl : Option Binding) (name : String) : S.ExprRuns (.call i decl name as) := by
  intro n sc t st st' items a s typed clean aligned done placed stored
  obtain ⟨-, value, wants, b, rfl, bound, argsTyped⟩ := typed
  simp only [Expr.nodes, clean_cons] at clean
  simp only [Generate.expr, bind_ok, moveTo_ok, offset_ok, setOffset_ok, pure_ok] at done
  obtain ⟨_, _, rfl, _, _, ⟨rfl, rfl⟩, code, _, argsDone, call, _, invoked, -, -, -, -, -, -, rfl, -⟩ :=
    done
  obtain ⟨argsPlaced, callPlaced⟩ := placed_append.mp placed
  obtain ⟨proper, m, c, depth, meaning, known, rel⟩ := sc.related.routine bound
  refine (args_run each argsTyped proper.1 clean.2 (by simpa using aligned) argsDone argsPlaced
    stored).bind ?_
  rintro actuals s' _ ⟨pushed, arguments, stored', rfl⟩
  rw [Result.bind_ok (callee_ok bound meaning)]
  refine (invoke_runs rel known invoked callPlaced stored' arguments).bind ?_
  intro result s'' v returned
  rw [span_append, ← Nat.add_assoc]
  exact valued_runs returned value

theorem StmtRuns.call {as : List Arg} (each : ∀ arg ∈ as, S.ArgRuns arg) (i : Info)
    (decl : Option Binding) (name : String) : S.StmtRuns (.call i decl name as) := by
  intro n sc st st' items a s typed clean aligned done placed stored
  obtain ⟨wants, b, rfl, bound, argsTyped⟩ := typed
  simp only [Stmt.nodes, clean_cons] at clean
  simp only [Generate.stmt, bind_ok, moveTo_ok, offset_ok, setOffset_ok, pure_ok] at done
  obtain ⟨_, _, rfl, _, _, ⟨rfl, rfl⟩, code, _, argsDone, call, _, invoked, -, -, -, rfl, -⟩ := done
  obtain ⟨argsPlaced, callPlaced⟩ := placed_append.mp placed
  obtain ⟨proper, m, c, depth, meaning, known, rel⟩ := sc.related.routine bound
  refine (args_run each argsTyped proper.1 clean.2 (by simpa using aligned) argsDone argsPlaced
    stored).bind ?_
  rintro actuals s' _ ⟨pushed, arguments, stored', rfl⟩
  rw [Result.bind_ok (callee_ok bound meaning)]
  refine (invoke_runs rel known invoked callPlaced stored' arguments).bind ?_
  rintro result s'' _ ⟨stored'', ws, ⟨-, -, rfl⟩ | ⟨x, -, kind, -⟩, rfl⟩
  · refine .done ⟨stored'', ?_⟩
    rw [append_nil, span_append, ← Nat.add_assoc]
    rfl
  · simp [Value.HasTy] at kind

end Setting
end Triangle
