import Mathlib
import Triangle.Proofs.Simulation.Declarations

/-! Routines. A call opens a frame in which the parameters have their arguments below the base, and
the body of the routine runs there with one nested call less to go. -/
namespace Triangle
open Machine Semantics Code

namespace Setting

/-- A new frame on top of the arguments starts with the base of the frame around it. -/
theorem Frames.enter {w : World} {env : Generate.Env} {lb : Nat} {bases : List Nat}
    (frames : Frames w env lb bases) (pushed : List (List Word)) (outer back : Nat) :
    Frames (w ++ pushed.map .fixed ++ [.fixed [.truncate lb, .truncate outer, .truncate back]])
      env.enterFrame (World.size (w ++ pushed.map .fixed))
      (World.size (w ++ pushed.map .fixed) :: bases) := by
  obtain ⟨rest, rfl⟩ : ∃ rest, bases = lb :: rest := by
    have first := frames.first
    cases bases with
    | nil => simp at first
    | cons b rest => exact ⟨rest, by simpa using first⟩
  refine ⟨rfl, by simpa using frames.last, ?_, ⟨?_, ?_⟩, ?_, ?_⟩
  · intro b member
    rcases List.mem_cons.mp member with rfl | older
    · simp
    · exact (frames.within b older).trans (by simp)
  · have header : Slice ([.truncate lb, .truncate outer, .truncate back] : List Word) 0
        [.truncate lb] := ⟨[], [.truncate outer, .truncate back], rfl, rfl⟩
    exact (World.Fixed.pushed (w ++ pushed.map .fixed) _).part header
  · exact (frames.chained.extend _).extend _
  · simpa [Generate.Env.enterFrame] using frames.locals
  · simpa [Generate.Env.enterFrame] using frames.callables

end Setting

namespace Scene

variable {S : Setting} {n k : Nat} {sc : Scene S n}

/-! ## Names of routines and frames -/

/-- A new name for a routine. -/
def bindRoutine (sc : Scene S n) (x : String) (ps : List Ty) (r : Ty) (b : Binding)
    (c : Generate.Callable) (m : Semantics.Meaning) (allowed : S.routines)
    (own : b.isStandard = false) (proper : (Ty.func ps r).Proper)
    (rel : S.CallableRel n sc.world sc.bases ps r c 0 m) : Scene S n :=
  { sc with
    types := sc.types.addConst x (.typed (.func ps r) b)
    env := sc.env.addCallable x c
    names := (x, m) :: sc.names
    frames := { sc.frames with
      callables := by
        simpa [Generate.Env.addCallable, Scope.Table.addConst] using sc.frames.callables }
    related := sc.related.bindRoutine x allowed own proper rel }

/-- The frame of a routine that is called with `pushed` on top of the world. -/
def enterFrame (sc : Scene S n) (pushed : List (List Word)) (outer back : Nat) : Scene S n where
  world := sc.world ++ pushed.map .fixed ++
    [.fixed [.truncate sc.lb, .truncate outer, .truncate back]]
  lb := World.size (sc.world ++ pushed.map .fixed)
  bases := World.size (sc.world ++ pushed.map .fixed) :: sc.bases
  types := sc.types.enterRoutine
  env := sc.env.enterFrame
  names := sc.names
  frames := sc.frames.enter pushed outer back
  related := by
    have related := ((sc.related.enterFrame (World.size (sc.world ++ pushed.map .fixed))).extend
      (pushed.map .fixed)).extend [.fixed [.truncate sc.lb, .truncate outer, .truncate back]]
    exact related

theorem Aligned.kept {st st' : Generate.State} {p : Pos} (aligned : sc.Aligned st)
    (same : st'.offset = wrap64 (st.moved p).offset) : sc.Aligned st' := by
  rw [Aligned, same, Generate.State.offset_moved, aligned, wrap64_wrap64]

variable {pushed : List (List Word)} {outer back : Nat}

@[simp] theorem stored_enterFrame {store : Semantics.Store} :
    (sc.enterFrame pushed outer back).world.Stored store ↔ sc.world.Stored store := by
  have header : (sc.enterFrame pushed outer back).world = sc.world ++
      (pushed ++ [[Word.truncate sc.lb, .truncate outer, .truncate back]]).map .fixed := by
    simp [enterFrame]
  rw [header, World.stored_fixeds]

theorem content_enterFrame {store : Semantics.Store} (stored : sc.world.Stored store) :
    (sc.enterFrame pushed outer back).world.content store = sc.world.content store ++
      pushed.flatten ++ [.truncate sc.lb, .truncate outer, .truncate back] := by
  have below : World.Stored (sc.world ++ pushed.map .fixed) store := by
    rwa [World.stored_fixeds]
  rw [enterFrame, World.content_fixed below, World.content_fixeds stored]

theorem lb_enterFrame :
    (sc.enterFrame pushed outer back).lb = sc.world.size + pushed.flatten.length := by
  have same : (sc.enterFrame pushed outer back).lb = World.size (sc.world ++ pushed.map .fixed) := rfl
  rw [same, World.size_append, World.size_fixeds]

theorem size_enterFrame :
    (sc.enterFrame pushed outer back).world.size = sc.world.size + pushed.flatten.length + 3 := by
  rw [enterFrame, World.size_append, World.size_append, World.size_fixeds]
  rfl

/-- The second point is the first one with other names. -/
structure Renamed (sc sc' : Scene S n) (types : Check.Env) (env : Generate.Env)
    (names : Semantics.Env) : Prop where
  world : sc'.world = sc.world
  lb : sc'.lb = sc.lb
  types : sc'.types = types
  env : sc'.env = env
  names : sc'.names = names

end Scene

namespace Setting

variable {S : Setting} {n k a : Nat} {sc : Scene S n} {s : Semantics.State}
  {st st' : Generate.State} {ps : List Ty} {params : List Param} {actuals : List Meaning}
  {pushed : List (List Word)} {m : Meaning} {t : Ty} {ws : List Word} {w : World}

/-! ## Parameters -/

/-- The words that are passed for an argument. -/
theorem ArgRel.length (rel : S.ArgRel n w t m ws) (small : t.deref.trueSize < 0x8000) :
    t.size = ws.length := by
  cases t with
  | func ps r =>
    obtain ⟨link, target, -, -, rfl, -⟩ := rel
    rfl
  | ref u =>
    obtain ⟨p, a, -, -, rfl⟩ := rel
    rfl
  | _ =>
    obtain ⟨v, -, kind, rfl⟩ := rel
    exact Scene.size_eq kind small

theorem ArgsRel.fewer (rel : S.ArgsRel n w ps actuals pushed) (less : k ≤ n) :
    S.ArgsRel k w ps actuals pushed := by
  induction ps generalizing actuals pushed with
  | nil => simpa only [ArgsRel] using rel
  | cons t ts ih =>
    obtain ⟨m, rest, ws, others, rfl, rfl, first, tail⟩ := rel
    exact ⟨m, rest, ws, others, rfl, rfl, first.fewer less, ih tail⟩

theorem ArgsRel.length (rel : S.ArgsRel n w ps actuals pushed)
    (small : ∀ t ∈ ps, t.deref.trueSize < 0x8000) (size : Nat)
    (fits : size + pushed.flatten.length ≤ dataSize) :
    Generate.argsSize size ps = (size + pushed.flatten.length : Nat) := by
  induction ps generalizing actuals pushed size with
  | nil =>
    obtain ⟨-, rfl⟩ := rel
    rfl
  | cons t ts ih =>
    obtain ⟨m, rest, ws, others, rfl, rfl, first, tail⟩ := rel
    have length := first.length (small t List.mem_cons_self)
    simp only [List.flatten_cons, List.length_append] at fits ⊢
    have exact : wrap64 (size + t.size) = (size + ws.length : Nat) := by
      rw [dataSize] at fits
      rw [length, wrap64_eq (by omega) (by omega)]
      rfl
    rw [Generate.argsSize, List.foldl_cons, exact]
    exact (ih tail (fun t member => small t (List.mem_cons_of_mem _ member)) (size + ws.length)
      (by omega)).trans (by rw [Nat.add_assoc])

/-- A parameter stands for the argument that is at its place in the frame. -/
theorem bind_param {p : Param} {start : Int} {addr : Nat} (typed : Check.ParamTyped p t)
    (rel : S.ArgRel n sc.world t m ws) (fixed : sc.world.Fixed addr ws)
    (position : (sc.lb : Int) + start = addr) (allowed : S.routines) :
    ∃ sc' : Scene S n, sc.Renamed sc' (sc.types.bindParams [p] [t])
      (Generate.bindParam sc.env start p) ((p.name, m) :: sc.names) := by
  obtain ⟨-, kind⟩ := typed
  cases p with
  | value i name sig =>
    obtain ⟨v, rfl, typed, rfl⟩ := (argRel_value kind).mp rel
    have entity : EntityRel sc.world sc.bases t.deref (.stored start) 0 (.value v) := by
      rw [kind.deref]
      exact ⟨sc.lb, addr, sc.base_found, position, typed, fixed⟩
    exact ⟨sc.bindValue name t (Param.value i name sig).binding _ _ true kind.isFunc entity (by simp),
      rfl, rfl, rfl, rfl, rfl⟩
  | var i name sig =>
    obtain ⟨inner, rfl, value⟩ := kind
    obtain ⟨q, target, rfl, placed, rfl⟩ := rel
    have plain : (Ty.ref inner).isFunc = false := by
      have plain := value.isFunc
      rwa [Ty.isFunc, value.deref] at plain
    have entity : EntityRel sc.world sc.bases (Ty.ref inner).deref (.indirect start) 0 (.place q) :=
      ⟨sc.lb, addr, target, q, sc.base_found, position, fixed, rfl, placed⟩
    exact ⟨sc.bindValue name (.ref inner) (Param.var i name sig).binding _ _ false
      plain entity fun _ => ⟨q, rfl⟩, rfl, rfl, rfl, rfl, rfl⟩
  | func i name formals result =>
    obtain ⟨qs, r, rfl, proper⟩ := kind
    obtain ⟨link, target, linkSmall, small, rfl, code⟩ := rel
    have callable : S.CallableRel n sc.world sc.bases qs r (.closure start) 0 m :=
      ⟨sc.lb, addr, link, target, sc.base_found, position, linkSmall, small, fixed, code⟩
    exact ⟨sc.bindRoutine name qs r (Param.func i name formals result).binding _ m allowed rfl proper
      callable, rfl, rfl, rfl, rfl, rfl⟩

theorem bind_params {start : Int} {addr : Nat} (typed : List.Forall₂ Check.ParamTyped params ps)
    (small : ∀ t ∈ ps, t.deref.trueSize < 0x8000) (rel : S.ArgsRel n sc.world ps actuals pushed)
    (fixed : sc.world.Fixed addr pushed.flatten) (position : (sc.lb : Int) + start = addr)
    (base : sc.lb ≤ dataSize) (fits : addr + pushed.flatten.length ≤ dataSize)
    (allowed : S.routines) :
    ∃ sc' : Scene S n, sc.Renamed sc' (sc.types.bindParams params ps)
      (Generate.paramEnv sc.env start params ps) (sc.names.bindParams params actuals) := by
  induction typed generalizing sc start addr actuals pushed with
  | nil =>
    obtain ⟨rfl, rfl⟩ := rel
    exact ⟨sc, rfl, rfl, rfl, rfl, rfl⟩
  | @cons p t params ps head tail ih =>
    obtain ⟨m, rest, ws, others, rfl, rfl, first, later⟩ := rel
    simp only [List.flatten_cons, List.length_append] at fixed fits
    obtain ⟨sc', world, lb, types, env, names⟩ := bind_param head first
      (fixed.part ⟨[], others.flatten, rfl, rfl⟩) position allowed
    have length := first.length (small t List.mem_cons_self)
    have next : (sc'.lb : Int) + wrap64 (start + t.size) = (addr + ws.length : Nat) := by
      rw [dataSize] at base fits
      rw [lb, length, wrap64_eq (by omega) (by omega)]
      omega
    have above : sc'.world.Fixed (addr + ws.length) others.flatten := by
      rw [world]
      exact fixed.part ⟨ws, [], by simp, rfl⟩
    obtain ⟨sc'', world', lb', types', env', names'⟩ := ih
      (fun t member => small t (List.mem_cons_of_mem _ member)) (by rwa [world]) above next
      (by rwa [lb]) (by omega)
    refine ⟨sc'', world'.trans world, lb'.trans lb, ?_, ?_, ?_⟩
    · rw [types', types]
      cases p <;> rfl
    · rw [env', env]
      rfl
    · rw [names', names]
      rfl

/-! ## Bodies -/

/-- What the code of a body does in a frame of its own. -/
def BodyRuns (S : Setting) (body : Body) (types : Check.Env) (env : Generate.Env)
    (code : List Item) (r : Ty) (target : Nat) : Prop :=
  ∀ {k : Nat} (sc : Scene S k) {st s}, sc.types = types → sc.env = env → sc.Aligned st →
    st.offset = wrap64 Generate.frameHeader → sc.world.Stored s.store →
      S.Follows k (sc.view s target) (body.run (call k) k sc.names s)
        fun result s' view => sc.world.Stored s'.store ∧ ∃ ws, ResultRel r result ws ∧
          r.size = ws.length ∧ view = (sc.push ws).view s' (target + span code)

/-- A body that runs in a frame on top of its arguments returns to the caller. -/
theorem frame_runs {start : Int} {body : Body} {code : List Item} {r : Ty} {outer back target : Nat}
    (allowed : S.routines) (typed : List.Forall₂ Check.ParamTyped params ps)
    (small : ∀ t ∈ ps, t.deref.trueSize < 0x8000)
    (args : S.ArgsRel n (sc.world ++ pushed.map .fixed) ps actuals pushed)
    (before : start = wrap64 (-Generate.argsSize 0 ps))
    (runs : S.BodyRuns body (sc.types.enterRoutine.bindParams params ps)
      (Generate.paramEnv sc.env.enterFrame start params ps) code r target)
    (returns : S.At (target + span code) [.ret r.size (Generate.argsSize 0 ps)])
    (outerSmall : outer < 0x8000) (backSmall : back < 0x8000) (stored : sc.world.Stored s.store) :
    S.Follows n (s.view target (sc.world.content s.store ++ pushed.flatten).length
        (sc.world.content s.store ++ pushed.flatten ++
          [.truncate sc.lb, .truncate outer, .truncate back]))
      (body.run (call n) n (sc.names.bindParams params actuals) s)
      (Returned sc.world back outer r) := by
  refine S.fitting fun fits => ?_
  simp only [State.view, List.length_append, stored.size, List.length_cons, List.length_nil] at fits ⊢
  have total := args.length small 0 (by omega)
  rw [Nat.zero_add, Nat.cast_zero] at total
  let frame := sc.enterFrame pushed outer back
  have base : frame.lb = sc.world.size + pushed.flatten.length := Scene.lb_enterFrame
  have position : (frame.lb : Int) + start = sc.world.size := by
    rw [dataSize] at fits
    rw [before, base, total, wrap64_eq (by omega) (by omega)]
    omega
  obtain ⟨inner, world, lb, types, env, names⟩ := bind_params typed small (args.extend _)
    ((World.Fixed.pushedAll sc.world pushed).extend _) position (by omega) (by omega) allowed
  have viewed : ∀ (s' : Semantics.State) (ws : List Word) (a : Nat), sc.world.Stored s'.store →
      (inner.push ws).view s' a = s'.view a (sc.world.size + pushed.flatten.length)
        (sc.world.content s'.store ++ pushed.flatten ++
          [.truncate sc.lb, .truncate outer, .truncate back] ++ ws) := by
    intro s' ws a stored'
    have inside : inner.world.Stored s'.store := by rwa [world, Scene.stored_enterFrame]
    rw [Scene.view_push inside, world, Scene.content_enterFrame stored', lb, base]
  have inside : inner.world.Stored s.store := by rwa [world, Scene.stored_enterFrame]
  have aligned : inner.Aligned { offset := wrap64 Generate.frameHeader } := by
    have size : frame.world.size = sc.world.size + pushed.flatten.length + 3 :=
      Scene.size_enterFrame
    rw [Scene.Aligned, world, lb, size, base]
    simp [Generate.frameHeader]
  have begins := viewed s [] target stored
  rw [Scene.view_push_nil inside, List.append_nil] at begins
  have body := runs inner types env aligned rfl inside
  rw [begins, names] at body
  refine body.finish ?_
  rintro result s' _ ⟨inside', ws, rel, count, rfl⟩
  have stored' : sc.world.Stored s'.store := by rwa [world, Scene.stored_enterFrame] at inside'
  rw [viewed s' ws _ stored']
  exact S.ret returns (by rw [stored'.size]) count total outerSmall backSmall
    (.done ⟨stored', ws, rel, rfl⟩)

theorem routine_implements {name : String} {b : Binding} {body : Body} {code : List Item} {r : Ty}
    {entry : String} {target : Nat} (allowed : S.routines) (own : b.isStandard = false)
    (proper : (Ty.func ps r).Proper) (typed : List.Forall₂ Check.ParamTyped params ps)
    (small : ∀ t ∈ ps, t.deref.trueSize < 0x8000) (known : S.labels.lookup entry = some target)
    (inside : target < S.code.length)
    (runs : S.BodyRuns body
      ((sc.types.addConst name (.typed (.func ps r) b)).enterRoutine.bindParams params ps)
      (Generate.paramEnv (sc.env.addCallable name (.routine entry)).enterFrame
        (wrap64 (-Generate.argsSize 0 ps)) params ps) code r target)
    (returns : S.At (target + span code) [.ret r.size (Generate.argsSize 0 ps)]) :
    ∀ k ≤ n, S.Implements k sc.world (.routine name params body sc.names) ps r sc.lb target := by
  have near : target < 0x8000 := by
    have size := S.size
    rw [codeSize] at size
    omega
  intro k
  -- a call of one level more runs the body, in which the routine itself may be called at this level
  induction k with
  | zero =>
    intro bound j more s actuals pushed cp lb v less base stored args site
    obtain rfl : j = 0 := by omega
    exact .unfinished
  | succ k ih =>
    intro bound j more s actuals pushed cp lb v less base stored args site
    rcases Nat.lt_or_eq_of_le less with lower | rfl
    · exact ih (by omega) j more s actuals pushed cp lb v (by omega) base stored args site
    have callable : S.CallableRel k sc.world sc.bases ps r (.routine entry) 0
        (.routine name params body sc.names) :=
      ⟨sc.lb, target, sc.base_found, near, known, ih (by omega)⟩
    let around : Scene S k := ((sc.fewer (by omega)).bindRoutine name ps r b (.routine entry) _ allowed
      own proper callable).extend more
    refine S.enter site inside (by rwa [stored.size]) fun outerSmall backSmall => ?_
    exact @frame_runs S k around _ _ _ _ _ _ _ _ _ _ _ _ allowed typed small
      (args.fewer (Nat.le_succ k)) rfl runs returns outerSmall backSmall stored

/-! ## Declarations -/

theorem Clean.formals (clean : S.Clean (Param.listNodes params))
    (typed : List.Forall₂ Check.ParamTyped params ps) : ∀ t ∈ ps, t.deref.trueSize < 0x8000 := by
  induction typed with
  | nil => simp
  | @cons p t params ps head tail ih =>
    simp only [Param.listNodes, clean_append] at clean
    have own : S.Allows (.param p) := clean.1 _ (by cases p <;> simp [Param.nodes])
    simp only [List.forall_mem_cons]
    exact ⟨own.1 t head.1, ih clean.2⟩

theorem proper_params (typed : List.Forall₂ Check.ParamTyped params ps) : Ty.ProperAll ps := by
  induction typed with
  | nil => trivial
  | @cons p t params ps head tail ih =>
    refine ⟨?_, ih⟩
    obtain ⟨-, kind⟩ := head
    cases p with
    | value => exact Ty.IsValue.proper kind
    | var =>
      obtain ⟨inner, rfl, value⟩ := kind
      exact value
    | func =>
      obtain ⟨qs, r, -, proper⟩ := kind
      exact proper

/-- A routine is declared by jumping over its code. -/
theorem routine_declared {name : String} {b : Binding} {body : Body} {code : List Item} {r : Ty}
    {entry skip : String} {env' : Generate.Env} (allowed : S.routines) (own : b.isStandard = false)
    (result : r = .void ∨ r.IsValue) (typed : List.Forall₂ Check.ParamTyped params ps)
    (small : ∀ t ∈ ps, t.deref.trueSize < 0x8000)
    (bound : env' = sc.env.addCallable name (.routine entry))
    (runs : S.BodyRuns body
      ((sc.types.addConst name (.typed (.func ps r) b)).enterRoutine.bindParams params ps)
      (Generate.paramEnv env'.enterFrame (wrap64 (-Generate.argsSize 0 ps)) params ps) code r (a + 1))
    (placed : S.At a ([.jump skip] ++ [.label entry] ++
      (code ++ [.ret r.size (Generate.argsSize 0 ps)]) ++ [.label skip]))
    (aligned : sc.Aligned st) (stored : sc.world.Stored s.store) :
    S.Follows n (sc.view s a) (.ok ((name, .routine name params body sc.names) :: sc.names) s)
      fun names s' view => ∃ sc' : Scene S n,
        sc.Grown sc' (sc.types.addConst name (.typed (.func ps r) b)) env' names ∧ sc'.Aligned st ∧
        sc'.world.Stored s'.store ∧ view = sc'.view s' (a + span ([.jump skip] ++ [.label entry] ++
          (code ++ [.ret r.size (Generate.argsSize 0 ps)]) ++ [.label skip])) := by
  subst bound
  simp only [placed_append, span_append, span_jump, span_label, span_ret, Nat.add_zero,
    ← Nat.add_assoc] at placed ⊢
  obtain ⟨⟨⟨jumps, entryHere⟩, codePlaced, returns⟩, skipHere⟩ := placed
  have inside : a + 1 < S.code.length := by
    have last := (List.getElem?_eq_some_iff.mp (returns.plain rfl)).1
    omega
  have near : a + 1 < 0x8000 := by
    have size := S.size
    rw [codeSize] at size
    omega
  have proper : (Ty.func ps r).Proper := ⟨proper_params typed, result⟩
  have implements := routine_implements allowed own proper typed small (label_at entryHere) inside runs
    returns n (Nat.le_refl n)
  have callable : S.CallableRel n sc.world sc.bases ps r (.routine entry) 0
      (.routine name params body sc.names) :=
    ⟨sc.lb, a + 1, sc.base_found, near, label_at entryHere, implements⟩
  exact S.jump jumps (label_at skipHere) (.done ⟨sc.bindRoutine name ps r b _ _ allowed own proper
    callable, ⟨⟨[], (List.append_nil _).symm⟩, rfl, rfl, rfl, rfl⟩, aligned, stored, rfl⟩)

theorem slots_of_typed (typed : List.Forall₂ Check.ParamTyped params ps) :
    List.Forall₂ (fun p t => p.info.ty = some t) params ps :=
  typed.imp fun _ _ head => head.1

theorem DeclRuns.func {body : Expr} (runs : S.ExprRuns body) (i : Info) (name : String)
    (params : List Param) (sig : Sig) : S.DeclRuns (.func i name params sig body) := by
  intro n sc next env' st st' items a s typed clean aligned done placed stored
  obtain ⟨ps, r, t, slot, paramsTyped, value, rfl, bodyTyped, same⟩ := typed
  simp only [Decl.nodes, List.cons_append, clean_cons, clean_append] at clean
  obtain ⟨⟨-, allowed⟩, ⟨cleanParams, -⟩, cleanBody⟩ := clean
  simp only [Generate.decl, Generate.bind_ok, Generate.moveTo_ok, Generate.typeOf_ok, slot,
    Option.some.injEq] at done
  obtain ⟨_, _, rfl, _, _, ⟨rfl, rfl⟩, done⟩ := done
  obtain ⟨entry, skip, code, first, final, bound, made, offset, rfl, after⟩ :=
    Generate.routine_ok (slots_of_typed paramsTyped) done
  have codePlaced : S.At (a + 1) code :=
    (placed_append.mp (placed_append.mp (placed_append.mp placed).1).2).1
  refine routine_declared allowed rfl (.inr value) paramsTyped (cleanParams.formals paramsTyped) bound
    ?_ placed (aligned.kept after) stored
  intro k inner st s types env settled start stored
  have ready : inner.Aligned first := (offset.trans start.symm).trans settled
  rw [← types] at bodyTyped
  rw [← env] at made
  refine (runs inner bodyTyped cleanBody ready made codePlaced stored).bind ?_
  rintro v s' _ ⟨kind, stored', rfl⟩
  have small := cleanBody.small bodyTyped
  rw [same] at kind small
  exact .done ⟨stored', v.words, .inr ⟨v, rfl, kind, rfl⟩, Scene.size_eq kind small, rfl⟩

theorem DeclRuns.proc {body : Stmt} (runs : S.StmtRuns body) (i : Info) (name : String)
    (params : List Param) : S.DeclRuns (.proc i name params body) := by
  intro n sc next env' st st' items a s typed clean aligned done placed stored
  obtain ⟨ps, slot, paramsTyped, rfl, bodyTyped⟩ := typed
  simp only [Decl.nodes, List.cons_append, clean_cons, clean_append] at clean
  obtain ⟨⟨-, allowed⟩, cleanParams, cleanBody⟩ := clean
  simp only [Generate.decl, Generate.bind_ok, Generate.moveTo_ok] at done
  obtain ⟨_, _, rfl, done⟩ := done
  obtain ⟨entry, skip, code, first, final, bound, made, offset, rfl, after⟩ :=
    Generate.routine_ok (slots_of_typed paramsTyped) done
  have codePlaced : S.At (a + 1) code :=
    (placed_append.mp (placed_append.mp (placed_append.mp placed).1).2).1
  refine routine_declared allowed rfl (.inl rfl) paramsTyped (cleanParams.formals paramsTyped) bound
    ?_ placed (aligned.kept after) stored
  intro k inner st s types env settled start stored
  have ready : inner.Aligned first := (offset.trans start.symm).trans settled
  rw [← types] at bodyTyped
  rw [← env] at made
  refine (runs inner bodyTyped cleanBody ready made codePlaced stored).bind ?_
  rintro _ s' _ ⟨stored', rfl⟩
  exact .done ⟨stored', [], .inl ⟨rfl, rfl, rfl⟩, rfl, (Scene.view_push_nil stored').symm⟩

end Setting
end Triangle
