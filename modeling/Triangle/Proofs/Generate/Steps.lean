import Mathlib
import Triangle.Generate.Basic
import Triangle.Proofs.Layout.Types
import Triangle.Proofs.Result
import Triangle.Proofs.Scope

/-! What the steps of the generator return when they succeed, and the state they leave. -/
namespace Triangle.Generate

variable {α β : Type} {st st' : State} {env : Env}

/-! ## States -/

namespace State

def moved (st : State) (pos : Pos) : State := if pos = .none then st else { st with pos }

def numbered (st : State) : State := { st with labels := st.labels + 1 }

def reset (st : State) (n : Int) : State := { st with offset := wrap64 n }

/-- The state after an item is emitted. -/
def past (st : State) : Code.Item → State
  | .label _ => st
  | .op ins _ => st.reset (st.offset + growth ins)

@[simp] theorem offset_moved (st : State) (pos : Pos) : (st.moved pos).offset = st.offset := by
  unfold moved
  split <;> rfl

@[simp] theorem offset_numbered (st : State) : st.numbered.offset = st.offset := rfl

@[simp] theorem offset_reset (st : State) (n : Int) : (st.reset n).offset = wrap64 n := rfl

end State

/-! ## Items -/

/-- What an item adds to the offset. -/
def itemGrowth : Code.Item → Int
  | .label _ => 0
  | .op ins _ => growth ins

section

open Code

@[simp] theorem itemGrowth_load : itemGrowth (.load n r d) = n := rfl

@[simp] theorem itemGrowth_loadA : itemGrowth (.loadA r d) = 1 := rfl

@[simp] theorem itemGrowth_loadI : itemGrowth (.loadI n) = n - 1 := rfl

@[simp] theorem itemGrowth_loadL : itemGrowth (.loadL d) = 1 := rfl

@[simp] theorem itemGrowth_store : itemGrowth (.store n r d) = -n := rfl

@[simp] theorem itemGrowth_storeI : itemGrowth (.storeI n) = -n - 1 := rfl

@[simp] theorem itemGrowth_push : itemGrowth (.push d) = d := rfl

@[simp] theorem itemGrowth_pop : itemGrowth (.pop n d) = -d := rfl

@[simp] theorem itemGrowth_callPrim (p : Primitive) : itemGrowth (.callPrim p) = 0 := rfl

@[simp] theorem itemGrowth_jump (target : String) : itemGrowth (.jump target) = 0 := rfl

@[simp] theorem itemGrowth_jumpIf (target : String) : itemGrowth (.jumpIf n target) = -1 := rfl

@[simp] theorem itemGrowth_label (name : String) : itemGrowth (.label name) = 0 := rfl

end

/-! ## Steps -/

/-- The register of the frame that lies `depth` frames out. -/
def RegisterOf (env : Env) (depth : Nat) (r : Reg) : Prop :=
  if env.locals.frames = depth + 1 then r = .SB else Reg.display? depth = some r

/-- The routine of this name, and the register of its frame if it has one. -/
def CallableOf (env : Env) (name : String) (c : Callable) (r : Reg) : Prop :=
  ∃ depth, env.callables.lookupWithDepth? name = some (c, depth) ∧
    match c with
    | .routine _ | .closure _ => RegisterOf env depth r
    | .primitive _ | .conversion => r = .SB

theorem bind_ok {x : Gen α} {f : α → Gen β} :
    (x >>= f) st = .ok b st' ↔ ∃ a middle, x st = .ok a middle ∧ f a middle = .ok b st' := by
  constructor
  · exact Result.of_bind
  · rintro ⟨a, middle, first, rest⟩
    exact (Result.bind_ok first).trans rest

theorem pure_ok {a b : α} : (pure a : Gen α) st = .ok b st' ↔ b = a ∧ st' = st := by
  constructor
  · exact Result.of_pure
  · rintro ⟨rfl, rfl⟩
    rfl

theorem fail_ok {a : α} : (fail cause : Gen α) st = .ok a st' ↔ False := by
  simp [fail]

theorem moveTo_ok : moveTo pos st = .ok u st' ↔ st' = st.moved pos := by
  unfold moveTo State.moved
  split
  · simp [eq_comm]
  · simp [eq_comm]

theorem offset_ok : offset st = .ok n st' ↔ n = st.offset ∧ st' = st := by
  simp [offset, eq_comm]

theorem setOffset_ok : setOffset n st = .ok u st' ↔ st' = st.reset n := by
  simp [setOffset, State.reset, eq_comm]

theorem adjust_ok : adjust n st = .ok u st' ↔ st' = st.reset (st.offset + n) := by
  simp [adjust, State.reset, eq_comm]

theorem newLabel_ok : newLabel stem st = .ok l st' ↔
    l = s!"{stem}.{st.labels + 1}" ∧ st' = st.numbered := by
  simp [newLabel, State.numbered, eq_comm]

theorem routineLabel_ok (done : routineLabel name st = .ok l st') : st' = st.numbered := by
  have stem : ∃ stem, routineLabel name = newLabel stem := by
    unfold routineLabel
    split
    · split <;> exact ⟨_, rfl⟩
    · exact ⟨_, rfl⟩
  obtain ⟨stem, same⟩ := stem
  rw [same] at done
  exact (newLabel_ok.mp done).2

theorem emit_ok (done : emit item st = .ok items st') : items = [item] ∧ st' = st.past item := by
  cases item with
  | label name => exact pure_ok.mp done
  | op ins target =>
    simp only [emit] at done
    split at done
    · simp [bind_ok, fail_ok] at done
    · simp only [bind_ok, adjust_ok, pure_ok] at done
      obtain ⟨_, _, _, _, middle, rfl, rfl, rfl⟩ := done
      simp_all [State.past]

theorem emitBinary_ok (done : emitBinary p st = .ok items st') :
    items = [.callPrim p] ∧ st'.offset = wrap64 (st.offset - 1) := by
  simp only [emitBinary, bind_ok, adjust_ok, pure_ok] at done
  obtain ⟨code, middle, emitted, _, _, rfl, rfl, rfl⟩ := done
  obtain ⟨rfl, rfl⟩ := emit_ok emitted
  exact ⟨rfl, by simp [sub_eq_add_neg, State.past, Code.Item.callPrim, Code.Item.plain, growth]⟩

theorem register_ok : register env depth st = .ok r st' ↔ RegisterOf env depth r ∧ st' = st := by
  unfold register RegisterOf
  split
  · exact pure_ok
  · cases Reg.display? depth with
    | none => simp [fail_ok]
    | some r' => simp [eq_comm]

theorem entity_ok : entity env name st = .ok found st' ↔
    env.locals.lookupWithDepth? name = some found ∧ st' = st := by
  unfold entity
  cases env.locals.lookupWithDepth? name with
  | none => simp [fail_ok]
  | some found' => simp [eq_comm]

theorem callable_ok (done : callable env name st = .ok (c, r) st') :
    CallableOf env name c r ∧ st' = st := by
  unfold callable at done
  unfold CallableOf
  cases known : env.callables.lookupWithDepth? name with
  | none => simp [known, fail_ok] at done
  | some found =>
    obtain ⟨c', depth⟩ := found
    simp only [known] at done
    cases c' with
    | primitive | conversion =>
      obtain ⟨⟨rfl, rfl⟩, rfl⟩ := done
      simp
    | routine | closure =>
      simp only [bind_ok, register_ok, pure_ok, Prod.mk.injEq] at done
      obtain ⟨r', _, ⟨named, rfl⟩, ⟨rfl, rfl⟩, rfl⟩ := done
      exact ⟨⟨depth, rfl, named⟩, rfl⟩

theorem typeOf_ok : typeOf i st = .ok t st' ↔ i.ty = some t ∧ st' = st := by
  unfold typeOf
  cases i.ty with
  | none => simp
  | some t' => simp [eq_comm]

theorem sizeOf_ok : sizeOf i st = .ok n st' ↔ ∃ t, i.ty = some t ∧ n = t.deref.size ∧ st' = st := by
  simp only [sizeOf, bind_ok, typeOf_ok, pure_ok]
  constructor
  · rintro ⟨t, _, ⟨found, rfl⟩, rfl, rfl⟩
    exact ⟨t, found, rfl, rfl⟩
  · rintro ⟨t, found, rfl, rfl⟩
    exact ⟨t, _, ⟨found, rfl⟩, rfl, rfl⟩

theorem within_ok {body : Gen Code} (done : within n body st = .ok items st') :
    ∃ final, body (st.reset n) = .ok items final ∧ st' = final.reset st.offset := by
  simp only [within, bind_ok, offset_ok, setOffset_ok, pure_ok] at done
  obtain ⟨_, _, ⟨rfl, rfl⟩, _, _, rfl, _, final, inner, _, _, rfl, rfl, rfl⟩ := done
  exact ⟨final, inner, rfl⟩

/-! ## Components -/

theorem locateField_ok {located : Gen (Code × Location)}
    (done : locateField record field located st = .ok (items, loc) st') :
    ∃ place t fields u disp, located st = .ok (items, place) st' ∧ record.info.ty = some t ∧
      t.deref = .record fields ∧ Ty.field? field 0 fields = some (u, disp) ∧
      loc = place.shift disp := by
  simp only [locateField, bind_ok, typeOf_ok] at done
  obtain ⟨⟨base, place⟩, middle, found, t, _, ⟨slot, rfl⟩, done⟩ := done
  cases shape : t.deref with
  | record fields =>
    cases entry : Ty.field? field 0 fields with
    | none => simp [shape, entry, fail_ok] at done
    | some entry' =>
      simp only [shape, entry, pure_ok, Prod.mk.injEq] at done
      obtain ⟨⟨rfl, rfl⟩, rfl⟩ := done
      exact ⟨place, t, fields, entry'.1, entry'.2, found, slot, shape, entry, rfl⟩
  | _ => simp [shape, fail_ok] at done

/-- The code of an index that is counted when the program runs. -/
structure Counted (elem : Int) (indexCode : Gen Code) (place : Location) (st : State)
    (items : Code) (loc : Location) (st' : State) : Prop where
  parts : ∃ start count scale sum first second third, toStack place st = .ok (start, loc) first ∧
    indexCode first = .ok count second ∧ scaleIndex elem second = .ok scale third ∧
    emitBinary .add third = .ok sum st' ∧ items = start ++ count ++ scale ++ sum

theorem locateElement_ok {array : Gen (Code × Location)} {indexCode : Gen Code}
    (done : locateElement i index array indexCode st = .ok (items, loc) st') :
    ∃ base place middle t, array st = .ok (base, place) middle ∧ i.ty = some t ∧
      ((∃ j value, index = .int j value ∧ items = base ∧ st' = middle ∧
          loc = place.shift (wrap64 (value * t.deref.size))) ∨
        ∃ rest, Counted t.deref.size indexCode place middle rest loc st' ∧ items = base ++ rest) := by
  simp only [locateElement, bind_ok, sizeOf_ok] at done
  obtain ⟨⟨base, place⟩, _, found, n, middle, ⟨t, slot, rfl, rfl⟩, done⟩ := done
  refine ⟨base, place, middle, t, found, slot, ?_⟩
  cases index with
  | int j value =>
    obtain ⟨⟨rfl, rfl⟩, rfl⟩ := done
    exact .inl ⟨j, value, rfl, rfl, rfl, rfl⟩
  | _ =>
    simp only [bind_ok, pure_ok, Prod.mk.injEq] at done
    obtain ⟨⟨start, place'⟩, first, onStack, count, second, counted, scale, third, scaled, sum, _,
      added, ⟨rfl, rfl⟩, rfl⟩ := done
    exact .inr ⟨_, ⟨start, count, scale, sum, first, second, third, onStack, counted, scaled, added,
      rfl⟩, by simp⟩

theorem initializers_names (env : Env) (fields : List (String × Expr)) :
    (initializers env fields).map Prod.fst = fields.map Prod.fst := by
  induction fields with
  | nil => rfl
  | cons field rest ih => simp [initializers, ih]

theorem initializers_lookup {fields : List (String × Expr)}
    (distinct : (fields.map Prod.fst).Nodup) (member : (x, e) ∈ fields) :
    (initializers env fields).reverse.lookup x = some (expr env e) := by
  have entry : (x, expr env e) ∈ initializers env fields := by
    clear distinct
    induction fields with
    | nil => cases member
    | cons field rest ih =>
      obtain ⟨y, d⟩ := field
      rcases List.mem_cons.mp member with same | later
      · cases same
        exact List.mem_cons_self
      · exact List.mem_cons_of_mem _ (ih later)
  refine Scope.lookup_of_mem ?_ (List.mem_reverse.mpr entry)
  rwa [List.map_reverse, List.nodup_reverse, initializers_names]

/-! ## Routines -/

/-- The code that calls a routine. -/
def invocation (r : Reg) : Callable → Code
  | .routine label => [.call r label]
  | .closure off => [.load 2 r off, .callI]
  | .primitive p => [.callPrim p]
  | .conversion => []

theorem invoke_ok (done : invoke env name st = .ok items st') :
    ∃ c r, CallableOf env name c r ∧ items = invocation r c := by
  simp only [invoke, bind_ok] at done
  obtain ⟨⟨c, r⟩, _, found, done⟩ := done
  refine ⟨c, r, (callable_ok found).1, ?_⟩
  cases c with
  | routine label | primitive label => exact (emit_ok done).1
  | closure off =>
    simp only [bind_ok, pure_ok] at done
    obtain ⟨_, _, first, _, _, second, rfl, -⟩ := done
    rw [(emit_ok first).1, (emit_ok second).1]
    rfl
  | conversion => exact (pure_ok.mp done).1

/-- The routine that is made out of a conversion. -/
def thunkCode (params : List Ty) (result : Ty) (entry skip : String) : Code :=
  let size := params.foldl (fun n t => wrap64 (n + t.size)) 0
  [.jump skip, .label entry, .load size .LB (wrap64 (-size)), .ret result.size size, .label skip]

theorem thunk_ok (done : thunk i name st = .ok (items, entry) st') :
    ∃ params result skip, i.ty = some (.func params result) ∧
      items = thunkCode params result entry skip ∧ st'.offset = wrap64 st.offset := by
  simp only [thunk, bind_ok, typeOf_ok] at done
  obtain ⟨t, _, ⟨slot, rfl⟩, done⟩ := done
  cases t with
  | func params result =>
    simp only [bind_ok, offset_ok, newLabel_ok, setOffset_ok, pure_ok, Prod.mk.injEq] at done
    obtain ⟨_, _, ⟨rfl, rfl⟩, entry', _, named, skip, _, ⟨-, rfl⟩, _, _, past, _, _, start, _, _, value,
      _, _, back, _, _, finish, _, _, rfl, ⟨rfl, rfl⟩, rfl⟩ := done
    refine ⟨params, result, skip, slot, ?_, rfl⟩
    rw [(emit_ok past).1, (emit_ok start).1, (emit_ok value).1, (emit_ok back).1,
      (emit_ok finish).1]
    rfl
  | _ => simp [fail_ok] at done

/-- The code that passes a routine. -/
def Passes (i : Info) (items : Code) (r : Reg) : Callable → Prop
  | .routine label => items = [.loadA r 0, .loadLabel label]
  | .closure off => items = [.load 2 r off]
  | .primitive p => items = [.loadA .SB 0, .loadA .PB p.displacement]
  | .conversion => ∃ params result entry skip, i.ty = some (.func params result) ∧
      items = .loadA .SB 0 :: (thunkCode params result entry skip ++ [.loadLabel entry])

theorem closure_ok (done : closure env i name st = .ok items st') :
    ∃ c r, CallableOf env name c r ∧ Passes i items r c := by
  simp only [closure, bind_ok] at done
  obtain ⟨⟨c, r⟩, _, found, done⟩ := done
  refine ⟨c, r, (callable_ok found).1, ?_⟩
  cases c with
  | routine label | primitive p =>
    simp only [bind_ok, pure_ok] at done
    obtain ⟨_, _, first, _, _, second, rfl, -⟩ := done
    rw [(emit_ok first).1, (emit_ok second).1]
    rfl
  | closure off => exact (emit_ok done).1
  | conversion =>
    simp only [bind_ok, pure_ok] at done
    obtain ⟨_, _, first, ⟨body, entry⟩, _, made, _, _, second, rfl, -⟩ := done
    obtain ⟨params, result, skip, slot, rfl, -⟩ := thunk_ok made
    refine ⟨params, result, entry, skip, slot, ?_⟩
    rw [(emit_ok first).1, (emit_ok second).1]
    rfl

theorem comparedSize_ok (done : comparedSize env op operand st = .ok items st') :
    ∃ c r, CallableOf env op c r ∧
      ((c = .primitive .eq ∨ c = .primitive .ne) ∧
          (∃ t, operand.ty = some t ∧ items = [.loadL t.deref.size]) ∨
        c ≠ .primitive .eq ∧ c ≠ .primitive .ne ∧ items = []) := by
  simp only [comparedSize, bind_ok] at done
  obtain ⟨⟨c, r⟩, _, found, done⟩ := done
  refine ⟨c, r, (callable_ok found).1, ?_⟩
  cases c with
  | primitive p =>
    cases p with
    | eq | ne =>
      simp only [bind_ok, sizeOf_ok] at done
      obtain ⟨_, _, ⟨t, slot, rfl, rfl⟩, done⟩ := done
      exact .inl ⟨by simp, t, slot, (emit_ok done).1⟩
    | _ => exact .inr ⟨by simp, by simp, (pure_ok.mp done).1⟩
  | _ => exact .inr ⟨by simp, by simp, (pure_ok.mp done).1⟩

/-! ## Declarations of routines -/

/-- Binds a parameter whose argument is at `start`. -/
def bindParam (env : Env) (start : Int) : Param → Env
  | .value _ name _ => env.addConst name (.stored start)
  | .var _ name _ => env.addVar name (.indirect start)
  | .func _ name _ _ => env.addCallable name (.closure start)

/-- Binds parameters of these types. -/
def paramEnv (env : Env) (start : Int) : List Param → List Ty → Env
  | p :: ps, t :: ts => paramEnv (bindParam env start p) (wrap64 (start + t.size)) ps ts
  | _, _ => env

/-- The words of arguments of these types. -/
def argsSize (size : Int) (types : List Ty) : Int :=
  types.foldl (fun n t => wrap64 (n + t.size)) size

variable {params : List Param} {types : List Ty}

theorem paramsSize_ok (slots : List.Forall₂ (fun p t => p.info.ty = some t) params types)
    (done : paramsSize size params st = .ok n st') : n = argsSize size types ∧ st' = st := by
  induction slots generalizing size with
  | nil => exact pure_ok.mp done
  | cons slot _ ih =>
    simp only [paramsSize, bind_ok, typeOf_ok, slot, Option.some.injEq] at done
    obtain ⟨_, _, ⟨rfl, rfl⟩, done⟩ := done
    exact ih done

theorem bindParams_ok (slots : List.Forall₂ (fun p t => p.info.ty = some t) params types)
    (done : bindParams env start params st = .ok env' st') :
    env' = paramEnv env start params types ∧ st' = st := by
  induction slots generalizing env start with
  | nil => exact pure_ok.mp done
  | @cons p t ps ts slot _ ih =>
    simp only [bindParams, bind_ok, typeOf_ok, slot, Option.some.injEq] at done
    obtain ⟨_, _, ⟨rfl, rfl⟩, done⟩ := done
    obtain ⟨rfl, rfl⟩ := ih done
    cases p <;> exact ⟨rfl, rfl⟩

/-- The body of a routine is made with its parameters and with itself in scope. -/
theorem routine_ok {result : Int} {body : Env → Gen Code}
    (slots : List.Forall₂ (fun p t => p.info.ty = some t) params types)
    (done : routine env name params result body st = .ok (env', items) st') :
    ∃ entry skip code first final, env' = env.addCallable name (.routine entry) ∧
      body (paramEnv env'.enterFrame (wrap64 (-argsSize 0 types)) params types) first =
        .ok code final ∧
      first.offset = wrap64 frameHeader ∧
      items = [.jump skip] ++ [.label entry] ++ (code ++ [.ret result (argsSize 0 types)]) ++
        [.label skip] ∧
      st'.offset = wrap64 st.offset := by
  simp only [routine, bind_ok, newLabel_ok, pure_ok, Prod.mk.injEq] at done
  obtain ⟨entry, _, labelled, skip, _, ⟨-, rfl⟩, _, _, past, _, _, start, inside, _, framed, _, _,
    finish, ⟨rfl, rfl⟩, rfl⟩ := done
  obtain rfl := routineLabel_ok labelled
  obtain ⟨rfl, rfl⟩ := emit_ok past
  obtain ⟨rfl, rfl⟩ := emit_ok start
  obtain ⟨rfl, rfl⟩ := emit_ok finish
  obtain ⟨final, filled, rfl⟩ := within_ok framed
  simp only [bind_ok, pure_ok] at filled
  obtain ⟨_, _, sized, inner, _, bound, code, last, made, _, _, returned, rfl, rfl⟩ := filled
  obtain ⟨rfl, rfl⟩ := paramsSize_ok slots sized
  obtain ⟨rfl, rfl⟩ := bindParams_ok slots bound
  obtain ⟨rfl, rfl⟩ := emit_ok returned
  refine ⟨entry, skip, code, _, last, rfl, made, rfl, rfl, ?_⟩
  simp [State.past, Code.Item.jump, Code.Item.aimed, growth]

end Triangle.Generate
