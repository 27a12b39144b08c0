import Mathlib
import Triangle.Proofs.Generate.Steps
import Triangle.Proofs.Scope
import Triangle.Proofs.Typing.Basic

/-! How far the stack reaches, as the generator counts it: an expression adds the words of its value,
and a statement adds nothing. -/
namespace Triangle.Generate

variable {st st' : State} {types : Check.Env} {env : Env}

/-- The offset moves by `k` words, modulo the size of a machine integer. -/
def State.Shifts (st : State) (k : Int) (st' : State) : Prop := st'.offset = wrap64 (st.offset + k)

/-- The offset is a machine integer. -/
def State.Settled (st : State) : Prop := wrap64 st.offset = st.offset

namespace State

theorem Settled.refl (settled : st.Settled) : st.Shifts 0 st := by
  simpa [Shifts] using settled.symm

theorem Shifts.settled (shifts : st.Shifts k st') : st'.Settled := by
  unfold Settled
  rw [shifts, wrap64_wrap64]

theorem Shifts.trans {middle : State} (first : st.Shifts j middle) (second : middle.Shifts k st') :
    st.Shifts (j + k) st' := by
  unfold Shifts at first second ⊢
  rw [second, first, wrap64_add_left, Int.add_assoc]

theorem Shifts.by (shifts : st.Shifts j st') (same : j = k) : st.Shifts k st' := same ▸ shifts

end State

/-! ## Steps -/

/-- The steps move the offset by as many words as `k` says of what they return. -/
def Moves {α : Type} (x : Gen α) (k : α → Int) : Prop :=
  ∀ ⦃st a st'⦄, st.Settled → x st = .ok a st' → st.Shifts (k a) st'

/-- The steps leave the offset at `n`, wherever they start. -/
def Lands {α : Type} (x : Gen α) (n : Int) : Prop :=
  ∀ ⦃st a st'⦄, x st = .ok a st' → st'.offset = wrap64 n

variable {name : String}

section

variable {α β : Type} {x : Gen α} {f : α → Gen β} {j : α → Int} {k : β → Int}

theorem Moves.bind (first : Moves x j) (rest : ∀ a, Moves (f a) fun b => k b - j a) :
    Moves (x >>= f) k := by
  intro st b st' settled done
  obtain ⟨a, middle, begun, done⟩ := bind_ok.mp done
  have shift := first settled begun
  exact (shift.trans (rest a shift.settled done)).by (add_sub_cancel (j a) (k b))

theorem Moves.then (first : Moves x fun _ => 0) (rest : ∀ a, Moves (f a) k) :
    Moves (x >>= f) k :=
  first.bind fun a _ b _ settled done => (rest a settled done).by (sub_zero (k b)).symm

theorem Moves.by {k : α → Int} (moves : Moves x j) (same : ∀ a, j a = k a) : Moves x k :=
  fun _ a _ settled done => (moves settled done).by (same a)

theorem Lands.bind {n : Int} (rest : ∀ a, Lands (f a) n) : Lands (x >>= f) n := by
  intro st b st' done
  obtain ⟨a, middle, -, done⟩ := bind_ok.mp done
  exact rest a done

theorem Lands.moves {f : Int → Gen β} {n : Int} (lands : ∀ start, Lands (f start) (start + n)) :
    Moves (offset >>= f) fun _ => n :=
  fun st _ _ _ done => lands st.offset done

theorem moves_pure {a : α} (zero : j a = 0) : Moves (pure a) j := by
  intro st b st' settled done
  obtain ⟨rfl, rfl⟩ := pure_ok.mp done
  exact settled.refl.by zero.symm

theorem moves_fail {cause : Cause} : Moves (fail cause) j := by
  intro st a st' settled done
  simp [fail_ok] at done

theorem moves_moveTo (pos : Pos) : Moves (moveTo pos) fun _ => 0 := by
  intro st _ st' settled done
  rw [moveTo_ok.mp done]
  simpa [State.Shifts] using settled.symm

theorem moves_newLabel (stem : String) : Moves (newLabel stem) fun _ => 0 := by
  intro st _ st' settled done
  obtain ⟨-, rfl⟩ := newLabel_ok.mp done
  exact settled.refl

theorem moves_register (depth : Nat) : Moves (register env depth) fun _ => 0 := by
  intro st _ st' settled done
  obtain ⟨-, rfl⟩ := register_ok.mp done
  exact settled.refl

/-- The size of a node is that of its type. -/
theorem Moves.sized {f : Int → Gen β} {i : Info} {t : Ty} (slot : i.ty = some t)
    (rest : Moves (f t.deref.size) k) : Moves (sizeOf i >>= f) k := by
  intro st b st' settled done
  simp only [bind_ok, sizeOf_ok, slot] at done
  obtain ⟨_, _, ⟨_, same, rfl, rfl⟩, done⟩ := done
  cases same
  exact rest settled done

theorem Moves.entity {f : Entity × Nat → Gen β}
    (rest : ∀ e depth, env.locals.lookupWithDepth? name = some (e, depth) → Moves (f (e, depth)) k) :
    Moves (entity env name >>= f) k := by
  intro st b st' settled done
  simp only [bind_ok, entity_ok] at done
  obtain ⟨⟨e, depth⟩, _, ⟨found, rfl⟩, done⟩ := done
  exact rest e depth found settled done

theorem Moves.callable {f : Callable × Reg → Gen β}
    (rest : ∀ c r, Moves (f (c, r)) k) : Moves (callable env name >>= f) k := by
  intro st b st' settled done
  obtain ⟨⟨c, r⟩, _, found, rest'⟩ := bind_ok.mp done
  obtain ⟨-, rfl⟩ := callable_ok found
  exact rest c r settled rest'

theorem lands_set {n : Int} {a : α} : Lands (setOffset n >>= fun _ => pure a) n := by
  intro st b st' done
  obtain ⟨_, _, rfl, -, rfl⟩ := done
  rfl

theorem lands_sized {i : Info} {t : Ty} {start : Int} {a : α} (slot : i.ty = some t) :
    Lands (sizeOf i >>= fun n => setOffset (start + n) >>= fun _ => pure a)
      (start + t.deref.size) := by
  intro st b st' done
  simp only [bind_ok, sizeOf_ok, slot] at done
  obtain ⟨_, _, ⟨_, same, rfl, rfl⟩, done⟩ := done
  cases same
  exact lands_set (bind_ok.mpr done)

/-- A block leaves the offset as it was. -/
theorem moves_block {f : Int → Gen Code} :
    Moves (offset >>= fun start => within start (f start)) fun _ => 0 :=
  fun st items st' settled done => by
    obtain ⟨final, -, rfl⟩ := within_ok (show within st.offset (f st.offset) st = .ok items st' from done)
    simp [State.Shifts]

end

theorem emit_shifts : Moves (emit item) fun _ => itemGrowth item := by
  intro st items st' settled done
  rw [(emit_ok done).2]
  cases item with
  | label name => exact settled.refl
  | op ins target => rfl

/-! ## Locations -/

/-- Words of a location that stand on the stack. -/
def Location.words : Location → Int
  | inFrame _ _ => 0
  | onStack _ => 1

@[simp] theorem Location.words_shift (loc : Location) : (loc.shift k).words = loc.words := by
  cases loc <;> rfl

theorem emitBinary_shifts : Moves (emitBinary p) fun _ => -1 := fun _ _ _ _ done => (emitBinary_ok done).2

variable {loc : Location}

theorem address_shifts : Moves (address loc) fun _ => 1 - loc.words := by
  cases loc with
  | inFrame r disp => exact @emit_shifts (.loadA r disp)
  | onStack disp =>
    by_cases zero : disp = 0
    · simp only [address, zero, if_true]
      exact moves_pure rfl
    · simp only [address, zero, if_false]
      exact emit_shifts.bind fun _ => emitBinary_shifts.bind fun _ => moves_pure (by simp [Location.words])

theorem load_shifts : Moves (load loc n) fun _ => n - loc.words := by
  cases loc with
  | inFrame r disp => exact (@emit_shifts (.load n r disp)).by fun _ => (sub_zero n).symm
  | onStack disp =>
    exact address_shifts.bind fun _ => emit_shifts.bind fun _ => moves_pure (by simp [Location.words])

theorem store_shifts : Moves (store loc n) fun _ => -n - loc.words := by
  cases loc with
  | inFrame r disp => exact (@emit_shifts (.store n r disp)).by fun _ => (sub_zero (-n)).symm
  | onStack disp =>
    exact address_shifts.bind fun _ => emit_shifts.bind fun _ => moves_pure (by simp [Location.words])

theorem locateName_shifts : Moves (locateName env name) fun made => made.2.words := by
  refine .entity fun e depth _ => ?_
  cases e with
  | known => exact moves_fail
  | stored offset => exact (moves_register depth).then fun r => moves_pure rfl
  | indirect offset =>
    exact (moves_register depth).then fun r => emit_shifts.bind fun _ => moves_pure rfl

theorem toStack_shifts : Moves (toStack loc) fun made => made.2.words - loc.words := by
  cases loc with
  | inFrame r disp => exact emit_shifts.bind fun _ => moves_pure rfl
  | onStack disp => exact moves_pure rfl

theorem scaleIndex_shifts : Moves (scaleIndex elem) fun _ => 0 := by
  unfold scaleIndex
  split
  · exact moves_pure rfl
  · exact emit_shifts.bind fun _ => emitBinary_shifts.bind fun _ => moves_pure rfl

theorem locateField_shifts {located : Gen (Code × Location)} {record : Expr} {field : String}
    (inner : Moves located fun made => made.2.words) :
    Moves (locateField record field located) fun made => made.2.words := by
  rintro st ⟨items, loc⟩ st' settled done
  obtain ⟨place, t, fields, u, disp, found, -, -, -, rfl⟩ := locateField_ok done
  simpa using inner settled found

theorem locateElement_shifts {array : Gen (Code × Location)} {indexCode : Gen Code} {i : Info}
    {index : Expr} (inner : Moves array fun made => made.2.words)
    (count : Moves indexCode fun _ => 1) :
    Moves (locateElement i index array indexCode) fun made => made.2.words := by
  rintro st ⟨items, loc⟩ st' settled done
  obtain ⟨base, place, middle, t, found, -, literal | ⟨rest, ⟨start, code, scale, sum, _, _, _,
    onStack, counted, scaled, added, -⟩, -⟩⟩ := locateElement_ok done
  · obtain ⟨j, value, -, -, rfl, rfl⟩ := literal
    simpa using inner settled found
  · have first := inner settled found
    have second := toStack_shifts first.settled onStack
    have third := count second.settled counted
    have fourth := scaleIndex_shifts third.settled scaled
    refine ((((first.trans second).trans third).trans fourth).trans
      (emitBinary_shifts fourth.settled added)).by ?_
    dsimp only
    omega

/-! ## Trees -/

/-- What is known in advance takes one word. -/
def KnownFit (types : Check.Env) (env : Env) : Prop :=
  ∀ {name value depth t b}, env.locals.lookupWithDepth? name = some (.known value, depth) →
    types.terms.lookup? name = some (.typed t b) → t.isFunc = false → t.deref.size = 1

theorem fieldValues_shifts {values : List (String × Gen Code)} {fields : List (String × Ty)}
    (each : ∀ {name t value}, (name, t) ∈ fields → values.reverse.lookup name = some value →
      Moves value fun _ => t.size) (total : Int) :
    Moves (fieldValues values fields) fun _ => Ty.fieldsSize total fields - total := by
  induction fields generalizing total with
  | nil => exact moves_pure (by simp [Ty.fieldsSize])
  | cons field fields ih =>
    obtain ⟨name, t⟩ := field
    cases found : values.reverse.lookup name with
    | none => simpa only [fieldValues, found] using moves_fail
    | some value =>
      intro st items st' settled done
      simp only [fieldValues, found, bind_ok, pure_ok] at done
      obtain ⟨_, middle, first, _, _, rest, -, rfl⟩ := done
      have shift := each List.mem_cons_self found settled first
      have shifts := ih (fun member => each (List.mem_cons_of_mem _ member))
        (wrap64 (total + t.size)) shift.settled rest
      unfold State.Shifts at shift shifts ⊢
      dsimp only at shift shifts ⊢
      rw [shifts, shift, Ty.fieldsSize, wrap64_add_left, ← add_sub_assoc, wrap64_sub_right]
      congr 1
      omega

mutual
theorem expr_shifts (fit : KnownFit types env) {e t} (typed : Check.ExprTyped types e t) :
    Moves (expr env e) fun _ => t.deref.size := by
  cases e with
  | int i value =>
    rw [typed.2.1]
    exact (moves_moveTo _).then fun _ => emit_shifts
  | char i value | bool i value =>
    rw [typed.2]
    exact (moves_moveTo _).then fun _ => emit_shifts
  | ident i decl name =>
    obtain ⟨slot, plain, b, -, bound⟩ := typed
    refine (moves_moveTo _).then fun _ => .entity fun e depth known => ?_
    cases e with
    | known value =>
      rw [fit known bound plain]
      exact emit_shifts
    | stored | indirect =>
      exact locateName_shifts.bind fun _ => .sized slot <| load_shifts.bind fun _ =>
        moves_pure (by simp)
  | subscript i array index =>
    obtain ⟨slot, -, base, length, elem, k, arrayTyped, -, indexTyped, integer, -⟩ := typed
    have counted := (expr_shifts fit indexTyped).by fun _ => by rw [integer]
    exact (moves_moveTo _).then fun _ =>
      (locateElement_shifts (locate_shifts fit arrayTyped) counted).bind fun _ => .sized slot <|
      load_shifts.bind fun _ => moves_pure (by simp)
  | select i record field =>
    obtain ⟨slot, -, base, fields, inner, k, recordTyped, -⟩ := typed
    exact (moves_moveTo _).then fun _ =>
      (locateField_shifts (locate_shifts fit recordTyped)).bind fun _ => .sized slot <|
      load_shifts.bind fun _ => moves_pure (by simp)
  | unary i decl op operand | call i decl op operand =>
    exact (moves_moveTo _).then fun _ => Lands.moves fun _ => .bind fun _ => .bind fun _ =>
      lands_sized typed.1
  | binary i decl op left right =>
    exact (moves_moveTo _).then fun _ => Lands.moves fun _ => .bind fun _ => .bind fun _ =>
      .bind fun _ => .bind fun _ => lands_sized typed.1
  | cond i test yes no =>
    exact (moves_moveTo _).then fun _ => Lands.moves fun _ => .bind fun _ => .bind fun _ =>
      .bind fun _ => .bind fun _ => .bind fun _ => .bind fun _ => .bind fun _ => .bind fun _ =>
      .bind fun _ => .bind fun _ => lands_sized typed.1
  | letIn i ds body =>
    exact (moves_moveTo _).then fun _ => Lands.moves fun _ => .bind fun _ => lands_sized typed.1
  | array i elems =>
    obtain ⟨slot, elem, -, elemsTyped, rfl⟩ := typed
    refine (moves_moveTo _).then fun _ st _ st' settled done => ?_
    simpa [Ty.deref, Ty.size, State.Shifts] using exprs_shifts fit elemsTyped settled done
  | record i fields =>
    obtain ⟨slot, distinct, fieldTypes, fieldsTyped, rfl⟩ := typed
    refine (moves_moveTo _).then fun _ st _ st' settled done => ?_
    simp only [bind_ok, typeOf_ok, slot] at done
    obtain ⟨_, _, ⟨same, rfl⟩, done⟩ := done
    cases same
    have shifts := fieldValues_shifts (fun member found => initializers_shifts fit fieldsTyped distinct
      (List.mem_mergeSort.mp member) found) 0 settled done
    simpa [Ty.ofFields, Ty.deref, Ty.size] using shifts

theorem exprs_shifts (fit : KnownFit types env) : ∀ {es elem}, Check.ElemsTyped types elem es →
    Moves (exprs env es) fun _ => es.length * elem.size
  | [], elem, _ => moves_pure (by simp)
  | e :: es, elem, typed => by
    obtain ⟨⟨t, headTyped, rfl⟩, tailTyped⟩ := typed
    refine (expr_shifts fit headTyped).bind fun _ => (exprs_shifts fit tailTyped).bind fun _ =>
      moves_pure ?_
    push_cast [List.length_cons]
    ring

theorem initializers_shifts (fit : KnownFit types env) : ∀ {fields fieldTypes name t value},
    Check.FieldsTyped types fields fieldTypes → (fields.map Prod.fst).Nodup →
      (name, t) ∈ fieldTypes → (initializers env fields).reverse.lookup name = some value →
        Moves value fun _ => t.size
  | [], fieldTypes, name, t, value, typed, distinct, member, found => by
    simp [initializers] at found
  | (n, e) :: rest, fieldTypes, name, t, value, typed, distinct, member, found => by
    obtain ⟨u, others, headTyped, tailTyped, rfl⟩ := typed
    simp only [List.map_cons, List.nodup_cons] at distinct
    simp only [initializers, List.reverse_cons, List.lookup_append] at found
    rcases List.mem_cons.mp member with head | tail
    · cases head
      have last : (initializers env rest).reverse.lookup n = none := by
        rw [List.lookup_eq_none_iff]
        intro entry present
        rw [bne_iff_ne]
        rintro rfl
        rw [← initializers_names env] at distinct
        exact distinct.1 (List.mem_map_of_mem (List.mem_reverse.mp present))
      simp only [last, List.lookup_cons_self, Option.none_or, Option.some.injEq] at found
      subst found
      exact expr_shifts fit headTyped
    · have other : name ≠ n := by
        rintro rfl
        rw [← tailTyped.names] at distinct
        exact distinct.1 (List.mem_map_of_mem tail)
      rw [List.lookup_cons, beq_false_of_ne other] at found
      exact initializers_shifts fit tailTyped distinct.2 tail (by simpa using found)

theorem locate_shifts (fit : KnownFit types env) {e t} (typed : Check.ExprTyped types e t) :
    Moves (locate env e) fun made => made.2.words := by
  cases e with
  | ident i decl name => exact (moves_moveTo _).then fun _ => locateName_shifts
  | subscript i array index =>
    obtain ⟨slot, -, base, length, elem, k, arrayTyped, -, indexTyped, integer, -⟩ := typed
    have counted := (expr_shifts fit indexTyped).by fun _ => by rw [integer]
    exact (moves_moveTo _).then fun _ =>
      locateElement_shifts (locate_shifts fit arrayTyped) counted
  | select i record field =>
    obtain ⟨slot, -, base, fields, inner, k, recordTyped, -⟩ := typed
    exact (moves_moveTo _).then fun _ => locateField_shifts (locate_shifts fit recordTyped)
  | _ => exact (moves_moveTo _).then fun _ => moves_fail
end

theorem thunk_shifts : Moves (thunk i name) fun _ => 0 := by
  intro st made st' settled done
  obtain ⟨-, -, -, -, -, same⟩ := thunk_ok done
  simpa [State.Shifts] using same

theorem closure_shifts : Moves (closure env i name) fun _ => 2 := by
  refine .callable fun c r => ?_
  cases c with
  | routine label | primitive p =>
    exact emit_shifts.bind fun _ => emit_shifts.bind fun _ => moves_pure rfl
  | closure off => exact emit_shifts
  | conversion =>
    exact emit_shifts.bind fun _ => thunk_shifts.bind fun _ => emit_shifts.bind fun _ =>
      moves_pure rfl

theorem arg_shifts (fit : KnownFit types env) {argument : Arg} {want : Ty}
    (typed : Check.ArgTyped types argument want) : Moves (arg env argument) fun _ => want.size := by
  cases argument with
  | value i value =>
    obtain ⟨plain, -, got, typed, same⟩ := typed
    have itself : want.deref = want := by
      cases want <;> first | rfl | simp [Ty.isRef] at plain
    exact (moves_moveTo _).then fun _ => (expr_shifts fit typed).by fun _ => by rw [same, itself]
  | var i target =>
    obtain ⟨inner, got, root, rfl, typed, -⟩ := typed
    exact (moves_moveTo _).then fun _ => (locate_shifts fit typed).bind fun _ =>
      address_shifts.bind fun _ => moves_pure (by simp [Ty.size])
  | func i decl name =>
    obtain ⟨-, params, result, b, rfl, -⟩ := typed
    exact (moves_moveTo _).then fun _ => closure_shifts

theorem test_shifts (fit : KnownFit types env) {test : Expr}
    (typed : ∃ t, Check.ExprTyped types test t ∧ t.deref = .boolean) :
    Moves (expr env test) fun _ => 1 := by
  obtain ⟨t, typed, boolean⟩ := typed
  exact (expr_shifts fit typed).by fun _ => by rw [boolean]; rfl

mutual
theorem stmt_shifts (fit : KnownFit types env) {s} (typed : Check.StmtTyped types s) :
    Moves (stmt env s) fun _ => 0 := by
  cases s with
  | assign i target value =>
    obtain ⟨t, u, root, targetTyped, valueTyped, -⟩ := typed
    exact (moves_moveTo _).then fun _ => (expr_shifts fit valueTyped).bind fun _ =>
      (locate_shifts fit targetTyped).bind fun _ => .sized valueTyped.slot <|
      store_shifts.bind fun _ => moves_pure (by simp)
  | call i decl name as =>
    refine (moves_moveTo _).then fun _ => Lands.moves fun start => .bind fun _ => .bind fun _ => ?_
    rw [Int.add_zero]
    exact lands_set
  | seq i ss => exact (moves_moveTo _).then fun _ => stmts_shifts fit typed
  | letIn i ds body => exact (moves_moveTo _).then fun _ => moves_block
  | ifThen i test yes =>
    exact (moves_moveTo _).then fun _ => (moves_newLabel _).then fun _ =>
      (moves_newLabel _).then fun _ => (test_shifts fit typed.1).bind fun _ =>
      emit_shifts.bind fun _ => (stmt_shifts fit typed.2).bind fun _ => emit_shifts.bind fun _ =>
      emit_shifts.bind fun _ => emit_shifts.bind fun _ => moves_pure (by simp)
  | ifElse i test yes no =>
    exact (moves_moveTo _).then fun _ => (moves_newLabel _).then fun _ =>
      (moves_newLabel _).then fun _ => (test_shifts fit typed.1).bind fun _ =>
      emit_shifts.bind fun _ => (stmt_shifts fit typed.2.1).bind fun _ => emit_shifts.bind fun _ =>
      emit_shifts.bind fun _ => (stmt_shifts fit typed.2.2).bind fun _ => emit_shifts.bind fun _ =>
      moves_pure (by simp)
  | whileDo i test body =>
    exact (moves_moveTo _).then fun _ => (moves_newLabel _).then fun _ =>
      (moves_newLabel _).then fun _ => emit_shifts.bind fun _ => emit_shifts.bind fun _ =>
      (stmt_shifts fit typed.2).bind fun _ => emit_shifts.bind fun _ =>
      (test_shifts fit typed.1).bind fun _ => emit_shifts.bind fun _ => moves_pure (by simp)
  | repeatUntil i body test | repeatWhile i body test =>
    exact (moves_moveTo _).then fun _ => (moves_newLabel _).then fun _ => emit_shifts.bind fun _ =>
      (stmt_shifts fit typed.1).bind fun _ => (test_shifts fit typed.2).bind fun _ =>
      emit_shifts.bind fun _ => moves_pure (by simp)
  | loopWhile i pre test post =>
    exact (moves_moveTo _).then fun _ => (moves_newLabel _).then fun _ =>
      (moves_newLabel _).then fun _ => emit_shifts.bind fun _ =>
      (stmt_shifts fit typed.1).bind fun _ => (test_shifts fit typed.2.1).bind fun _ =>
      emit_shifts.bind fun _ => (stmt_shifts fit typed.2.2).bind fun _ => emit_shifts.bind fun _ =>
      emit_shifts.bind fun _ => moves_pure (by simp)
  | forever i body =>
    simp only [Check.StmtTyped] at typed
    exact (moves_moveTo _).then fun _ => (moves_newLabel _).then fun _ => emit_shifts.bind fun _ =>
      (stmt_shifts fit typed).bind fun _ => emit_shifts.bind fun _ => moves_pure (by simp)
  | skip i => exact (moves_moveTo _).then fun _ => moves_pure rfl

theorem stmts_shifts (fit : KnownFit types env) : ∀ {ss}, Check.StmtsTyped types ss →
    Moves (stmts env ss) fun _ => 0
  | [], _ => moves_pure rfl
  | _ :: _, typed => (stmt_shifts fit typed.1).bind fun _ =>
      (stmts_shifts fit typed.2).bind fun _ => moves_pure rfl
end

end Triangle.Generate
