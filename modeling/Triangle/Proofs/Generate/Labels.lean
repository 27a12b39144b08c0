import Mathlib
import Triangle.Check.Basic
import Triangle.Proofs.Code.Combining
import Triangle.Proofs.Code.Flow
import Triangle.Proofs.Code.Outcome
import Triangle.Proofs.Generate.Form

/-! The labels of generated code. Each number is used for one label, each label is put in one place,
and code jumps to nothing but labels, whether or not its tree has been checked. So no label is missing
or in two places when the code is resolved, threaded and combined or not. -/
namespace Triangle.Generate
open List
open Code (Item labelNames isIdentifier)

variable {α β : Type} {env : Env} {known : String → Prop} {n m : Nat}

/-! ## Numbered names -/

/-- An identifier and a number. -/
def Numbers (k : Nat) (name : String) : Prop :=
  ∃ stem : String, isIdentifier stem.toList = true ∧ name = s!"{stem}.{k}"

/-- What stands after the last point of a name. -/
def serial (name : String) : List Char := (name.toList.reverse.takeWhile (· != '.')).reverse

variable {name : String}

theorem Numbers.serial {k : Nat} (numbers : Numbers k name) :
    serial name = Nat.toDigits 10 k := by
  obtain ⟨stem, -, rfl⟩ := numbers
  have text : (s!"{stem}.{k}").toList = stem.toList ++ '.' :: Nat.toDigits 10 k := by
    simp [Code.toString_string]
  have digits : ∀ c ∈ (Nat.toDigits 10 k).reverse, (c != '.') = true := by
    intro c member
    have digit := Text.Numeral.isDigit_toDigits (mem_reverse.mp member)
    rw [bne_iff_ne]
    rintro rfl
    exact absurd digit (by decide)
  rw [Generate.serial, text, reverse_append, reverse_cons, append_assoc,
    takeWhile_append_of_pos digits]
  simp

theorem toDigits_inj {j k : Nat} : Nat.toDigits 10 j = Nat.toDigits 10 k ↔ j = k := by
  constructor
  · intro same
    have read := congrArg (Nat.ofDigitChars 10 · 0) same
    simpa using read
  · rintro rfl
    rfl

/-- How many of the names have the number. -/
def tally (k : Nat) (names : List String) : Nat :=
  names.countP fun name => serial name = Nat.toDigits 10 k

@[simp] theorem tally_nil (k : Nat) : tally k [] = 0 := rfl

@[simp] theorem tally_append (k : Nat) (names more : List String) :
    tally k (names ++ more) = tally k names + tally k more := countP_append

theorem tally_cons {j : Nat} (numbers : Numbers j name) (k : Nat)
    (names : List String) : tally k (name :: names) = tally k names + if j = k then 1 else 0 := by
  simp [tally, countP_cons, numbers.serial, toDigits_inj]

/-- Names with the numbers after `n`, in order. -/
def Fresh (n : Nat) : List String → Prop
  | [] => True
  | name :: names => Numbers (n + 1) name ∧ Fresh (n + 1) names

theorem Fresh.numbered {names : List String} (fresh : Fresh n names) :
    ∀ name ∈ names, ∃ k, Numbers k name := by
  induction names generalizing n with
  | nil => simp
  | cons name names ih => exact List.forall_mem_cons.mpr ⟨⟨n + 1, fresh.1⟩, ih fresh.2⟩

theorem Fresh.tally {names : List String} (fresh : Fresh n names) (k : Nat) :
    tally k names = if n < k ∧ k ≤ n + names.length then 1 else 0 := by
  induction names generalizing n with
  | nil =>
    rw [tally_nil, if_neg]
    simp only [length_nil]
    omega
  | cons name names ih =>
    rw [tally_cons fresh.1, ih fresh.2, length_cons]
    split_ifs <;> omega

/-! ## Labels of code -/

/-- The code has one label for each number from `n` on up to `m`, and its targets are among its labels
or are known. -/
structure Labelling (known : String → Prop) (n : Nat) (items : Code) (m : Nat) : Prop where
  order : n ≤ m
  numbered : ∀ name ∈ labelNames items, ∃ k, Numbers k name
  once : ∀ k, tally k (labelNames items) = if n < k ∧ k ≤ m then 1 else 0
  aims : ∀ item ∈ items, ∀ name ∈ item.target?, name ∈ labelNames items ∨ known name

namespace Labelling

theorem plain {items : Code} (unnamed : labelNames items = [])
    (aims : ∀ item ∈ items, ∀ name ∈ item.target?, known name) : Labelling known n items n where
  order := Nat.le_refl n
  numbered := by simp [unnamed]
  once k := by
    rw [unnamed, tally_nil, if_neg]
    omega
  aims item member name target := .inr (aims item member name target)

theorem nil : Labelling known n [] n := .plain rfl (by simp)

theorem mono {known' : String → Prop} {items : Code} (labelling : Labelling known n items m)
    (more : ∀ name, known name → known' name) : Labelling known' n items m where
  __ := labelling
  aims item member name target := (labelling.aims item member name target).imp_right (more name)

/-- One piece of code after the other. What the second knows more may be labels of the first. -/
theorem seq' {known' : String → Prop} {first second : Code} {l : Nat}
    (before : Labelling known n first l) (after : Labelling known' l second m)
    (within : ∀ name, known' name → name ∈ labelNames first ∨ known name) :
    Labelling known n (first ++ second) m where
  order := before.order.trans after.order
  numbered := by
    rw [Code.labelNames_append, forall_mem_append]
    exact ⟨before.numbered, after.numbered⟩
  once k := by
    have low := before.order
    have high := after.order
    rw [Code.labelNames_append, tally_append, before.once, after.once]
    split_ifs <;> omega
  aims := by
    rw [forall_mem_append]
    simp only [Code.labelNames_append, mem_append]
    constructor
    · intro item member name target
      exact (before.aims item member name target).imp_left .inl
    · intro item member name target
      rcases after.aims item member name target with own | outer
      · exact .inl (.inr own)
      · exact (within name outer).imp_left .inl

theorem seq {first second : Code} {l : Nat} (before : Labelling known n first l)
    (after : Labelling known l second m) : Labelling known n (first ++ second) m :=
  before.seq' after fun _ => .inr

/-- Fresh labels and jumps to them around a piece of code. -/
theorem enclose {known' : String → Prop} {code items : Code} (names : List String)
    (inner : Labelling known' (n + names.length) code m) (fresh : Fresh n names)
    (within : ∀ name, known' name → name ∈ names ∨ known name)
    (labels : ∀ name, (labelNames items).count name = (names ++ labelNames code).count name := by
      simp [count_cons, Item.jump, Item.jumpIf, Item.aimed] <;> omega)
    (jumps : ∀ item ∈ items, item ∈ code ∨ ∀ name ∈ item.target?, name ∈ names := by
      grind [Item.target?, Item.jump, Item.jumpIf, Item.aimed]) : Labelling known n items m := by
  have perm := perm_iff_count.mpr labels
  constructor
  · exact (Nat.le_add_right _ _).trans inner.order
  · intro name member
    rcases mem_append.mp (perm.mem_iff.mp member) with new | old
    · exact fresh.numbered name new
    · exact inner.numbered name old
  · intro k
    have order := inner.order
    rw [tally, perm.countP_eq, ← tally, tally_append, fresh.tally, inner.once]
    split_ifs <;> omega
  · intro item member name target
    rw [perm.mem_iff, mem_append]
    rcases jumps item member with old | new
    · rcases inner.aims item old name target with own | outer
      · exact .inl (.inr own)
      · exact (within name outer).imp_left .inl
    · exact .inl (.inl (new name target))

theorem nodup {items : Code} (labelling : Labelling known n items m) : (labelNames items).Nodup := by
  rw [nodup_iff_count_le_one]
  intro name
  by_cases member : name ∈ labelNames items
  · obtain ⟨k, numbers⟩ := labelling.numbered name member
    calc (labelNames items).count name
        ≤ tally k (labelNames items) := countP_mono_left fun other _ same => by
          simp [eq_of_beq same, numbers.serial]
      _ = if n < k ∧ k ≤ m then 1 else 0 := labelling.once k
      _ ≤ 1 := by split_ifs <;> omega
  · rw [count_eq_zero_of_not_mem member]
    omega

end Labelling

/-! ## Steps -/

/-- With `n` labels in use before them, the steps end as it is told of what they return and of the
labels in use then. -/
def Ends (n : Nat) (x : Gen α) (good : α → Nat → Prop) : Prop :=
  ∀ ⦃st a st'⦄, st.labels = n → x st = .ok a st' → good a st'.labels

/-- The steps make code whose labels are numbered and whose targets are known. -/
abbrev Labels (known : String → Prop) (n : Nat) (x : Gen Code) : Prop := Ends n x (Labelling known n)

variable {k : Int} {i : Info}

section

variable {x : Gen α} {f : α → Gen β} {good : α → Nat → Prop} {next : β → Nat → Prop}

theorem Ends.bind (first : Ends n x good) (rest : ∀ a l, good a l → Ends l (f a) next) :
    Ends n (x >>= f) next := by
  intro st b st' start done
  obtain ⟨a, middle, begun, done⟩ := bind_ok.mp done
  exact rest a middle.labels (first start begun) rfl done

/-- Steps that use no label. -/
theorem Ends.skip (kept : ∀ ⦃st a st'⦄, x st = .ok a st' → st'.labels = st.labels)
    (rest : ∀ a, Ends n (f a) next) : Ends n (x >>= f) next := by
  intro st b st' start done
  obtain ⟨a, middle, begun, done⟩ := bind_ok.mp done
  exact rest a ((kept begun).trans start) done

theorem Ends.mono {fair : α → Nat → Prop} (ends : Ends n x good)
    (weaker : ∀ a l, good a l → fair a l) : Ends n x fair :=
  fun _ a _ start done => weaker a _ (ends start done)

theorem ends_pure {a : α} (holds : good a n) : Ends n (pure a) good := by
  intro st b st' start done
  obtain ⟨rfl, rfl⟩ := pure_ok.mp done
  exact start ▸ holds

theorem ends_fail {cause : Cause} : Ends n (fail cause) good := by
  intro st a st' start done
  simp [fail_ok] at done

theorem Ends.moved {x : Gen β} {pos : Pos} (rest : Ends n x next) :
    Ends n (moveTo pos >>= fun _ => x) next := by
  refine .skip (fun st _ st' done => ?_) fun _ => rest
  rw [moveTo_ok.mp done, State.moved]
  split <;> rfl

theorem labels_offset ⦃st k st'⦄ (done : offset st = .ok k st') : st'.labels = st.labels := by
  rw [(offset_ok.mp done).2]

theorem labels_setOffset ⦃st u st'⦄ (done : setOffset k st = .ok u st') :
    st'.labels = st.labels := by
  rw [setOffset_ok.mp done]
  rfl

theorem labels_typeOf ⦃st t st'⦄ (done : typeOf i st = .ok t st') :
    st'.labels = st.labels := by
  rw [(typeOf_ok.mp done).2]

theorem labels_sizeOf ⦃st k st'⦄ (done : sizeOf i st = .ok k st') :
    st'.labels = st.labels := by
  obtain ⟨_, -, -, rfl⟩ := sizeOf_ok.mp done
  rfl

theorem labels_entity ⦃st e st'⦄ (done : entity env name st = .ok e st') :
    st'.labels = st.labels := by
  rw [(entity_ok.mp done).2]

theorem labels_register {depth : Nat} ⦃st r st'⦄ (done : register env depth st = .ok r st') :
    st'.labels = st.labels := by
  rw [(register_ok.mp done).2]

theorem Ends.callable {f : Callable × Reg → Gen β}
    (rest : ∀ c r, (∀ l, c = .routine l → env.Enters l) → Ends n (f (c, r)) next) :
    Ends n (callable env name >>= f) next := by
  intro st b st' start done
  obtain ⟨⟨c, r⟩, _, found, done'⟩ := bind_ok.mp done
  obtain ⟨⟨depth, named, -⟩, rfl⟩ := callable_ok found
  refine rest c r ?_ start done'
  rintro l rfl
  exact ⟨name, depth, named⟩

theorem Ends.newLabel {f : String → Gen β} {stem : String}
    (identifier : isIdentifier stem.toList = true)
    (rest : ∀ name, Numbers (n + 1) name → Ends (n + 1) (f name) next) :
    Ends n (newLabel stem >>= f) next := by
  intro st b st' start done
  obtain ⟨name, _, made, done⟩ := bind_ok.mp done
  obtain ⟨rfl, rfl⟩ := newLabel_ok.mp made
  subst start
  exact rest _ ⟨stem, identifier, rfl⟩ rfl done

theorem Ends.routineLabel {f : String → Gen β}
    (rest : ∀ entry, Numbers (n + 1) entry → Ends (n + 1) (f entry) next) :
    Ends n (routineLabel name >>= f) next := by
  obtain ⟨stem, identifier, same⟩ := routineLabel_eq name
  rw [same]
  exact .newLabel identifier rest

theorem labels_past (st : State) (item : Item) : (st.past item).labels = st.labels := by
  cases item <;> rfl

theorem Ends.emit {f : Code → Gen β} {item : Item} (rest : Ends n (f [item]) next) :
    Ends n (emit item >>= f) next := by
  intro st b st' start done
  obtain ⟨code, _, made, done⟩ := bind_ok.mp done
  obtain ⟨rfl, rfl⟩ := emit_ok made
  exact rest ((labels_past st item).trans start) done

theorem labels_emit {item : Item} (plain : labelNames [item] = [])
    (aims : ∀ name ∈ item.target?, known name) : Labels known n (emit item) := by
  intro st code st' start done
  obtain ⟨rfl, rfl⟩ := emit_ok done
  rw [labels_past, start]
  exact .plain plain (by simpa using aims)

theorem labels_plain {op : Op} {r : Reg} {d : Int} : Labels known n (emit (.plain op r k d)) :=
  labels_emit rfl (by simp [Item.plain, Item.target?])

theorem labels_aimed {op : Op} (aims : known name) :
    Labels known n (emit (.aimed op k name)) :=
  labels_emit rfl (by simpa [Item.aimed, Item.target?] using aims)

theorem Ends.within {body : Gen Code} {good : Code → Nat → Prop} (inner : Ends n body good) :
    Ends n (within k body) good := by
  intro st items st' start done
  obtain ⟨final, made, rfl⟩ := within_ok done
  have begun : (st.reset k).labels = n := start
  have ended := inner begun made
  exact ended

end

/-! ## Locations and routines -/

theorem labels_emitBinary {p : Primitive} : Labels known n (emitBinary p) :=
  labels_plain.bind fun _ _ code => .skip
    (fun st _ st' done => by rw [adjust_ok.mp done]; rfl) fun _ => ends_pure code

variable {loc : Location}

theorem labels_address : Labels known n (address loc) := by
  cases loc with
  | inFrame r disp =>
    simp only [address]
    exact labels_plain
  | onStack disp =>
    by_cases zero : disp = 0
    · simp only [address, zero, if_true]
      exact ends_pure .nil
    · simp only [address, zero, if_false]
      exact labels_plain.bind fun _ _ first => labels_emitBinary.bind fun _ _ second =>
        ends_pure (first.seq second)

theorem labels_load : Labels known n (load loc k) := by
  cases loc with
  | inFrame r disp => exact labels_plain
  | onStack disp =>
    exact labels_address.bind fun _ _ first => labels_plain.bind fun _ _ second =>
      ends_pure (first.seq second)

theorem labels_store : Labels known n (store loc k) := by
  cases loc with
  | inFrame r disp => exact labels_plain
  | onStack disp =>
    exact labels_address.bind fun _ _ first => labels_plain.bind fun _ _ second =>
      ends_pure (first.seq second)

theorem labels_scaleIndex {elem : Int} : Labels known n (scaleIndex elem) := by
  unfold scaleIndex
  split
  · exact ends_pure .nil
  · exact labels_plain.bind fun _ _ first => labels_emitBinary.bind fun _ _ second =>
      ends_pure (first.seq second)

theorem ends_locateName :
    Ends n (locateName env name) fun made l => Labelling known n made.1 l := by
  refine .skip labels_entity ?_
  rintro ⟨e, depth⟩
  cases e with
  | known => exact ends_fail
  | stored offset => exact .skip labels_register fun _ => ends_pure .nil
  | indirect offset =>
    exact .skip labels_register fun _ => labels_plain.bind fun _ _ code => ends_pure code

theorem ends_toStack :
    Ends n (toStack loc) fun made l => Labelling known n made.1 l := by
  cases loc with
  | inFrame r disp => exact labels_plain.bind fun _ _ code => ends_pure code
  | onStack disp => exact ends_pure .nil

theorem ends_locateElement {index : Expr} {array : Gen (Code × Location)}
    {indexCode : Gen Code} (inner : Ends n array fun made l => Labelling known n made.1 l)
    (counts : ∀ n, Labels known n indexCode) :
    Ends n (locateElement i index array indexCode) fun made l => Labelling known n made.1 l := by
  refine inner.bind fun made _ base => .skip labels_sizeOf fun elem => ?_
  cases index with
  | int => exact ends_pure base
  | _ =>
    exact ends_toStack.bind fun _ _ first => (counts _).bind fun _ _ second =>
      labels_scaleIndex.bind fun _ _ third => labels_emitBinary.bind fun _ _ last =>
      ends_pure ((((base.seq first).seq second).seq third).seq last)

theorem ends_locateField {record : Expr} {field : String} {located : Gen (Code × Location)}
    (inner : Ends n located fun made l => Labelling known n made.1 l) :
    Ends n (locateField record field located) fun made l => Labelling known n made.1 l := by
  rintro st ⟨items, loc⟩ st' start done
  obtain ⟨place, -, -, -, -, found, -⟩ := locateField_ok done
  have made := inner start found
  exact made

theorem labels_fieldValues {values : List (String × Gen Code)} {fields : List (String × Ty)}
    (each : ∀ v ∈ values, ∀ n, Labels known n v.2) : Labels known n (fieldValues values fields) := by
  induction fields generalizing n with
  | nil => exact ends_pure .nil
  | cons field fields ih =>
    obtain ⟨name, t⟩ := field
    cases found : values.reverse.lookup name with
    | none =>
      simp only [fieldValues, found]
      exact ends_fail
    | some value =>
      simp only [fieldValues, found]
      have member := mem_reverse.mp (Scope.mem_of_lookup found)
      exact (each _ member n).bind fun _ _ first => ih.bind fun _ _ rest =>
        ends_pure (first.seq rest)

theorem labels_comparedSize {op : String} :
    Labels known n (comparedSize env op i) := by
  refine .callable fun c r _ => ?_
  have sized : Labels known n (do emit (.loadL (← sizeOf i))) :=
    .skip labels_sizeOf fun _ => labels_plain
  have nothing : Labels known n (pure []) := ends_pure .nil
  cases c with
  | primitive p => cases p <;> first | exact sized | exact nothing
  | routine | closure | conversion => exact nothing

theorem labels_invoke : Labels env.Enters n (invoke env name) := by
  refine .callable fun c r enters => ?_
  cases c with
  | routine label => exact labels_aimed (enters label rfl)
  | closure offset =>
    exact labels_plain.bind fun _ _ first => labels_plain.bind fun _ _ second =>
      ends_pure (first.seq second)
  | primitive p => exact labels_plain
  | conversion => exact ends_pure .nil

/-- The routine that is made out of a conversion is entered at one of its labels. -/
theorem ends_thunk :
    Ends n (thunk i name) fun made l =>
      Labelling known n made.1 l ∧ made.2 ∈ labelNames made.1 := by
  refine .skip labels_typeOf fun t => ?_
  cases t with
  | func params result =>
    refine .skip labels_offset fun _ => .routineLabel fun entry first => .newLabel (by decide)
      fun skip second => .emit <| .emit <|
      Ends.bind (labels_plain : Labels known _ _) fun value _ loaded =>
      Ends.bind (labels_plain : Labels known _ _) fun back _ returned => .emit <|
      .skip labels_setOffset fun _ => ends_pure ⟨?_, by simp [Item.jump, Item.aimed]⟩
    exact .enclose [entry, skip] (loaded.seq returned) ⟨first, second, trivial⟩ fun _ => .inr
  | _ => exact ends_fail

theorem labels_closure : Labels env.Enters n (closure env i name) := by
  refine .callable fun c r enters => ?_
  cases c with
  | routine label =>
    exact labels_plain.bind fun _ _ first => (labels_aimed (enters label rfl)).bind
      fun _ _ second => ends_pure (first.seq second)
  | closure offset => exact labels_plain
  | primitive p =>
    exact labels_plain.bind fun _ _ first => labels_plain.bind fun _ _ second =>
      ends_pure (first.seq second)
  | conversion =>
    refine Ends.bind (labels_plain : Labels env.Enters _ _) fun _ _ link =>
      (@ends_thunk env.Enters _ name i).bind fun made l thunk => ?_
    have last : Labels (· ∈ labelNames made.1) l (emit (.loadLabel made.2)) := labels_aimed thunk.2
    exact last.bind fun _ _ entry => ends_pure
      ((link.seq thunk.1).seq' entry fun name own => .inl (by simp [own]))

/-- Parameters are no routines of the program. -/
theorem ends_bindParams {params : List Param} {start : Int} :
    Ends n (bindParams env start params) fun inner l =>
      l = n ∧ ∀ label, inner.Enters label → env.Enters label := by
  induction params generalizing env start n with
  | nil => exact ends_pure ⟨rfl, fun _ => id⟩
  | cons p ps ih =>
    refine .skip labels_typeOf fun t => ih.mono ?_
    rintro inner _ ⟨rfl, enters⟩
    refine ⟨rfl, fun label entered => ?_⟩
    have outer := enters label entered
    cases p with
    | value | var => exact outer
    | func => exact (Env.enters_addCallable outer).resolve_left (by simp)

theorem labels_paramsSize {params : List Param} {size : Int} ⦃st k st'⦄
    (done : paramsSize size params st = .ok k st') : st'.labels = st.labels := by
  induction params generalizing size st with
  | nil => rw [(pure_ok.mp done).2]
  | cons p ps ih =>
    obtain ⟨t, middle, typed, done⟩ := bind_ok.mp done
    rw [ih done, labels_typeOf typed]

theorem ends_routine {params : List Param} {result : Int} {body : Env → Gen Code}
    (labels : ∀ inner n, Labels inner.Enters n (body inner)) :
    Ends n (routine env name params result body) fun made l =>
      Labelling env.Enters n made.2 l ∧
        ∀ label, made.1.Enters label → label ∈ labelNames made.2 ∨ env.Enters label := by
  refine .routineLabel fun entry first => .newLabel (by decide) fun skip second => .emit <| .emit ?_
  have opened (label : String) (enters : (env.addCallable name (.routine entry)).enterFrame.Enters label) :
      label ∈ [entry, skip] ∨ env.Enters label := by
    rcases Env.enters_addCallable (Env.enters_enterFrame.mp enters) with same | outer
    · cases same
      exact .inl (by simp)
    · exact .inr outer
  have inside : Labels (env.addCallable name (.routine entry)).enterFrame.Enters (n + 1 + 1) (do
      let size ← paramsSize 0 params
      let inner ← bindParams (env.addCallable name (.routine entry)).enterFrame (wrap64 (-size)) params
      let code ← body inner
      return code ++ (← emit (.ret result size))) := by
    refine .skip labels_paramsSize fun _ => ends_bindParams.bind ?_
    rintro inner _ ⟨rfl, enters⟩
    exact (labels inner _).bind fun _ _ code => labels_plain.bind fun _ _ back =>
      ends_pure ((code.mono enters).seq back)
  refine inside.within.bind fun code _ made => .emit <| ends_pure ⟨?_, fun label enters => ?_⟩
  · exact .enclose [entry, skip] made ⟨first, second, trivial⟩ opened
  · refine (Env.enters_addCallable enters).imp_left fun same => ?_
    cases same
    simp [Item.jump, Item.aimed]

/-! ## Trees -/

mutual
theorem expr_labels (env : Env) : ∀ (e : Expr) (n : Nat), Labels env.Enters n (expr env e)
  | .int i value, n | .char i value, n | .bool i value, n =>
    .moved <| labels_plain
  | .ident i decl name, n => by
    refine .moved <| .skip labels_entity ?_
    rintro ⟨e, depth⟩
    cases e with
    | known value => exact labels_plain
    | stored | indirect =>
      exact ends_locateName.bind fun _ _ base => .skip labels_sizeOf fun _ =>
        labels_load.bind fun _ _ value => ends_pure (base.seq value)
  | .subscript i array index, n =>
    .moved <|
      (ends_locateElement (locate_labels env array n) (expr_labels env index)).bind fun _ _ base =>
      .skip labels_sizeOf fun _ => labels_load.bind fun _ _ value => ends_pure (base.seq value)
  | .select i record field, n =>
    .moved <| (ends_locateField (locate_labels env record n)).bind fun _ _ base =>
      .skip labels_sizeOf fun _ => labels_load.bind fun _ _ value => ends_pure (base.seq value)
  | .unary i decl op operand, n =>
    .moved <| .skip labels_offset fun _ =>
      (expr_labels env operand n).bind fun _ _ value => labels_invoke.bind fun _ _ call =>
      .skip labels_sizeOf fun _ => .skip labels_setOffset fun _ => ends_pure (value.seq call)
  | .binary i decl op left right, n =>
    .moved <| .skip labels_offset fun _ =>
      (expr_labels env left n).bind fun _ _ first => (expr_labels env right _).bind fun _ _ second =>
      labels_comparedSize.bind fun _ _ size => labels_invoke.bind fun _ _ call =>
      .skip labels_sizeOf fun _ => .skip labels_setOffset fun _ =>
      ends_pure (((first.seq second).seq size).seq call)
  | .call i decl name as, n =>
    .moved <| .skip labels_offset fun _ =>
      (args_labels env as n).bind fun _ _ pushed => labels_invoke.bind fun _ _ call =>
      .skip labels_sizeOf fun _ => .skip labels_setOffset fun _ => ends_pure (pushed.seq call)
  | .cond i test yes no, n =>
    .moved <| .skip labels_offset fun _ => .newLabel (by decide) fun other new =>
      .newLabel (by decide) fun done new' => (expr_labels env test _).bind fun _ _ tested => .emit <|
      (expr_labels env yes _).bind fun _ _ first => .emit <| .emit <| .skip labels_setOffset fun _ =>
      (expr_labels env no _).bind fun _ _ second => .emit <| .skip labels_sizeOf fun _ =>
      .skip labels_setOffset fun _ => ends_pure
        (.enclose [other, done] ((tested.seq first).seq second) ⟨new, new', trivial⟩ fun _ => .inr)
  | .letIn i ds body, n => by
    refine .moved <| .skip labels_offset fun _ => ?_
    refine Ends.bind (show Labels env.Enters n _ from .within ?_) fun _ _ made =>
      .skip labels_sizeOf fun _ => .skip labels_setOffset fun _ => ends_pure made
    exact (decls_labels env.enterBlock ds n).bind fun made _ declared => .skip labels_offset fun _ =>
      (expr_labels made.1 body _).bind fun _ _ value => .skip labels_sizeOf fun _ =>
      labels_plain.bind fun _ _ popped => ends_pure
        (((declared.1.seq' value declared.2).seq popped).mono fun _ => Env.enters_enterBlock.mp)
  | .array i elems, n => .moved <| exprs_labels env elems n
  | .record i fields, n => by
    refine .moved <| .skip labels_typeOf fun t => ?_
    cases t.deref with
    | record types => exact labels_fieldValues (initializers_labels env fields)
    | _ => exact ends_fail

theorem exprs_labels (env : Env) : ∀ (es : List Expr) (n : Nat), Labels env.Enters n (exprs env es)
  | [], _ => ends_pure .nil
  | e :: es, n => (expr_labels env e n).bind fun _ _ first => (exprs_labels env es _).bind
      fun _ _ rest => ends_pure (first.seq rest)

theorem initializers_labels (env : Env) : ∀ (fields : List (String × Expr)),
    ∀ v ∈ initializers env fields, ∀ n, Labels env.Enters n v.2
  | [] => by simp [initializers]
  | (name, e) :: rest => by
    rw [initializers, List.forall_mem_cons]
    exact ⟨expr_labels env e, initializers_labels env rest⟩

theorem locate_labels (env : Env) : ∀ (e : Expr) (n : Nat),
    Ends n (locate env e) fun made l => Labelling env.Enters n made.1 l
  | .ident .., _ => .moved <| ends_locateName
  | .subscript _ array index, n => .moved <|
      ends_locateElement (locate_labels env array n) (expr_labels env index)
  | .select _ record _, n => .moved <|
      ends_locateField (locate_labels env record n)
  | .int .., _ | .char .., _ | .bool .., _ | .unary .., _ | .binary .., _ | .call .., _ | .cond .., _
  | .letIn .., _ | .array .., _ | .record .., _ => .moved <| ends_fail

theorem args_labels (env : Env) : ∀ (as : List Arg) (n : Nat), Labels env.Enters n (args env as)
  | [], _ => ends_pure .nil
  | a :: as, n => (arg_labels env a n).bind fun _ _ first => (args_labels env as _).bind
      fun _ _ rest => ends_pure (first.seq rest)

theorem arg_labels (env : Env) : ∀ (a : Arg) (n : Nat), Labels env.Enters n (arg env a)
  | .value _ value, n => .moved <| expr_labels env value n
  | .var _ target, n => .moved <| (locate_labels env target n).bind
      fun _ _ base => labels_address.bind fun _ _ last => ends_pure (base.seq last)
  | .func .., _ => .moved <| labels_closure

/-- Routines that are declared are entered at labels of their own code. -/
theorem decls_labels (env : Env) : ∀ (ds : List Decl) (n : Nat),
    Ends n (decls env ds) fun made l => Labelling env.Enters n made.2 l ∧
      ∀ label, made.1.Enters label → label ∈ labelNames made.2 ∨ env.Enters label
  | [], _ => ends_pure ⟨.nil, fun _ => .inr⟩
  | d :: ds, n => by
    refine (decl_labels env d n).bind fun _ _ first => (decls_labels _ ds _).bind fun _ _ rest =>
      ends_pure ⟨first.1.seq' rest.1 first.2, fun label enters => ?_⟩
    rw [Code.labelNames_append, mem_append]
    rcases rest.2 label enters with own | outer
    · exact .inl (.inr own)
    · exact (first.2 label outer).imp_left .inl

theorem decl_labels (env : Env) : ∀ (d : Decl) (n : Nat),
    Ends n (decl env d) fun made l => Labelling env.Enters n made.2 l ∧
      ∀ label, made.1.Enters label → label ∈ labelNames made.2 ∨ env.Enters label
  | .const i name value, n => by
    refine .moved ?_
    cases value.literal? with
    | some l => exact ends_pure ⟨.nil, fun _ => .inr⟩
    | none =>
      exact .skip labels_offset fun _ => (expr_labels env value n).bind fun _ _ code =>
        ends_pure ⟨code, fun _ => .inr⟩
  | .var i name _, n => .moved <| .skip labels_offset fun _ =>
      .skip labels_typeOf fun _ => labels_plain.bind fun _ _ code =>
      ends_pure ⟨code, fun _ => .inr⟩
  | .func i name params _ body, n => by
    refine .moved <| .skip labels_typeOf fun t => ?_
    cases t with
    | func => exact ends_routine fun inner n => expr_labels inner body n
    | _ => exact ends_fail
  | .proc i name params body, n => .moved <|
      ends_routine fun inner n => stmt_labels inner body n
  | .type i _ _, n => .moved <|
      ends_pure ⟨.nil, fun _ => .inr⟩

theorem stmt_labels (env : Env) : ∀ (s : Stmt) (n : Nat), Labels env.Enters n (stmt env s)
  | .assign i target value, n => .moved <|
      (expr_labels env value n).bind fun _ _ first => (locate_labels env target _).bind
      fun _ _ second => .skip labels_sizeOf fun _ => labels_store.bind fun _ _ last =>
      ends_pure ((first.seq second).seq last)
  | .call i decl name as, n => .moved <| .skip labels_offset fun _ =>
      (args_labels env as n).bind fun _ _ pushed => labels_invoke.bind fun _ _ call =>
      .skip labels_setOffset fun _ => ends_pure (pushed.seq call)
  | .seq i ss, n => .moved <| stmts_labels env ss n
  | .letIn i ds body, n => by
    refine .moved <| .skip labels_offset fun _ => .within ?_
    exact (decls_labels env.enterBlock ds n).bind fun made _ declared => .skip labels_offset fun _ =>
      (stmt_labels made.1 body _).bind fun _ _ code => labels_plain.bind fun _ _ popped => ends_pure
        (((declared.1.seq' code declared.2).seq popped).mono fun _ => Env.enters_enterBlock.mp)
  | .ifThen i test yes, n =>
    .moved <| .newLabel (by decide) fun other new =>
      .newLabel (by decide) fun done new' => (expr_labels env test _).bind fun _ _ tested => .emit <|
      (stmt_labels env yes _).bind fun _ _ first => .emit <| .emit <| .emit <| ends_pure
        (.enclose [other, done] (tested.seq first) ⟨new, new', trivial⟩ fun _ => .inr)
  | .ifElse i test yes no, n =>
    .moved <| .newLabel (by decide) fun other new =>
      .newLabel (by decide) fun done new' => (expr_labels env test _).bind fun _ _ tested => .emit <|
      (stmt_labels env yes _).bind fun _ _ first => .emit <| .emit <|
      (stmt_labels env no _).bind fun _ _ second => .emit <| ends_pure
        (.enclose [other, done] ((tested.seq first).seq second) ⟨new, new', trivial⟩ fun _ => .inr)
  | .whileDo i test body, n =>
    .moved <| .newLabel (by decide) fun top new =>
      .newLabel (by decide) fun check new' => .emit <| .emit <|
      (stmt_labels env body _).bind fun _ _ code => .emit <|
      (expr_labels env test _).bind fun _ _ tested => .emit <| ends_pure
        (.enclose [top, check] (code.seq tested) ⟨new, new', trivial⟩ fun _ => .inr)
  | .repeatUntil i body test, n | .repeatWhile i body test, n =>
    .moved <| .newLabel (by decide) fun top new => .emit <|
      (stmt_labels env body _).bind fun _ _ code => (expr_labels env test _).bind fun _ _ tested =>
      .emit <| ends_pure (.enclose [top] (code.seq tested) ⟨new, trivial⟩ fun _ => .inr)
  | .loopWhile i pre test post, n =>
    .moved <| .newLabel (by decide) fun top new =>
      .newLabel (by decide) fun done new' => .emit <| (stmt_labels env pre _).bind fun _ _ first =>
      (expr_labels env test _).bind fun _ _ tested => .emit <|
      (stmt_labels env post _).bind fun _ _ second => .emit <| .emit <| ends_pure
        (.enclose [top, done] ((first.seq tested).seq second) ⟨new, new', trivial⟩ fun _ => .inr)
  | .forever i body, n =>
    .moved <| .newLabel (by decide) fun top new => .emit <|
      (stmt_labels env body _).bind fun _ _ code => .emit <| ends_pure
        (.enclose [top] code ⟨new, trivial⟩ fun _ => .inr)
  | .skip i, n => .moved <| ends_pure .nil

theorem stmts_labels (env : Env) : ∀ (ss : List Stmt) (n : Nat), Labels env.Enters n (stmts env ss)
  | [], _ => ends_pure .nil
  | s :: ss, n => (stmt_labels env s n).bind fun _ _ first => (stmts_labels env ss _).bind
      fun _ _ rest => ends_pure (first.seq rest)
end

end Triangle.Generate

namespace Triangle.Code

variable {items : List Item}

/-! ## Resolution of linked code -/

theorem Linked.combined (linked : Linked items) : Linked (combine items) where
  distinct := (covers_combine items).labelNames ▸ linked.distinct
  defined item member name target := by
    rw [← (covers_combine items).labelNames]
    rcases (covers_combine items).mem member with inside | ⟨w, rfl⟩
    · exact linked.defined item inside name target
    · cases target

/-- A label is missing, or it is in two places. -/
def ResolveFault.IsOfLabel : ResolveFault → Prop
  | .duplicateLabel _ | .undefinedLabel _ _ => True
  | .tooLarge _ | .invalid _ _ => False

theorem Linked.resolve {fault : ResolveFault} (linked : Linked items)
    (failed : resolve items = .error fault) : ¬fault.IsOfLabel := by
  intro ofLabel
  cases resolve_iff_outcome.mp failed with
  | disorder cause =>
    cases cause with
    | duplicate split distinct again =>
      have whole := linked.distinct
      rw [split, labelNames_append, labelNames_label] at whole
      exact (List.nodup_append.mp whole).2.2 _ again _ List.mem_cons_self rfl
    | tooLarge => exact ofLabel
  | refused orderly split resolve refused =>
    cases refused with
    | @undefined ins name nowhere =>
      have inside : Item.op ins (some name) ∈ remaining items := by
        rw [split]
        exact List.mem_append_right _ List.mem_cons_self
      have known := linked.defined _ (List.mem_of_mem_filter inside) name rfl
      obtain ⟨before, after, whole⟩ := List.append_of_mem (mem_labelNames.mp known)
      exact nowhere _ ⟨before, after, whole, rfl⟩
    | invalid => exact ofLabel

end Triangle.Code

namespace Triangle
open Code

/-- Whatever the tree, the labels of its code are identifiers and differ, its targets are among them,
and it ends in HALT. Labels are no reason why the code, threaded and combined or not, cannot be
resolved. -/
theorem Program.generate_linked {p : Program} {items : List Item} (made : p.generate = .ok items) :
    (labelNames items).Nodup ∧
      (∀ item ∈ items, ∀ name ∈ item.target?, name ∈ labelNames items) ∧
      (∀ name ∈ labelNames items, isIdentifier name.toList = true) ∧
      items.getLast? = some .halt ∧
      ∀ code ∈ [items, thread items, combine (thread items)], ∀ fault,
        resolve code = .error fault → ¬fault.IsOfLabel := by
  have whole : Generate.Ends 0 (do return (← Generate.stmt .standard p.body) ++ (← Generate.emit .halt))
      fun items l => Generate.Labelling Generate.Env.standard.Enters 0 items l ∧
        items.getLast? = some .halt :=
    (Generate.stmt_labels .standard p.body 0).bind fun _ _ code => .emit <| Generate.ends_pure
      ⟨code.seq (.plain rfl (by simp [Item.halt, Item.plain, Item.target?])), by simp⟩
  simp only [Program.generate, EStateM.run] at made
  split at made
  · rename_i code st done
    cases made
    obtain ⟨labelling, last⟩ := whole rfl done
    have linked : Linked items :=
      ⟨labelling.nodup, fun item member name target =>
        (labelling.aims item member name target).resolve_right Generate.Env.not_enters_standard⟩
    refine ⟨linked.distinct, linked.defined, fun name member => ?_, last, ?_⟩
    · obtain ⟨k, stem, identifier, rfl⟩ := labelling.numbered name member
      exact Generate.isIdentifier_numbered identifier k
    · simp only [List.forall_mem_cons, List.not_mem_nil, false_imp_iff, implies_true, and_true]
      exact ⟨fun _ => linked.resolve, fun _ => linked.threaded.resolve,
        fun _ => linked.threaded.combined.resolve⟩
  · cases made

/-- A procedure that tests a number, which is not accepted. -/
def Program.unfounded : Program :=
  ⟨.letIn {} [.proc {} "p" [] (.ifThen {} (.int {} 1) (.call {} none "p" []))]
    (.forever {} (.call {} none "p" []))⟩

theorem Program.unfounded_linked : unfounded.check.2 ≠ [] ∧ ∃ items, unfounded.generate = .ok items ∧
    labelNames items = ["p.1", "else.3", "end.4", "skip.2", "loop.5"] ∧
    ∀ fault, resolve (combine (thread items)) = .error fault → ¬fault.IsOfLabel := by
  refine ⟨by decide, _, rfl, rfl, ?_⟩
  exact (generate_linked (show unfounded.generate = .ok _ from rfl)).2.2.2.2 _
    (.tail _ (.tail _ (.head _)))

end Triangle
