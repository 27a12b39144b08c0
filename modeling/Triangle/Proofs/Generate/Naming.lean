import Mathlib
import Triangle.Proofs.Generate.Trail

/-! The generator comes to every node of an accepted program, and there finds under each name what it
made of the declaration that the checker bound the name to. -/
namespace Triangle.Generate
open List

variable {env env' : Env} {types : Check.Env} {t : Ty} {st st' : State} {code : Code}

attribute [local simp] Node.parts Ran fail_ok

/-! ## Nodes that stand in the same scope -/

theorem runs_literal (env : Env) {e : Expr} {l : Literal} (literal : e.literal? = some l) :
    Runs (expr env e) := by
  have push (i : Info) (value : Int) : Runs (do moveTo i.pos; emit (.loadL value)) :=
    ⟨_, {}, _, bind_ok.mpr ⟨(), _, moveTo_ok.mpr rfl, rfl⟩⟩
  cases e with
  | int i | char i | bool i => exact push i _
  | _ => cases literal

/-- Code that is made of a list one by one is made of each. -/
theorem runs_each {β : Type} {make : β → Gen Code} {all : List β → Gen Code}
    (step : ∀ x xs, all (x :: xs) = do return (← make x) ++ (← all xs)) {xs : List β}
    (done : all xs st = .ok code st') : ∀ x ∈ xs, Runs (make x) := by
  induction xs generalizing st code st' with
  | nil => simp
  | cons x xs ih =>
    simp only [step, bind_ok] at done
    obtain ⟨_, _, first, _, _, rest, -⟩ := done
    exact forall_mem_cons.mpr ⟨⟨_, _, _, first⟩, ih rest⟩

theorem fieldValues_run {values : List (String × Gen Code)} {fields : List (String × Ty)}
    (done : fieldValues values fields st = .ok code st') :
    ∀ f ∈ fields, ∃ value, values.reverse.lookup f.1 = some value ∧ Runs value := by
  induction fields generalizing st code st' with
  | nil => simp
  | cons f fields ih =>
    obtain ⟨name, t⟩ := f
    simp only [fieldValues] at done
    cases found : values.reverse.lookup name with
    | none => simp [found] at done
    | some value =>
      simp only [found, bind_ok] at done
      obtain ⟨_, _, first, _, _, rest, -⟩ := done
      exact forall_mem_cons.mpr ⟨⟨value, found, _, _, _, first⟩, ih rest⟩

/-- The type of a record literal has all the names that the literal has. -/
theorem initializers_run {fields : List (String × Expr)} {types : List (String × Ty)}
    (distinct : (fields.map Prod.fst).Nodup) (names : fields.map Prod.fst ⊆ types.map Prod.fst)
    (done : fieldValues (initializers env fields) types st = .ok code st') :
    ∀ f ∈ fields, Runs (expr env f.2) := by
  intro f member
  obtain ⟨g, inside, same⟩ := mem_map.mp (names (mem_map_of_mem member))
  obtain ⟨value, found, ran⟩ := fieldValues_run done g inside
  rw [same, initializers_lookup distinct member] at found
  cases found
  exact ran

theorem locateElement_run {i : Info} {array index : Expr} {loc : Location}
    (done : locateElement i index (locate env array) (expr env index) st = .ok (code, loc) st') :
    Runs (locate env array) ∧ Runs (expr env index) := by
  obtain ⟨base, place, middle, _, found, -, literal | ⟨_, counted, -⟩⟩ := locateElement_ok done
  · obtain ⟨j, value, rfl, -⟩ := literal
    exact ⟨⟨_, _, _, found⟩, runs_literal env rfl⟩
  · obtain ⟨_, count, _, _, _, _, _, _, indexed, -⟩ := counted.parts
    exact ⟨⟨_, _, _, found⟩, count, _, _, indexed⟩

theorem ran_expr_parts {e : Expr} (typed : Check.ExprTyped types e t)
    (done : expr env e st = .ok code st') : ∀ m ∈ Node.parts (.expr e), Ran env m := by
  cases e with
  | int | char | bool | ident | letIn => simp
  | subscript i array index =>
    simp only [expr, bind_ok] at done
    obtain ⟨_, _, -, ⟨base, loc⟩, _, located, -⟩ := done
    obtain ⟨found, counted⟩ := locateElement_run located
    simpa using ⟨.inr found, .inl counted⟩
  | select i record field =>
    simp only [expr, bind_ok] at done
    obtain ⟨_, _, -, ⟨base, loc⟩, _, located, -⟩ := done
    obtain ⟨_, _, _, _, _, found, -⟩ := locateField_ok located
    simpa using Or.inr ⟨_, _, _, found⟩
  | unary i decl op operand =>
    simp only [expr, bind_ok] at done
    obtain ⟨_, _, -, _, _, -, value, _, first, -⟩ := done
    simpa using Or.inl ⟨_, _, _, first⟩
  | binary i decl op left right =>
    simp only [expr, bind_ok] at done
    obtain ⟨_, _, -, _, _, -, _, _, first, _, _, second, -⟩ := done
    simpa using ⟨.inl ⟨_, _, _, first⟩, .inl ⟨_, _, _, second⟩⟩
  | call i decl name as =>
    simp only [expr, bind_ok] at done
    obtain ⟨_, _, -, _, _, -, _, _, pushed, -⟩ := done
    simpa using runs_each (fun _ _ => by rw [args]) pushed
  | cond i test yes no =>
    simp only [expr, bind_ok] at done
    obtain ⟨_, _, -, _, _, -, _, _, -, _, _, -, _, _, first, _, _, -, _, _, second, _, _, -, _, _, -,
      _, _, -, _, _, third, -⟩ := done
    simpa using
      ⟨.inl ⟨_, _, _, first⟩, .inl ⟨_, _, _, second⟩, .inl ⟨_, _, _, third⟩⟩
  | array i elems =>
    simp only [expr, bind_ok] at done
    obtain ⟨_, _, -, done⟩ := done
    simpa using fun e member => Or.inl (runs_each (fun _ _ => by rw [exprs]) done e member)
  | record i fields =>
    obtain ⟨slot, distinct, ts, fieldsTyped, rfl⟩ := typed
    simp only [expr, bind_ok, typeOf_ok, slot, Option.some.injEq] at done
    obtain ⟨_, _, -, _, _, ⟨rfl, rfl⟩, done⟩ := done
    simp only [Node.parts, mem_map]
    rintro _ ⟨f, member, rfl⟩
    refine .inl (initializers_run distinct ?_ done f member)
    rw [← fieldsTyped.names]
    exact map_subset _ fun g inside => mem_mergeSort.mpr inside

theorem ran_locate_parts {e : Expr} {found : Code × Location}
    (done : locate env e st = .ok found st') : ∀ m ∈ Node.parts (.expr e), Ran env m := by
  obtain ⟨code, loc⟩ := found
  cases e with
  | ident => simp
  | subscript i array index =>
    simp only [locate, bind_ok] at done
    obtain ⟨_, _, -, located⟩ := done
    obtain ⟨found, counted⟩ := locateElement_run located
    simpa using ⟨.inr found, .inl counted⟩
  | select i record field =>
    simp only [locate, bind_ok] at done
    obtain ⟨_, _, -, located⟩ := done
    obtain ⟨_, _, _, _, _, found, -⟩ := locateField_ok located
    simpa using Or.inr ⟨_, _, _, found⟩
  | _ => simp [locate, bind_ok] at done

theorem ran_stmt_parts {s : Stmt} (done : stmt env s st = .ok code st') :
    ∀ m ∈ Node.parts (.stmt s), Ran env m := by
  cases s with
  | letIn | skip => simp
  | assign i target value =>
    simp only [stmt, bind_ok] at done
    obtain ⟨_, _, -, _, _, second, ⟨_, _⟩, _, first, -⟩ := done
    simpa using ⟨.inr ⟨_, _, _, first⟩, .inl ⟨_, _, _, second⟩⟩
  | call i decl name as =>
    simp only [stmt, bind_ok] at done
    obtain ⟨_, _, -, _, _, -, _, _, pushed, -⟩ := done
    simpa using runs_each (fun _ _ => by rw [args]) pushed
  | seq i ss =>
    simp only [stmt, bind_ok] at done
    obtain ⟨_, _, -, done⟩ := done
    simpa using runs_each (fun _ _ => by rw [stmts]) done
  | ifThen i test yes =>
    simp only [stmt, bind_ok] at done
    obtain ⟨_, _, -, _, _, -, _, _, -, _, _, first, _, _, -, _, _, second, -⟩ := done
    simpa using ⟨.inl ⟨_, _, _, first⟩, ⟨_, _, _, second⟩⟩
  | ifElse i test yes no =>
    simp only [stmt, bind_ok] at done
    obtain ⟨_, _, -, _, _, -, _, _, -, _, _, first, _, _, -, _, _, second, _, _, -, _, _, -, _, _,
      third, -⟩ := done
    simpa using ⟨.inl ⟨_, _, _, first⟩, ⟨_, _, _, second⟩, ⟨_, _, _, third⟩⟩
  | whileDo i test body =>
    simp only [stmt, bind_ok] at done
    obtain ⟨_, _, -, _, _, -, _, _, -, _, _, -, _, _, -, _, _, second, _, _, -, _, _, first, -⟩ := done
    simpa using ⟨.inl ⟨_, _, _, first⟩, ⟨_, _, _, second⟩⟩
  | repeatUntil i body test | repeatWhile i body test =>
    simp only [stmt, bind_ok] at done
    obtain ⟨_, _, -, _, _, -, _, _, -, _, _, first, _, _, second, -⟩ := done
    simpa using ⟨⟨_, _, _, first⟩, .inl ⟨_, _, _, second⟩⟩
  | loopWhile i pre test post =>
    simp only [stmt, bind_ok] at done
    obtain ⟨_, _, -, _, _, -, _, _, -, _, _, -, _, _, first, _, _, second, _, _, -, _, _, third, -⟩ :=
      done
    simpa using ⟨⟨_, _, _, first⟩, .inl ⟨_, _, _, second⟩, ⟨_, _, _, third⟩⟩
  | forever i body =>
    simp only [stmt, bind_ok] at done
    obtain ⟨_, _, -, _, _, -, _, _, -, _, _, first, -⟩ := done
    simpa using ⟨_, _, _, first⟩

theorem ran_arg_parts {a : Arg} (done : arg env a st = .ok code st') :
    ∀ m ∈ Node.parts (.arg a), Ran env m := by
  cases a with
  | value i value =>
    simp only [arg, bind_ok] at done
    obtain ⟨_, _, -, first⟩ := done
    simpa using Or.inl ⟨_, _, _, first⟩
  | var i target =>
    simp only [arg, bind_ok] at done
    obtain ⟨_, _, -, ⟨_, _⟩, _, first, -⟩ := done
    simpa using Or.inr ⟨_, _, _, first⟩
  | func => simp

variable {d : Decl}

theorem ran_decl_parts {made : Env × Code} (done : decl env d st = .ok made st') :
    ∀ m ∈ Node.parts (.decl d), Ran env m := by
  cases d with
  | const i name value =>
    simp only [Node.parts, forall_mem_singleton]
    simp only [decl, bind_ok] at done
    obtain ⟨_, _, -, done⟩ := done
    cases literal : value.literal? with
    | some l => exact .inl (runs_literal env literal)
    | none =>
      simp only [literal, bind_ok] at done
      obtain ⟨_, _, -, _, _, first, -⟩ := done
      exact .inl ⟨_, _, _, first⟩
  | var | type => simp
  | func i name params result body =>
    simp only [Node.parts, mem_append, mem_map, mem_singleton]
    rintro m (⟨p, -, rfl⟩ | rfl) <;> trivial
  | proc i name params body =>
    simp only [Node.parts, mem_map]
    rintro m ⟨p, -, rfl⟩
    trivial

variable {n : Node}

/-- Where the code of a node is made, that of its parts is. -/
theorem Ran.parts (ran : Ran env n) (sound : types.IsSound) (stable : n.Stable types) :
    ∀ m ∈ n.parts, Ran env m := by
  cases n with
  | expr e =>
    obtain ⟨t, stable⟩ := stable
    rcases ran with ⟨code, _, _, done⟩ | ⟨found, _, _, done⟩
    · exact ran_expr_parts (Check.expr_typed sound stable).1 done
    · exact ran_locate_parts done
  | stmt s =>
    obtain ⟨code, _, _, done⟩ := ran
    exact ran_stmt_parts done
  | decl d =>
    obtain ⟨made, _, _, done⟩ := ran
    exact ran_decl_parts done
  | arg a =>
    obtain ⟨code, _, _, done⟩ := ran
    exact ran_arg_parts done
  | param p =>
    cases p with
    | value | var => simp
    | func i name params result =>
      simp only [Node.parts, mem_append, mem_map]
      rintro m (⟨p, -, rfl⟩ | ⟨s, -, rfl⟩) <;> trivial
  | sig s =>
    cases s with
    | named => simp
    | array => simp
    | record i fields =>
      simp only [Node.parts, mem_map]
      rintro m ⟨f, -, rfl⟩
      trivial

/-! ## Declarations -/

theorem Notes.of_gain {next : Env} {object : Object} {constant : Bool} (trail : List Mark)
    (same : next = env.gain d.name constant object) (kind : d.kind ≠ .type)
    (suits : object.isRoutine = decide (d.kind = .func ∨ d.kind = .proc))
    (made : Yields (decl env d) (next, code)) : ∃ trail', Notes env trail d next trail' := by
  subst same
  exact ⟨_, .term kind suits made⟩

theorem routine_run {name : String} {params : List Param} {result : Int} {body : Env → Gen Code}
    {next : Env} (done : routine env name params result body st = .ok (next, code) st') :
    (∃ entry, next = env.gain name true (.routine (.routine entry))) ∧
      ∃ size inner, Yields (paramsSize 0 params) size ∧
        Yields (bindParams next.enterFrame (wrap64 (-size)) params) inner ∧ Runs (body inner) := by
  simp only [routine, bind_ok, pure_ok, Prod.mk.injEq] at done
  obtain ⟨entry, _, -, _, _, -, _, _, -, _, _, -, _, _, framed, _, _, -, ⟨rfl, -⟩, -⟩ := done
  obtain ⟨final, filled, -⟩ := within_ok framed
  simp only [bind_ok] at filled
  obtain ⟨size, _, sized, inner, _, bound, _, _, made, -⟩ := filled
  exact ⟨⟨entry, rfl⟩, size, inner, ⟨_, _, sized⟩, ⟨_, _, bound⟩, _, _, _, made⟩

/-- A declaration whose code is made brings one thing more into scope, unless it is a type. -/
theorem Notes.of_run {next : Env} (trail : List Mark)
    (done : decl env d st = .ok (next, code) st') : ∃ trail', Notes env trail d next trail' := by
  have made : Yields (decl env d) (next, code) := ⟨_, _, done⟩
  cases d with
  | const i name value =>
    simp only [decl, bind_ok] at done
    obtain ⟨_, _, -, done⟩ := done
    cases literal : value.literal? with
    | some l =>
      simp only [literal, pure_ok, Prod.mk.injEq] at done
      have same : next = env.gain name true (.value (.known l.word)) := done.1.1
      exact Notes.of_gain trail same (by simp [Decl.kind]) rfl made
    | none =>
      simp only [literal, bind_ok, pure_ok, Prod.mk.injEq] at done
      obtain ⟨start, _, -, _, _, -, ⟨same, -⟩, -⟩ := done
      have same : next = env.gain name true (.value (.stored start)) := same
      exact Notes.of_gain trail same (by simp [Decl.kind]) rfl made
  | var i name s =>
    simp only [decl, bind_ok, pure_ok, Prod.mk.injEq] at done
    obtain ⟨_, _, -, start, _, -, _, _, -, _, _, -, ⟨same, -⟩, -⟩ := done
    have same : next = env.gain name false (.value (.stored start)) := same
    exact Notes.of_gain trail same (by simp [Decl.kind]) rfl made
  | func i name params result body =>
    simp only [decl, bind_ok, typeOf_ok] at done
    obtain ⟨_, _, -, t, _, -, done⟩ := done
    cases t with
    | func ts r =>
      obtain ⟨⟨entry, same⟩, -⟩ := routine_run done
      exact Notes.of_gain trail same (by simp [Decl.kind]) rfl made
    | _ => simp at done
  | proc i name params body =>
    simp only [decl, bind_ok] at done
    obtain ⟨_, _, -, done⟩ := done
    obtain ⟨⟨entry, same⟩, -⟩ := routine_run done
    exact Notes.of_gain trail same (by simp [Decl.kind]) rfl made
  | type i name s =>
    simp only [decl, bind_ok, pure_ok, Prod.mk.injEq] at done
    obtain ⟨_, _, -, ⟨rfl, rfl⟩, -⟩ := done
    exact ⟨trail, .type rfl made⟩

theorem Declares.of_run {ds : List Decl} {final : Env} (trail : List Mark)
    (done : decls env ds st = .ok (final, code) st') :
    ∃ trail', Declares env trail ds final trail' := by
  induction ds generalizing env st code st' trail with
  | nil =>
    obtain ⟨⟨rfl, -⟩, -⟩ := done
    exact ⟨trail, .nil⟩
  | cons d ds ih =>
    simp only [decls, bind_ok, pure_ok, Prod.mk.injEq] at done
    obtain ⟨⟨next, _⟩, _, first, ⟨_, _⟩, _, rest, ⟨rfl, -⟩, -⟩ := done
    obtain ⟨middle, noted⟩ := Notes.of_run trail first
    obtain ⟨trail', declared⟩ := ih middle rest
    exact ⟨trail', .cons noted declared⟩

theorem Declares.before {before after : List Decl} {made : Env × Code}
    (trail : List Mark) (done : decls env (before ++ d :: after) st = .ok made st') :
    ∃ next trail', Declares env trail before next trail' ∧ Runs (decl next d) := by
  induction before generalizing env st made st' trail with
  | nil =>
    simp only [nil_append, decls, bind_ok] at done
    obtain ⟨_, _, first, -⟩ := done
    exact ⟨env, trail, .nil, _, _, _, first⟩
  | cons d' before ih =>
    simp only [cons_append, decls, bind_ok] at done
    obtain ⟨⟨middle, code⟩, _, first, _, _, rest, -⟩ := done
    obtain ⟨passed, noted⟩ := Notes.of_run trail first
    obtain ⟨next, trail', declared, ran⟩ := ih passed rest
    exact ⟨next, trail', .cons noted declared, ran⟩

theorem Binds.of_run {ps : List Param} {start : Int} {final : Env} (trail : List Mark)
    (done : bindParams env start ps st = .ok final st') :
    ∃ trail', Binds env trail ps final trail' := by
  induction ps generalizing env start st st' trail with
  | nil =>
    obtain ⟨rfl, -⟩ := pure_ok.mp done
    exact ⟨trail, .nil⟩
  | cons p ps ih =>
    simp only [bindParams, bind_ok] at done
    obtain ⟨t, middle, -, done⟩ := done
    obtain ⟨object, constant, suits, same⟩ : ∃ object constant,
        object.isRoutine = decide (p.kind = .funcParam) ∧
          bindParam env start p = env.gain p.name constant object := by
      cases p with
      | value => exact ⟨.value (.stored start), true, rfl, rfl⟩
      | var => exact ⟨.value (.indirect start), false, rfl, rfl⟩
      | func => exact ⟨.routine (.closure start), true, rfl, rfl⟩
    have rest : bindParams (bindParam env start p) (wrap64 (start + t.size)) ps middle =
        .ok final st' := by
      cases p <;> exact done
    rw [same] at rest
    obtain ⟨trail', bound⟩ := ih (.made ⟨p.name, p.binding, object⟩ :: trail) rest
    exact ⟨trail', .cons suits bound⟩

/-! ## All nodes -/

theorem block_run {body : Node} {ds : List Decl} (ran : Ran env n)
    (block : n.block? = some (ds, body)) :
    ∃ inner code, Yields (decls env.enterBlock ds) (inner, code) ∧ Ran inner body := by
  rcases Node.block?_eq_some block with ⟨i, e, rfl, rfl⟩ | ⟨i, s, rfl, rfl⟩
  · rcases ran with ⟨code, _, _, done⟩ | ⟨found, _, _, done⟩
    · simp only [expr, bind_ok] at done
      obtain ⟨_, _, -, _, _, -, _, _, framed, -⟩ := done
      obtain ⟨_, filled, -⟩ := within_ok framed
      simp only [bind_ok] at filled
      obtain ⟨⟨inner, storage⟩, _, declared, _, _, -, _, _, value, -⟩ := filled
      exact ⟨inner, storage, ⟨_, _, declared⟩, .inl ⟨_, _, _, value⟩⟩
    · simp [locate, bind_ok] at done
  · obtain ⟨code, _, _, done⟩ := ran
    simp only [stmt, bind_ok] at done
    obtain ⟨_, _, -, _, _, -, framed⟩ := done
    obtain ⟨_, filled, -⟩ := within_ok framed
    simp only [bind_ok] at filled
    obtain ⟨⟨inner, storage⟩, _, declared, _, _, -, _, _, value, -⟩ := filled
    exact ⟨inner, storage, ⟨_, _, declared⟩, _, _, _, value⟩

theorem body_run {body : Node} {params : List Param} {made : Env × Code}
    (routine : (Node.decl d).routine? = some (params, body)) (done : decl env d st = .ok made st') :
    ∃ size inner, Yields (paramsSize 0 params) size ∧
      Yields (bindParams made.1.enterFrame (wrap64 (-size)) params) inner ∧ Ran inner body := by
  obtain ⟨next, code⟩ := made
  rcases Node.routine?_eq_some routine with ⟨i, name, result, e, same, rfl⟩ | ⟨i, name, s, same, rfl⟩
  · cases same
    simp only [decl, bind_ok, typeOf_ok] at done
    obtain ⟨_, _, -, t, _, -, done⟩ := done
    cases t with
    | func ts r =>
      obtain ⟨-, size, inner, sized, bound, ran⟩ := routine_run done
      exact ⟨size, inner, sized, bound, .inl ran⟩
    | _ => simp at done
  · cases same
    simp only [decl, bind_ok] at done
    obtain ⟨_, _, -, done⟩ := done
    obtain ⟨-, size, inner, sized, bound, ran⟩ := routine_run done
    exact ⟨size, inner, sized, bound, ran⟩

variable {whole : Stmt} {trail : List Mark}

/-- From a node the generator comes to all right below it. -/
theorem Visits.child {c : Node}
    (stable : Check.StmtStable .standard whole) (visits : Visits whole env trail n)
    (child : n.Child c) : ∃ env' trail', Visits whole env' trail' c := by
  have ran := visits.ran
  cases child with
  | part member =>
    obtain ⟨types, within, sound, -⟩ := visits.matches stable
    have here := within.stable (n := .stmt whole) stable
    exact ⟨env, trail, .part visits member (ran.parts sound here c member)⟩
  | declared block member =>
    obtain ⟨before, after, rfl⟩ := append_of_mem member
    obtain ⟨inner, code, ⟨_, _, done⟩, -⟩ := block_run ran block
    obtain ⟨next, trail', passed, made⟩ := Declares.before trail done
    exact ⟨next, trail', .declared visits block passed made⟩
  | body block =>
    obtain ⟨inner, code, ⟨_, _, done⟩, made⟩ := block_run ran block
    obtain ⟨trail', passed⟩ := Declares.of_run trail done
    exact ⟨inner, trail', .body visits block passed made⟩
  | routine routine =>
    cases n with
    | decl d =>
      obtain ⟨⟨next, code⟩, _, _, done⟩ := ran
      obtain ⟨size, inner, sized, ⟨_, _, bound⟩, made⟩ := body_run routine done
      obtain ⟨trail', noted⟩ := Notes.of_run trail done
      obtain ⟨trail'', passed⟩ := Binds.of_run (.body :: trail') bound
      exact ⟨inner, trail'', .routine visits routine noted sized ⟨_, _, bound⟩ passed made⟩
    | expr | stmt | param | arg | sig => cases routine

theorem Visits.all (stable : Check.StmtStable .standard whole) (n : Node) :
    ∀ {env : Env} {trail : List Mark}, Visits whole env trail n →
      ∀ m ∈ n.all, ∃ env' trail', Visits whole env' trail' m := by
  induction n using Node.induction with
  | step n ih =>
    intro env trail visits m member
    rcases Node.mem_all member with rfl | ⟨c, child, below⟩
    · exact ⟨env, trail, visits⟩
    · obtain ⟨env', trail', visits'⟩ := visits.child stable child
      exact ih c child visits' m below

/-! ## What is on a trail -/

variable {m : Made}

theorem nearest?_mem {x : String} {depth : Nat}
    (found : nearest? x trail = some (m, depth)) : .made m ∈ trail ∧ m.name = x := by
  induction trail generalizing depth with
  | nil => cases found
  | cons mark trail ih =>
    cases mark with
    | made m' =>
      simp only [nearest?] at found
      split at found
      · rename_i same
        cases found
        exact ⟨mem_cons_self, same.symm⟩
      · exact ⟨mem_cons_of_mem _ (ih found).1, (ih found).2⟩
    | body =>
      obtain ⟨⟨m', outer⟩, within, same⟩ := Option.map_eq_some_iff.mp found
      cases same
      exact ⟨mem_cons_of_mem _ (ih within).1, (ih within).2⟩

theorem Notes.mem {trail' : List Mark}
    (notes : Notes env trail d env' trail') (member : .made m ∈ trail') :
    .made m ∈ trail ∨ m.name = d.name := by
  cases notes with
  | type => exact .inl member
  | term =>
    rcases mem_cons.mp member with same | before
    · cases same
      exact .inr rfl
    · exact .inl before

theorem Declares.mem {trail' : List Mark} {ds : List Decl}
    (declares : Declares env trail ds env' trail') (member : .made m ∈ trail') :
    .made m ∈ trail ∨ ∃ d ∈ ds, m.name = d.name := by
  induction declares with
  | nil => exact .inl member
  | cons first _ ih =>
    rcases ih member with before | ⟨d, inside, named⟩
    · exact (first.mem before).imp_right fun named => ⟨_, mem_cons_self, named⟩
    · exact .inr ⟨d, mem_cons_of_mem _ inside, named⟩

theorem Binds.mem {trail' : List Mark} {ps : List Param}
    (binds : Binds env trail ps env' trail') (member : .made m ∈ trail') :
    .made m ∈ trail ∨ ∃ p ∈ ps, m.name = p.name := by
  induction binds with
  | nil => exact .inl member
  | cons _ _ ih =>
    rcases ih member with before | ⟨p, inside, named⟩
    · rcases mem_cons.mp before with same | before
      · cases same
        exact .inr ⟨_, mem_cons_self, rfl⟩
      · exact .inl before
    · exact .inr ⟨p, mem_cons_of_mem _ inside, named⟩

/-- What is on the trail is standard or declared in the program. -/
theorem Visits.origin (visits : Visits whole env trail n) : n.all ⊆ (Node.stmt whole).all ∧
      ∀ m, .made m ∈ trail → m.binding.isStandard = true ∨
        ∃ v ∈ (Node.stmt whole).all, v.declaredName? = some m.name := by
  induction visits with
  | whole =>
    refine ⟨fun _ => id, fun m member => .inl ?_⟩
    have table : ∀ row ∈ Check.standardTerms, row.2.decl.isStandard = true := by decide
    obtain ⟨row, inside, written⟩ := mem_filterMap.mp member
    obtain ⟨object, -, same⟩ := Option.map_eq_some_iff.mp written
    cases same
    exact table row inside
  | part _ member _ ih =>
    have child := Node.Child.part member
    exact ⟨fun _ inside => ih.1 (child.all_subset inside), ih.2⟩
  | @declared env env' trail trail' n body before after d _ block passed _ ih =>
    have child {d' : Decl} (inside : d' ∈ before ++ d :: after) : n.Child (.decl d') :=
      .declared block inside
    refine ⟨fun _ inside => ih.1 ((child (by simp)).all_subset inside), fun m member => ?_⟩
    rcases passed.mem member with outer | ⟨d', inside, named⟩
    · exact ih.2 m outer
    · have below := (child (mem_append_left _ inside)).all_subset (Node.self_mem_all _)
      exact .inr ⟨_, ih.1 below, congrArg some named.symm⟩
  | @body env env' trail trail' n body ds _ block passed _ ih =>
    refine ⟨fun _ inside => ih.1 ((Node.Child.body block).all_subset inside), fun m member => ?_⟩
    rcases passed.mem member with outer | ⟨d', inside, named⟩
    · exact ih.2 m outer
    · have child : n.Child (.decl d') := .declared block inside
      exact .inr ⟨_, ih.1 (child.all_subset (Node.self_mem_all _)), congrArg some named.symm⟩
  | @routine env next inner trail trail' trail'' d body params size _ routine itself _ _ passed _ ih =>
    refine ⟨fun _ inside => ih.1 ((Node.Child.routine routine).all_subset inside), fun m member => ?_⟩
    rcases passed.mem member with outer | ⟨p, inside, named⟩
    · rcases itself.mem ((mem_cons.mp outer).resolve_left (by simp)) with outer | named
      · exact ih.2 m outer
      · exact .inr ⟨_, ih.1 (Node.self_mem_all _), congrArg some named.symm⟩
    · have child : (Node.decl d).Child (.param p) := .formal routine inside
      exact .inr ⟨_, ih.1 (child.all_subset (Node.self_mem_all _)), congrArg some named.symm⟩

/-! ## Uses of names -/

/-- A name that the generator looks up, among the routines or among the values, and the slot that the
checker filled for it. -/
structure Use where
  called : Bool
  key : String
  slot : Option Binding

/-- The name that a node uses. A standard operator in front of an operand has a key of its own. -/
def use? : Node → Option Use
  | .expr (.ident _ slot name) => some ⟨false, name, slot⟩
  | .expr (.unary _ slot op _) =>
    some ⟨true, if slot.any Binding.isStandard then Check.unaryKey op else op, slot⟩
  | .expr (.binary _ slot op _ _) => some ⟨true, op, slot⟩
  | .expr (.call _ slot name _) => some ⟨true, name, slot⟩
  | .stmt (.call _ slot name _) => some ⟨true, name, slot⟩
  | .arg (.func _ slot name) => some ⟨true, name, slot⟩
  | _ => none

/-- The checker found a name under the key of the generator, and filled the slot with it. -/
def Use.Bound (use : Use) (types : Check.Env) : Prop :=
  ∃ meaning, types.terms.lookup? use.key = some meaning ∧ use.slot = some meaning.decl ∧
    (IsRoutine meaning ↔ use.called = true)

/-- No operator in front of an operand is found under a key that is declared. -/
theorem bound_unary {op : String} {m : Check.Meaning} {want : Ty}
    (found : types.unary? op = some m) (signature : m.signature? = some ([want], t))
    (served : env.find? true (if m.decl.isStandard then Check.unaryKey op else op) ≠ none)
    (traced : Traced env trail) (agree : Matches types trail)
    (keys : ∀ made depth, nearest? (Check.unaryKey op) trail = some (made, depth) →
      made.binding.isStandard = true) :
    Use.Bound ⟨true, if m.decl.isStandard then Check.unaryKey op else op, some m.decl⟩ types := by
  refine ⟨m, ?_, rfl, ?_⟩
  · by_cases standard : m.decl.isStandard = true
    · simp only [standard, ↓reduceIte] at served ⊢
      rcases Check.Env.unary?_standard found standard with known | unknown
      · exact known
      · exact absurd (traced.hidden (agree.missing unknown) true) served
    · simp only [standard, Bool.false_eq_true, ↓reduceIte]
      rcases Check.Env.unary?_found found with known | known
      · exact known
      · obtain ⟨made, depth, nearest, same, -⟩ := agree.found known
        exact absurd (same ▸ keys made depth nearest) standard
  · obtain ⟨b, rfl⟩ := Check.Meaning.signature?_ok.mp signature
    simp [IsRoutine, Ty.isFunc, Ty.deref]

theorem invoke_found {name : String} (done : invoke env name st = .ok code st') :
    env.find? true name ≠ none := by
  obtain ⟨c, r, ⟨depth, found, -⟩, -⟩ := invoke_ok done
  simp [Env.find?, found]

theorem isRoutine_func {ps : List Ty} {r : Ty} {b : Binding} :
    IsRoutine (.typed (.func ps r) b) ↔ true = true := by
  simp [IsRoutine, Ty.isFunc, Ty.deref]

/-- Where the generator comes to a use of a name, the checker has bound it. -/
theorem Visits.bound {use : Use}
    (visits : Visits whole env trail n) (stable : n.Stable types) (agree : Matches types trail)
    (keys : ∀ op made depth, nearest? (Check.unaryKey op) trail = some (made, depth) →
      made.binding.isStandard = true) (same : use? n = some use) : use.Bound types := by
  have ran := visits.ran
  have traced := visits.traced
  cases n with
  | expr e =>
    obtain ⟨t, stable⟩ := stable
    cases e with
    | ident i slot name =>
      cases same
      obtain ⟨plain, b, found, whole⟩ := Check.expr_ident.mp stable
      obtain ⟨-, rfl, -⟩ := Expr.ident.inj whole
      exact ⟨_, found, rfl, by simp [IsRoutine, plain]⟩
    | unary i slot op operand =>
      cases same
      obtain ⟨m, want, _, got, found, signature, -, -, whole⟩ := Check.expr_unary.mp stable
      obtain ⟨-, rfl, -, rfl⟩ := Expr.unary.inj whole
      refine bound_unary found signature ?_ traced agree (keys op)
      rcases ran with ⟨code, _, _, done⟩ | ⟨_, _, _, done⟩
      · simp only [expr, bind_ok] at done
        obtain ⟨_, _, -, _, _, -, _, _, -, _, _, called, -⟩ := done
        exact invoke_found called
      · simp [locate, bind_ok] at done
    | binary i slot op left right =>
      cases same
      obtain ⟨m, _, u, _, v, found, -, -, joins, whole⟩ := Check.expr_binary.mp stable
      obtain ⟨-, rfl, -⟩ := Expr.binary.inj whole
      refine ⟨m, found, rfl, ?_⟩
      cases m with
      | equality => simp [IsRoutine]
      | typed =>
        obtain ⟨_, _, rfl, -⟩ := joins
        exact isRoutine_func
    | call i slot name as =>
      cases same
      obtain ⟨_, wants, b, _, found, -, -, whole⟩ := Check.expr_call.mp stable
      obtain ⟨-, rfl, -⟩ := Expr.call.inj whole
      exact ⟨_, found, rfl, isRoutine_func⟩
    | _ => cases same
  | stmt s =>
    cases s with
    | call i slot name as =>
      cases same
      obtain ⟨wants, b, _, found, -, -, whole⟩ := Check.stmt_call.mp stable
      obtain ⟨-, rfl, -⟩ := Stmt.call.inj whole
      exact ⟨_, found, rfl, isRoutine_func⟩
    | _ => cases same
  | arg a =>
    cases a with
    | func i slot name =>
      cases same
      obtain ⟨callee, index, want, stable⟩ := stable
      obtain ⟨ps, r, b, rfl, found, whole⟩ := Check.arg_func.mp stable
      obtain ⟨-, rfl, -⟩ := Arg.func.inj whole
      exact ⟨_, found, rfl, isRoutine_func⟩
    | _ => cases same
  | decl | param | sig => cases same

end Triangle.Generate

namespace Triangle

end Triangle
