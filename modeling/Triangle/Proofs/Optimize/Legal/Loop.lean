import Mathlib
import Triangle.Proofs.Optimize.Legal.Extracted

/-! What is left of a loop. With its constants in scope it stands for the loop, and it declares what the
loop declares. -/
namespace Triangle.Optimize.Hoist
open Check List

variable {start : Int} {outer inner env : Env} {loop : Loop} {x : Extraction}

/-! ## Names that hoisting leaves alone -/

/-- A name that is no operator of an invariant expression, and none of a constant from `start` on. -/
def Plain (start : Int) (name : String) : Prop :=
  name ∉ pureUnary ∧ ∀ k, start ≤ k → k < 2 ^ 63 → name ≠ constName k

/-- What a loop declares is changed by it, and named neither as an operator nor as a new constant. -/
abbrev Declared (loop : Loop) (start : Int) : DeclKind → String → Prop :=
  fun _ name => name ∈ loop.mutated ∧ Plain start name

/-! ## Scopes inside the loop -/

theorem Clear.enterBlock (clear : Clear start env) : Clear start env.enterBlock :=
  fun k low high => by simpa [Env.enterBlock] using clear k low high

theorem Clear.declare (clear : Clear start env) {d : Decl} (plain : Plain start d.name) :
    Clear start (env.declare d) := by
  intro k low high
  rw [bound?_declare, if_neg fun both => plain.2 k low high both.2.symm]
  exact clear k low high

theorem Clear.declareAll {ds : List Decl} (clear : Clear start env)
    (plain : Decl.Declare true (fun _ => Plain start) ds) : Clear start (env.declareAll ds) := by
  induction ds generalizing env with
  | nil => exact clear
  | cons d ds ih => exact ih (clear.declare (Decl.declares_name plain.1)) plain.2

namespace Scene

theorem enterBlock (scene : Scene loop start outer inner) : Scene loop start outer inner.enterBlock where
  positive := scene.positive
  under := scene.under.enterBlock
  sound := scene.sound.enterBlock
  clear := scene.clear.enterBlock

theorem declare (scene : Scene loop start outer inner) {d : Decl} (stable : DeclStable inner d)
    (declared : Declared loop start d.kind d.name) : Scene loop start outer (inner.declare d) where
  positive := scene.positive
  under := scene.under.declare declared.1 declared.2.1
  sound := (decl_typed scene.sound stable).2
  clear := scene.clear.declare declared.2

theorem declareAll {ds : List Decl} (scene : Scene loop start outer inner) (stable : DeclsStable inner ds)
    (declared : Decl.Declare false (Declared loop start) ds) :
    Scene loop start outer (inner.declareAll ds) := by
  induction ds generalizing inner with
  | nil => exact scene
  | cons d ds ih =>
    obtain ⟨head, tail⟩ := declsStable_cons.mp stable
    exact ih (scene.declare head (Decl.declares_name declared.1)) tail declared.2

end Scene

theorem Ready.enterBlock {ds : List Decl} (ready : Ready env ds) : Ready env.enterBlock ds :=
  fun d member => by simpa [Env.enterBlock] using ready d member

theorem Ready.declare {d : Decl} (ready : Ready env x.decls) (collected : Collected start outer x)
    (plain : Plain start d.name) : Ready (env.declare d) x.decls := by
  intro c member
  obtain ⟨k, low, high, named⟩ := collected.named (mem_map_of_mem member)
  have room := collected.room
  rw [bound?_declare, if_neg fun both => plain.2 k low (by omega) (both.2.symm.trans named)]
  exact ready c member

theorem Ready.declareAll {ds : List Decl} (ready : Ready env x.decls)
    (collected : Collected start outer x) (plain : ∀ d ∈ ds, Plain start d.name) :
    Ready (env.declareAll ds) x.decls := by
  induction ds generalizing env with
  | nil => exact ready
  | cons d ds ih =>
    rw [forall_mem_cons] at plain
    exact ih (ready.declare collected plain.1) plain.2

/-! ## Steps of an extraction -/

/-- `P` holds wherever the constants are in scope. -/
def Known (P : Env → Prop) (ds : List Decl) : Prop := ∀ env, Ready env ds → P env

/-- The step collects constants besides those there are, of which it keeps what is required of them. If
`P` holds before the step where the constants are in scope, then `Q` after it. -/
structure Yields {α : Type} (start : Int) (outer : Env) (P : Env → Prop) (step : Extract α)
    (Q : α → Env → Prop) : Prop where
  grows : ∀ x, x.decls <+: (step.run x).2.decls
  holds : ∀ x, Collected start outer x → Known P x.decls →
    start + (step.run x).2.decls.length < 2 ^ 63 →
    Collected start outer (step.run x).2 ∧ Known (Q (step.run x).1) (step.run x).2.decls

namespace Yields
variable {α β : Type} {P P' : Env → Prop} {Q : α → Env → Prop} {R : β → Env → Prop}

theorem pure {a : α}
    (holds : ∀ x, Collected start outer x → Known P x.decls → Known (Q a) x.decls) :
    Yields start outer P (Pure.pure a) Q :=
  ⟨fun x => prefix_refl x.decls, fun x collected known _ => ⟨collected, holds x collected known⟩⟩

theorem bind {step : Extract α} {next : α → Extract β}
    (first : Yields start outer (fun _ => True) step Q)
    (later : ∀ a, Yields start outer (fun env => P env ∧ Q a env) (next a) R) :
    Yields start outer P (step >>= next) R where
  grows x := (first.grows x).trans ((later _).grows _)
  holds x collected known room := by
    have grown := (later (step.run x).1).grows (step.run x).2
    have shorter := grown.length_le
    change start + (((next (step.run x).1).run (step.run x).2).2.decls.length : Int) < _ at room
    obtain ⟨between, met⟩ := first.holds x collected (fun _ _ => trivial) (by omega)
    refine (later _).holds _ between (fun env ready => ⟨known env fun d member => ?_, met env ready⟩) room
    exact ready d ((first.grows x).subset member)

theorem imp {step : Extract α} (weaker : ∀ env, P' env → P env)
    (yields : Yields start outer P step Q) : Yields start outer P' step Q :=
  ⟨yields.grows, fun x collected known =>
    yields.holds x collected fun env ready => weaker env (known env ready)⟩

section
variable {γ δ : Type} {S : γ → Env → Prop} {T : δ → Env → Prop}

theorem map {step : Extract α} {f : α → β} (first : Yields start outer (fun _ => True) step Q)
    (gives : ∀ a env, Q a env → R (f a) env) :
    Yields start outer (fun _ => True) (step >>= fun a => Pure.pure (f a)) R :=
  first.bind fun a => .pure fun _ _ known env ready => gives a env (known env ready).2

theorem map₂ {step : Extract α} {next : Extract β} {f : α → β → γ}
    (first : Yields start outer (fun _ => True) step Q)
    (second : Yields start outer (fun _ => True) next R)
    (gives : ∀ a b env, Q a env → R b env → S (f a b) env) :
    Yields start outer (fun _ => True)
      (step >>= fun a => next >>= fun b => Pure.pure (f a b)) S :=
  first.bind fun a => second.bind fun b => .pure fun _ _ known env ready => by
    obtain ⟨⟨-, one⟩, two⟩ := known env ready
    exact gives a b env one two

theorem map₃ {step : Extract α} {next : Extract β} {last : Extract γ} {f : α → β → γ → δ}
    (first : Yields start outer (fun _ => True) step Q)
    (second : Yields start outer (fun _ => True) next R)
    (third : Yields start outer (fun _ => True) last S)
    (gives : ∀ a b c env, Q a env → R b env → S c env → T (f a b c) env) :
    Yields start outer (fun _ => True)
      (step >>= fun a => next >>= fun b => last >>= fun c => Pure.pure (f a b c)) T :=
  first.bind fun a => second.bind fun b => third.bind fun c => .pure fun _ _ known env ready => by
    obtain ⟨⟨⟨-, one⟩, two⟩, three⟩ := known env ready
    exact gives a b c env one two three

end

end Yields

/-! ## What is left of the loop -/

/-- What a part of the loop has become stands for it wherever the scope is wider, and declares no
more. -/
structure Keeps {α : Type} (Becomes : Env → Env → α → α → Prop)
    (Declares : Bool → (DeclKind → String → Prop) → α → Prop) (inner : Env) (a a' : α) (env : Env) :
    Prop where
  becomes : inner.Widens env → Becomes inner env a a'
  declares : ∀ deep P, Declares deep P a → Declares deep P a'

theorem Keeps.both {α β : Type} {B : Env → Env → α → α → Prop} {C : Env → Env → β → β → Prop}
    {D : Bool → (DeclKind → String → Prop) → α → Prop} {E : Bool → (DeclKind → String → Prop) → β → Prop}
    {inner inner' env env' : Env} {a a' : α} {b b' : β} (one : Keeps B D inner a a' env)
    (two : Keeps C E inner' b b' env') (deep : Bool) (P : DeclKind → String → Prop)
    (both : D deep P a ∧ E deep P b) : D deep P a' ∧ E deep P b' :=
  ⟨one.declares deep P both.1, two.declares deep P both.2⟩

theorem run_extract (loop : Loop) (path : Path) (e : Expr) (x : Extraction) :
    (extract loop path e).run x =
      if isInvariant loop.mutated e = true ∧ (mayTrap e = true → path ∈ loop.sure) then
        (.ident e.info (some (Decl.const e.info (constName x.next) e).binding) (constName x.next),
          ⟨wrap64 (x.next + 1), x.decls ++ [.const e.info (constName x.next) e],
            x.guarded || mayTrap e⟩)
      else (e, x) := by
  unfold extract
  by_cases invariant : isInvariant loop.mutated e = true
  · by_cases trap : mayTrap e = true
    · by_cases sure : path ∈ loop.sure
      · simp [invariant, trap, sure]
        rfl
      · simp [invariant, trap, sure]
        rfl
    · simp [invariant, trap]
      rfl
  · simp [invariant]
    rfl

/-- An expression that is no variable may be replaced by a new constant. -/
theorem extract_yields (scene : Scene loop start outer inner) {e : Expr} (rootless : e.root? = none)
    (stable : Node.Stable inner (.expr e)) (path : Path) (e' : Expr) :
    Yields start outer (Keeps Becomes Expr.Declares inner e e') (extract loop path e')
      (Keeps Becomes Expr.Declares inner e) := by
  refine ⟨fun x => ?_, fun x collected known room => ?_⟩
  · rw [run_extract]
    split
    · exact prefix_append _ _
    · exact prefix_refl _
  rw [run_extract] at room ⊢
  split at room
  case isFalse stays =>
    rw [if_neg stays]
    exact ⟨collected, known⟩
  case isTrue moves =>
  rw [if_pos moves]
  have added := fun t (stable : ExprStable inner e t) => collected.add scene (by simpa using room)
    (x.guarded || mayTrap e') moves.1 stable fun env ready => (known env ready).becomes
  obtain ⟨t, stable⟩ := stable
  obtain ⟨-, -, -, -, after⟩ := added t stable
  refine ⟨after, fun env ready => ⟨fun wide t stable => ?_, fun _ _ _ => trivial⟩⟩
  obtain ⟨t', filled, data, deref, -⟩ := added t stable
  refine ⟨t', expr_ident.mpr ⟨data.notFunc, (Decl.const e'.info (constName x.next) e').binding, ?_, ?_⟩,
    deref, fun root same => ?_⟩
  · rw [Scope.Table.lookup?_eq_bound?]
    have bound := ready (.const e'.info (constName x.next) e') (by simp)
    simp only [Decl.name, Decl.info, filled] at bound
    rw [bound]
    rfl
  · rw [← Info.eq_setTy filled]
  · cases rootless.symm.trans same

mutual
theorem expr_yields {inner : Env} (scene : Scene loop start outer inner) (path : Path) (e : Expr)
    (stable : Node.Stable inner (.expr e)) (declared : e.Declares false (Declared loop start)) :
    Yields start outer (fun _ => True) (Extract.expr loop path e)
      (Keeps Becomes Expr.Declares inner e) := by
  cases e with
  | int i value =>
    exact .pure fun _ _ _ _ _ => ⟨fun _ => .int (.alone i) value, fun _ _ same => same⟩
  | char i value =>
    exact .pure fun _ _ _ _ _ => ⟨fun _ => .char (.alone i) value, fun _ _ same => same⟩
  | bool i value =>
    exact .pure fun _ _ _ _ _ => ⟨fun _ => .bool (.alone i) value, fun _ _ same => same⟩
  | ident i decl name =>
    exact .pure fun _ _ _ _ _ => ⟨fun wide => .ident wide (.alone i) decl name, fun _ _ same => same⟩
  | subscript i array index =>
    exact (expr_yields scene _ array stable.part declared.1).map₂
      (expr_yields scene _ index stable.part declared.2) fun _ _ _ one two =>
        ⟨fun wide => .subscript (.alone i) (one.becomes wide) (two.becomes wide), one.both two⟩
  | unary i decl op operand =>
    exact (expr_yields scene _ operand stable.part declared).bind fun operand' =>
      (extract_yields scene rfl stable path _).imp fun env one =>
        ⟨fun wide => .unary wide (.alone i) decl op (one.2.becomes wide), one.2.declares⟩
  | binary i decl op left right =>
    exact (expr_yields scene _ left stable.part declared.1).bind fun left' =>
      (expr_yields scene _ right stable.part declared.2).bind fun right' =>
        (extract_yields scene rfl stable path _).imp fun env ⟨⟨_, one⟩, two⟩ =>
          ⟨fun wide => .binary wide (.alone i) decl op (one.becomes wide) (two.becomes wide),
            one.both two⟩
  | select i record field =>
    exact (expr_yields scene _ record stable.part declared).map fun _ _ one =>
      ⟨fun wide => .select (.alone i) (one.becomes wide) field, one.declares⟩
  | call i decl name as =>
    exact (args_yield scene _ 0 as (fun a member => stable.part (by simp [Node.parts, member]))
      declared).bind fun as' => (extract_yields scene rfl stable path _).imp fun env one =>
        ⟨fun wide => .call wide (.alone i) decl name (one.2.becomes wide), one.2.declares⟩
  | cond i test yes no =>
    exact (expr_yields scene _ test stable.part declared.1).map₃
      (expr_yields scene _ yes stable.part declared.2.1)
      (expr_yields scene _ no stable.part declared.2.2)
      fun _ _ _ _ one two three =>
        ⟨fun wide => .cond (.alone i) (one.becomes wide) (two.becomes wide) (three.becomes wide),
          fun deep P all => ⟨one.declares deep P all.1, two.both three deep P all.2⟩⟩
  | letIn i ds body =>
    obtain ⟨first, second⟩ := stable.block rfl
    exact (decls_yield scene.enterBlock _ 1 ds first declared.1).bind fun ds' =>
      (expr_yields (scene.enterBlock.declareAll first declared.1) _ body second declared.2).bind
        fun body' => .pure fun x collected known env ready => by
          have block := ready.enterBlock
          obtain ⟨⟨-, one⟩, -⟩ := known _ block
          obtain ⟨-, two⟩ := known _ (block.declareAll collected fun d member =>
            (Decl.declare_names declared.1 d member).2)
          exact ⟨fun wide => .letIn (.alone i) (fun _ => one.becomes wide.enterBlock)
              fun _ => two.becomes (wide.enterBlock.declareAll ds), one.both two⟩
  | array i elems =>
    exact (exprs_yield scene _ 0 elems (fun e member => stable.part (by simp [Node.parts, member]))
      declared).map fun _ _ each => ⟨fun wide => .array (.alone i) (each.becomes wide), each.declares⟩
  | record i fields =>
    exact (fields_yield scene _ 0 fields
      (fun f member => stable.part (mem_map.mpr ⟨f, member, rfl⟩)) declared).map
        fun _ _ each => ⟨fun wide => .record (.alone i) (each.becomes wide), each.declares⟩

theorem exprs_yield {inner : Env} (scene : Scene loop start outer inner) (path : Path) :
    ∀ (k : Nat) (es : List Expr),
    (∀ e ∈ es, Node.Stable inner (.expr e)) → Expr.Declare false (Declared loop start) es →
    Yields start outer (fun _ => True) (Extract.exprs loop path k es)
      (Keeps (fun env env' => List.Forall₂ (Becomes env env')) Expr.Declare inner es)
  | _, [], _, _ => by
    exact .pure fun _ _ _ _ _ => ⟨fun _ => .nil, fun _ _ same => same⟩
  | k, e :: es, stable, declared => by
    exact (expr_yields scene _ e (stable e (by simp)) declared.1).map₂
      (exprs_yield scene path (k + 1) es (fun e member => stable e (by simp [member])) declared.2)
      fun _ _ _ one rest => ⟨fun wide => .cons (one.becomes wide) (rest.becomes wide), one.both rest⟩

theorem fields_yield {inner : Env} (scene : Scene loop start outer inner) (path : Path) :
    ∀ (k : Nat) (fields : List (String × Expr)), (∀ f ∈ fields, Node.Stable inner (.expr f.2)) →
    Expr.FieldsDeclare false (Declared loop start) fields →
    Yields start outer (fun _ => True) (Extract.fieldExprs loop path k fields)
      (Keeps (fun env env' => List.Forall₂ fun f f' => f'.1 = f.1 ∧ Becomes env env' f.2 f'.2)
        Expr.FieldsDeclare inner fields)
  | _, [], _, _ => by
    exact .pure fun _ _ _ _ _ => ⟨fun _ => .nil, fun _ _ same => same⟩
  | k, (name, e) :: rest, stable, declared => by
    exact (expr_yields scene _ e (stable (name, e) (by simp)) declared.1).map₂
      (fields_yield scene path (k + 1) rest (fun f member => stable f (by simp [member])) declared.2)
      fun _ _ _ one rest => ⟨fun wide => .cons ⟨rfl, one.becomes wide⟩ (rest.becomes wide),
        one.both rest⟩

theorem args_yield {inner : Env} (scene : Scene loop start outer inner) (path : Path) :
    ∀ (k : Nat) (as : List Arg),
    (∀ a ∈ as, Node.Stable inner (.arg a)) → Arg.Declare false (Declared loop start) as →
    Yields start outer (fun _ => True) (Extract.args loop path k as)
      (Keeps (fun env env' => List.Forall₂ (ArgBecomes env env')) Arg.Declare inner as)
  | _, [], _, _ => by
    exact .pure fun _ _ _ _ _ => ⟨fun _ => .nil, fun _ _ same => same⟩
  | k, a :: as, stable, declared => by
    exact (arg_yields scene _ a (stable a (by simp)) declared.1).map₂
      (args_yield scene path (k + 1) as (fun a member => stable a (by simp [member])) declared.2)
      fun _ _ _ one rest => ⟨fun wide => .cons (one.becomes wide) (rest.becomes wide), one.both rest⟩

theorem arg_yields {inner : Env} (scene : Scene loop start outer inner) (path : Path) (a : Arg)
    (stable : Node.Stable inner (.arg a)) (declared : a.Declares false (Declared loop start)) :
    Yields start outer (fun _ => True) (Extract.arg loop path a)
      (Keeps ArgBecomes Arg.Declares inner a) := by
  cases a with
  | value i value =>
    exact (expr_yields scene path value stable.part declared).map
      fun _ _ one => ⟨fun wide => .value (.alone i) (one.becomes wide), one.declares⟩
  | var i target =>
    exact (expr_yields scene path target stable.part declared).map
      fun _ _ one => ⟨fun wide => .var wide (.alone i) (one.becomes wide), one.declares⟩
  | func i decl name =>
    exact .pure fun _ _ _ _ _ => ⟨fun wide => .func wide (.alone i) decl name, fun _ _ same => same⟩

theorem decls_yield {inner : Env} (scene : Scene loop start outer inner) (path : Path) :
    ∀ (k : Nat) (ds : List Decl), DeclsStable inner ds → Decl.Declare false (Declared loop start) ds →
    Yields start outer (fun _ => True) (Extract.decls loop path k ds)
      (Keeps DeclsBecome Decl.Declare inner ds)
  | _, [], _, _ => by
    exact .pure fun _ _ _ _ _ => ⟨fun _ => .nil _ _, fun _ _ same => same⟩
  | k, d :: ds, stable, declared => by
    obtain ⟨head, tail⟩ := declsStable_cons.mp stable
    have named := Decl.declares_name declared.1
    exact (decl_yields scene _ d head declared.1).bind fun d' =>
      (decls_yield (scene.declare head named) path (k + 1) ds tail declared.2).bind fun ds' =>
        .pure fun x collected known env ready => by
          obtain ⟨⟨-, one⟩, -⟩ := known _ ready
          obtain ⟨-, rest⟩ := known _ (ready.declare collected named.2)
          exact ⟨fun wide => .cons (one.becomes wide) (fun _ => rest.becomes (wide.declare d)) head,
            one.both rest⟩

theorem decl_yields {inner : Env} (scene : Scene loop start outer inner) (path : Path) (d : Decl)
    (stable : Node.Stable inner (.decl d)) (declared : d.Declares false (Declared loop start)) :
    Yields start outer (fun _ => True) (Extract.decl loop path d)
      (Keeps DeclBecomes Decl.Declares inner d) := by
  cases d with
  | const i name value =>
    exact (expr_yields scene path value stable.part declared.2).map
      fun _ _ one => ⟨fun wide => .const (.alone i) (one.becomes wide),
        fun deep P both => ⟨both.1, one.declares deep P both.2⟩⟩
  | var i name sig =>
    exact .pure fun _ _ _ _ _ => ⟨fun wide => .var (.alone i) (.same wide sig), fun _ _ same => same⟩
  | type i name sig =>
    exact .pure fun _ _ _ _ _ => ⟨fun wide => .type (.alone i) (.same wide sig), fun _ _ same => same⟩
  | func i name params result body =>
    exact .pure fun _ _ _ _ _ => ⟨fun wide => decl_same wide _, fun _ _ same => same⟩
  | proc i name params body =>
    exact .pure fun _ _ _ _ _ => ⟨fun wide => decl_same wide _, fun _ _ same => same⟩
end

mutual
theorem stmt_yields {inner : Env} (scene : Scene loop start outer inner) (path : Path) (s : Stmt)
    (stable : Node.Stable inner (.stmt s)) (declared : s.Declares false (Declared loop start)) :
    Yields start outer (fun _ => True) (Extract.stmt loop path s)
      (Keeps StmtBecomes Stmt.Declares inner s) := by
  cases s with
  | assign i target value =>
    exact (expr_yields scene _ target stable.part declared.1).map₂
      (expr_yields scene _ value stable.part declared.2) fun _ _ _ one two =>
        ⟨fun wide => .assign wide (one.becomes wide) (two.becomes wide), one.both two⟩
  | call i decl name as =>
    exact (args_yield scene _ 0 as (fun a member => stable.part (by simp [Node.parts, member]))
      declared).map fun _ _ each => ⟨fun wide => .call wide decl name (each.becomes wide), each.declares⟩
  | seq i ss =>
    exact (stmts_yield scene _ 0 ss (fun s member => stable.part (by simp [Node.parts, member]))
      declared).map fun _ _ each => ⟨fun wide => .seq (each.becomes wide), each.declares⟩
  | letIn i ds body =>
    obtain ⟨first, second⟩ := stable.block rfl
    exact (decls_yield scene.enterBlock _ 1 ds first declared.1).bind fun ds' =>
      (stmt_yields (scene.enterBlock.declareAll first declared.1) _ body second declared.2).bind
        fun body' => .pure fun x collected known env ready => by
          have block := ready.enterBlock
          obtain ⟨⟨-, one⟩, -⟩ := known _ block
          obtain ⟨-, two⟩ := known _ (block.declareAll collected fun d member =>
            (Decl.declare_names declared.1 d member).2)
          exact ⟨fun wide => .letIn (fun _ => one.becomes wide.enterBlock)
              fun _ => two.becomes (wide.enterBlock.declareAll ds), one.both two⟩
  | ifThen i test yes =>
    exact (expr_yields scene _ test stable.part declared.1).map₂
      (stmt_yields scene _ yes stable.part declared.2) fun _ _ _ one two =>
        ⟨fun wide => .ifThen (one.becomes wide) (two.becomes wide), one.both two⟩
  | ifElse i test yes no =>
    exact (expr_yields scene _ test stable.part declared.1).map₃
      (stmt_yields scene _ yes stable.part declared.2.1)
      (stmt_yields scene _ no stable.part declared.2.2)
      fun _ _ _ _ one two three =>
        ⟨fun wide => .ifElse (one.becomes wide) (two.becomes wide) (three.becomes wide),
          fun deep P all => ⟨one.declares deep P all.1, two.both three deep P all.2⟩⟩
  | whileDo i test body =>
    exact (expr_yields scene _ test stable.part declared.1).map₂
      (stmt_yields scene _ body stable.part declared.2) fun _ _ _ one two =>
        ⟨fun wide => .whileDo (one.becomes wide) (two.becomes wide), one.both two⟩
  | repeatUntil i body test =>
    exact (stmt_yields scene _ body stable.part declared.1).map₂
      (expr_yields scene _ test stable.part declared.2) fun _ _ _ one two =>
        ⟨fun wide => .repeatUntil (one.becomes wide) (two.becomes wide), one.both two⟩
  | repeatWhile i body test =>
    exact (stmt_yields scene _ body stable.part declared.1).map₂
      (expr_yields scene _ test stable.part declared.2) fun _ _ _ one two =>
        ⟨fun wide => .repeatWhile (one.becomes wide) (two.becomes wide), one.both two⟩
  | loopWhile i pre test post =>
    exact (stmt_yields scene _ pre stable.part declared.1).map₃
      (expr_yields scene _ test stable.part declared.2.1)
      (stmt_yields scene _ post stable.part declared.2.2)
      fun _ _ _ _ one two three =>
        ⟨fun wide => .loopWhile (one.becomes wide) (two.becomes wide) (three.becomes wide),
          fun deep P all => ⟨one.declares deep P all.1, two.both three deep P all.2⟩⟩
  | forever i body =>
    exact (stmt_yields scene _ body stable.part declared).map fun _ _ one =>
      ⟨fun wide => .forever (one.becomes wide), one.declares⟩
  | skip i =>
    exact .pure fun _ _ _ _ _ => ⟨fun _ => .skip, fun _ _ same => same⟩

theorem stmts_yield {inner : Env} (scene : Scene loop start outer inner) (path : Path) :
    ∀ (k : Nat) (ss : List Stmt), (∀ s ∈ ss, Node.Stable inner (.stmt s)) →
    Stmt.Declare false (Declared loop start) ss →
    Yields start outer (fun _ => True) (Extract.stmts loop path k ss)
      (Keeps (fun env env' => List.Forall₂ (StmtBecomes env env')) Stmt.Declare inner ss)
  | _, [], _, _ => by
    exact .pure fun _ _ _ _ _ => ⟨fun _ => .nil, fun _ _ same => same⟩
  | k, s :: ss, stable, declared => by
    exact (stmt_yields scene _ s (stable s (by simp)) declared.1).map₂
      (stmts_yield scene path (k + 1) ss (fun s member => stable s (by simp [member])) declared.2)
      fun _ _ _ one rest => ⟨fun wide => .cons (one.becomes wide) (rest.becomes wide), one.both rest⟩
end

end Triangle.Optimize.Hoist
