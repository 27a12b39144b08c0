import Mathlib
import Triangle.Proofs.Tree.Declared
import Triangle.Proofs.Tree.Induction
import Triangle.Proofs.Typing.Replacing
import Triangle.Tree.Twin

/-! Numbering the nodes of an expression keeps it stable, and what it declares. -/
namespace Triangle

theorem run_bind {α β : Type} (x : StateM Nat α) (f : α → StateM Nat β) (k : Nat) :
    (x >>= f).run k = (f (x.run k).1).run (x.run k).2 := rfl

theorem run_pure {α : Type} (a : α) (k : Nat) : (pure a : StateM Nat α).run k = (a, k) := rfl

namespace Check

variable {env : Env}

/-! ## Slots -/

theorem alike_number (i : Info) (decl : Option Binding) (k : Nat) :
    i.Alike ((Slots.number ⟨i, decl⟩).run k).1.info := by
  unfold Slots.number
  split <;> exact ⟨rfl, rfl⟩

theorem decl_number (i : Info) (decl : Option Binding) (k : Nat) :
    ((Slots.number ⟨i, decl⟩).run k).1.decl = decl := by
  unfold Slots.number
  split <;> rfl

/-! ## Signatures and parameters -/

mutual
theorem sig_number : ∀ (s : Sig) (k : Nat), SigBecomes env env s ((s.mapSlots Slots.number).run k).1
  | .named i name, k, t, stable => by
    obtain ⟨found, whole⟩ := sig_named.mp stable
    obtain ⟨info, -⟩ := Sig.named.inj whole
    exact sig_named.mpr ⟨found, congrArg (Sig.named · name) ((alike_number i none k).filled info)⟩
  | .array i length elem, k, t, stable => by
    obtain ⟨positive, small, _, u, inner, rfl, whole⟩ := sig_array.mp stable
    obtain ⟨info, -, rfl⟩ := Sig.array.inj whole
    exact sig_array.mpr ⟨positive, small, _, u, sig_number elem _ u inner, rfl,
      congrArg (Sig.array · length _) ((alike_number i none k).filled info)⟩
  | .record i fields, k, t, stable => by
    obtain ⟨_, ts, inner, rfl, whole⟩ := sig_record.mp stable
    obtain ⟨info, rfl⟩ := Sig.record.inj whole
    have alike := alike_number i none k
    refine sig_record.mpr ⟨_, ts, ?_, rfl, congrArg (Sig.record · _) (alike.filled info)⟩
    exact alike.1 ▸ sigFields_number fields _ inner

theorem sigFields_number {pos : Pos} : ∀ (fields : List (String × Sig)) (k : Nat) {seen : List String}
    {ts : List (String × Ty)}, sigFields env pos seen fields = ⟨fields, .ok ts, []⟩ →
      sigFields env pos seen ((Sig.mapFieldSlots Slots.number fields).run k).1 =
        ⟨((Sig.mapFieldSlots Slots.number fields).run k).1, .ok ts, []⟩
  | [], _, _, _, stable => stable
  | (name, s) :: rest, k, seen, ts, stable => by
    obtain ⟨fresh, _, t, _, us, head, tail, whole, rfl⟩ := sigFields_cons.mp stable
    cases whole
    exact sigFields_cons.mpr ⟨fresh, _, t, _, us, sig_number s k t head,
      sigFields_number rest _ tail, rfl, rfl⟩
end

theorem binding_number (p : Param) (k : Nat) :
    ((p.mapSlots Slots.number).run k).1.binding = p.binding := by
  cases p with
  | value i name s | var i name s => exact congrArg (Binding.declared _ name) (alike_number i none k).1
  | func i name ps result =>
    cases result <;> exact congrArg (Binding.declared _ name) (alike_number i none k).1

mutual
theorem param_number : ∀ (p : Param) (k : Nat) {t : Ty}, param env p = ⟨p, .ok t, []⟩ →
    param env ((p.mapSlots Slots.number).run k).1 =
      ⟨((p.mapSlots Slots.number).run k).1, .ok t, []⟩
  | .value i name s, k, t, stable => by
    obtain ⟨_, inner, whole⟩ := param_value.mp stable
    obtain ⟨info, -, rfl⟩ := Param.value.inj whole
    exact param_value.mpr ⟨_, sig_number s _ t inner,
      congrArg (Param.value · name _) ((alike_number i none k).filled info)⟩
  | .var i name s, k, t, stable => by
    obtain ⟨_, u, inner, rfl, whole⟩ := param_var.mp stable
    obtain ⟨info, -, rfl⟩ := Param.var.inj whole
    exact param_var.mpr ⟨_, u, sig_number s _ u inner, rfl,
      congrArg (Param.var · name _) ((alike_number i none k).filled info)⟩
  | .func i name ps none, k, t, stable => by
    obtain ⟨_, ts, _, u, formals, returned, rfl, whole⟩ := param_func.mp stable
    obtain ⟨info, -, rfl, rfl⟩ := Param.func.inj whole
    exact param_func.mpr ⟨_, ts, none, u, params_number ps _ formals, returned, rfl,
      congrArg (Param.func · name _ none) ((alike_number i none k).filled info)⟩
  | .func i name ps (some s), k, t, stable => by
    obtain ⟨_, ts, _, u, formals, returned, rfl, whole⟩ := param_func.mp stable
    obtain ⟨info, -, rfl, rfl⟩ := Param.func.inj whole
    obtain ⟨_, inner, same⟩ := resultSig_some.mp returned
    cases same
    exact param_func.mpr ⟨_, ts, some _, u, params_number ps _ formals,
      resultSig_some.mpr ⟨_, sig_number s _ u inner, rfl⟩, rfl,
      congrArg (Param.func · name _ (some _)) ((alike_number i none k).filled info)⟩

theorem params_number (ps : List Param) (k : Nat) {seen : List String} {ts : List Ty}
    (stable : params env seen ps = ⟨ps, .ok ts, []⟩) :
    params env seen ((Param.mapListSlots Slots.number ps).run k).1 =
      ⟨((Param.mapListSlots Slots.number ps).run k).1, .ok ts, []⟩ := by
  cases ps with
  | nil => exact stable
  | cons p ps =>
    obtain ⟨fresh, _, t, _, us, head, tail, whole, rfl⟩ := params_cons.mp stable
    cases whole
    have same := (Binding.declared.inj (binding_number p k)).2.1
    refine params_cons.mpr ⟨same ▸ fresh, _, t, _, us, param_number p k head, ?_, rfl, rfl⟩
    rw [same]
    exact params_number ps _ tail
end

theorem bindings_number : ∀ (ps : List Param) (k : Nat),
    List.Forall₂ (fun p p' => p'.binding = p.binding) ps
      ((Param.mapListSlots Slots.number ps).run k).1
  | [], _ => .nil
  | p :: ps, k => .cons (binding_number p k) (bindings_number ps _)

theorem become_params_number (ps : List Param) (k : Nat) :
    ParamsBecome env env ps ((Param.mapListSlots Slots.number ps).run k).1 where
  stable _ _ := params_number ps k
  binds outer ts := bindParams_congr (bindings_number ps k) ts outer

/-! ## Expressions, declarations and commands -/

theorem tree_number : Everywhere
    (fun e => ∀ k env, Becomes env env e ((e.mapSlots Slots.number).run k).1)
    (fun fields => ∀ k env, List.Forall₂ (fun f f' => f'.1 = f.1 ∧ Becomes env env f.2 f'.2) fields
      ((Expr.mapFieldSlots Slots.number fields).run k).1)
    (fun es => ∀ k env, List.Forall₂ (Becomes env env) es ((Expr.mapListSlots Slots.number es).run k).1)
    (fun ds => ∀ k env, DeclsStable env ds →
      DeclsBecome env env ds ((Decl.mapListSlots Slots.number ds).run k).1)
    (fun d => ∀ k env, DeclBecomes env env d ((d.mapSlots Slots.number).run k).1)
    (fun s => ∀ k env, StmtBecomes env env s ((s.mapSlots Slots.number).run k).1)
    (fun ss => ∀ k env, List.Forall₂ (StmtBecomes env env) ss
      ((Stmt.mapListSlots Slots.number ss).run k).1)
    (fun as => ∀ k env, List.Forall₂ (ArgBecomes env env) as ((Arg.mapListSlots Slots.number as).run k).1)
    fun a => ∀ k env, ArgBecomes env env a ((a.mapSlots Slots.number).run k).1 := by
  apply tree_induction
  case letIn => -- the blocks
    intro i ds body first second k env
    exact .letIn (alike_number i none k) (first _ _) fun _ => second _ _
  case letStmt => exact fun i ds body first second k env => .letIn (first _ _) fun _ => second _ _
  case var => exact fun i _ s k env => .var (alike_number i none k) (sig_number s _) -- signatures
  case type => exact fun i _ s k env => .type (alike_number i none k) (sig_number s _)
  case func =>
    intro i name ps result body inner k env
    exact .func (alike_number i none k) (become_params_number ps _) (sig_number result _)
      fun _ _ _ => inner _ _
  case proc =>
    intro i name ps body inner k env
    exact .proc (alike_number i none k) (become_params_number ps _) fun _ _ _ => inner _ _
  case decls =>
    intro d ds first later k env stable
    obtain ⟨head, tail⟩ := declsStable_cons.mp stable
    exact .cons (first k _) (fun _ => later _ _ tail) head
  all_goals
    intros
    simp [-StateT.run_bind, -StateT.run_pure, -bind_pure_comp, Expr.mapSlots, Expr.mapFieldSlots,
      Expr.mapListSlots, Decl.mapListSlots, Decl.mapSlots, Stmt.mapSlots, Stmt.mapListSlots,
      Arg.mapListSlots, Arg.mapSlots, run_bind, run_pure, alike_number, decl_number, Env.Widens.refl, *]

theorem becomes_number (e : Expr) (k : Nat) : Becomes env env e ((e.mapSlots Slots.number).run k).1 :=
  tree_number.expr e k env

end Check

/-! ## What is declared -/

variable {deep : Bool} {P : DeclKind → String → Prop}

theorem Param.declare_number : ∀ (ps : List Param) (k : Nat), Declare P (listNodes ps) →
    Declare P (listNodes ((mapListSlots Slots.number ps).run k).1) := by
  apply param_induction
    (fun p => ∀ k, Declare P p.nodes → Declare P ((p.mapSlots Slots.number).run k).1.nodes)
    fun ps => ∀ k, Declare P (listNodes ps) → Declare P (listNodes ((mapListSlots Slots.number ps).run k).1)
  case func =>
    intro _ _ _ result formals
    cases result <;>
      simp +contextual [-StateT.run_bind, -StateT.run_pure, -bind_pure_comp, Param.nodes,
        Param.mapSlots, formals, Node.Declares, Param.kind, Param.name, run_bind, run_pure]
  all_goals
    simp +contextual [-StateT.run_bind, -StateT.run_pure, -bind_pure_comp, Param.nodes, Param.mapSlots,
      Param.listNodes, Param.mapListSlots, Node.Declares, Param.kind, Param.name, run_bind, run_pure]

theorem declares_number : Everywhere
    (fun e => ∀ k, e.Declares deep P → ((e.mapSlots Slots.number).run k).1.Declares deep P)
    (fun fields => ∀ k, Expr.FieldsDeclare deep P fields →
      Expr.FieldsDeclare deep P ((Expr.mapFieldSlots Slots.number fields).run k).1)
    (fun es => ∀ k, Expr.Declare deep P es →
      Expr.Declare deep P ((Expr.mapListSlots Slots.number es).run k).1)
    (fun ds => ∀ k, Decl.Declare deep P ds →
      Decl.Declare deep P ((Decl.mapListSlots Slots.number ds).run k).1)
    (fun d => ∀ k, d.Declares deep P → ((d.mapSlots Slots.number).run k).1.Declares deep P)
    (fun s => ∀ k, s.Declares deep P → ((s.mapSlots Slots.number).run k).1.Declares deep P)
    (fun ss => ∀ k, Stmt.Declare deep P ss →
      Stmt.Declare deep P ((Stmt.mapListSlots Slots.number ss).run k).1)
    (fun as => ∀ k, Arg.Declare deep P as → Arg.Declare deep P ((Arg.mapListSlots Slots.number as).run k).1)
    (fun a => ∀ k, a.Declares deep P → ((a.mapSlots Slots.number).run k).1.Declares deep P) := by
  apply tree_induction
  case func => -- the routines
    intro _ _ params _ _ inner _ declared
    exact ⟨declared.1, fun deep =>
      ⟨Param.declare_number params _ (declared.2 deep).1, inner _ (declared.2 deep).2⟩⟩
  case proc =>
    intro _ _ params _ inner _ declared
    exact ⟨declared.1, fun deep =>
      ⟨Param.declare_number params _ (declared.2 deep).1, inner _ (declared.2 deep).2⟩⟩
  all_goals
    simp +contextual [-StateT.run_bind, -StateT.run_pure, -bind_pure_comp, Expr.mapSlots, Expr.Declares,
      Expr.mapFieldSlots, Expr.FieldsDeclare, Expr.mapListSlots, Expr.Declare, Decl.mapListSlots,
      Decl.Declare, Decl.mapSlots, Decl.Declares, Stmt.mapSlots, Stmt.Declares, Stmt.mapListSlots,
      Stmt.Declare, Arg.mapListSlots, Arg.Declare, Arg.mapSlots, Arg.Declares, run_bind, run_pure]

end Triangle
