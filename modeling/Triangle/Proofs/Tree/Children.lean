import Mathlib
import Triangle.Proofs.Tree.Induction
import Triangle.Tree.Nodes

/-! The nodes right below a node: its parts, which stand in its own scope, what a let declares and
holds, and the body of a routine. -/
namespace Triangle.Node

open List (mem_cons mem_singleton flatMap_map mem_append)

/-- The node and all nodes below it. -/
def all : Node → List Node
  | expr e => e.nodes
  | stmt s => s.nodes
  | decl d => d.nodes
  | param p => p.nodes
  | arg a => a.nodes
  | sig s => s.nodes

/-- The nodes right below that stand in the same scope. -/
def parts : Node → List Node
  | expr (.subscript _ array index) => [expr array, expr index]
  | expr (.select _ record _) => [expr record]
  | expr (.unary _ _ _ operand) => [expr operand]
  | expr (.binary _ _ _ left right) => [expr left, expr right]
  | expr (.call _ _ _ args) => args.map arg
  | expr (.cond _ test yes no) => [expr test, expr yes, expr no]
  | expr (.array _ elems) => elems.map expr
  | expr (.record _ fields) => fields.map fun f => expr f.2
  | expr _ => []
  | stmt (.assign _ target value) => [expr target, expr value]
  | stmt (.call _ _ _ args) => args.map arg
  | stmt (.seq _ stmts) => stmts.map stmt
  | stmt (.ifThen _ test yes) => [expr test, stmt yes]
  | stmt (.ifElse _ test yes no) => [expr test, stmt yes, stmt no]
  | stmt (.whileDo _ test body) => [expr test, stmt body]
  | stmt (.repeatUntil _ body test) | stmt (.repeatWhile _ body test) => [stmt body, expr test]
  | stmt (.loopWhile _ pre test post) => [stmt pre, expr test, stmt post]
  | stmt (.forever _ body) => [stmt body]
  | stmt _ => []
  | decl (.const _ _ value) => [expr value]
  | decl (.var _ _ s) | decl (.type _ _ s) => [sig s]
  | decl (.func _ _ params result _) => params.map param ++ [sig result]
  | decl (.proc _ _ params _) => params.map param
  | param (.value _ _ s) | param (.var _ _ s) => [sig s]
  | param (.func _ _ params result) => params.map param ++ result.toList.map sig
  | arg (.value _ value) => [expr value]
  | arg (.var _ target) => [expr target]
  | arg (.func _ _ _) => []
  | sig (.array _ _ elem) => [sig elem]
  | sig (.record _ fields) => fields.map fun f => sig f.2
  | sig (.named _ _) => []

/-- The declarations of a let, and what they are for. -/
def block? : Node → Option (List Decl × Node)
  | expr (.letIn _ ds body) => some (ds, expr body)
  | stmt (.letIn _ ds body) => some (ds, stmt body)
  | _ => none

/-- The parameters and the body of a routine. -/
def routine? : Node → Option (List Param × Node)
  | decl (.func _ _ params _ body) => some (params, expr body)
  | decl (.proc _ _ params body) => some (params, stmt body)
  | _ => none

/-- All nodes right below. -/
inductive Child (n : Node) : Node → Prop where
  | part {m : Node} (member : m ∈ n.parts) : Child n m
  | declared {ds : List Decl} {d : Decl} {body : Node} (block : n.block? = some (ds, body))
      (member : d ∈ ds) : Child n (decl d)
  | body {ds : List Decl} {body : Node} (block : n.block? = some (ds, body)) : Child n body
  | routine {params : List Param} {body : Node} (routine : n.routine? = some (params, body)) :
      Child n body

/-! ## Sizes -/

theorem sizeOf_mem_map {α : Type} [SizeOf α] {f : α → Node} {xs : List α} {m : Node} (member : m ∈ xs.map f)
    (small : ∀ x, sizeOf (f x) ≤ sizeOf x + 1) : sizeOf m ≤ sizeOf xs := by
  obtain ⟨x, inside, rfl⟩ := List.mem_map.mp member
  have first := small x
  have second := List.sizeOf_lt_of_mem inside
  omega

/-- A node is larger than those right below it. -/
theorem sizeOf_part {n m : Node} (member : m ∈ n.parts) : sizeOf m < sizeOf n := by
  cases n with
  | expr e =>
    cases e with
    | call | array =>
      have smaller := sizeOf_mem_map member fun x => by simp; omega
      simp
      omega
    | record =>
      have smaller := sizeOf_mem_map member fun f => by cases f; simp; omega
      simp
      omega
    | int | char | bool | ident | letIn => cases member
    | subscript | select | unary | binary | cond =>
      simp only [parts, mem_cons, List.not_mem_nil, or_false] at member
      rcases member with rfl | rfl | rfl <;> simp <;> omega
  | stmt s =>
    cases s with
    | call | seq =>
      have smaller := sizeOf_mem_map member fun x => by simp; omega
      simp
      omega
    | letIn | skip => cases member
    | assign | ifThen | ifElse | whileDo | repeatUntil | repeatWhile | loopWhile | forever =>
      simp only [parts, mem_cons, List.not_mem_nil, or_false] at member
      rcases member with rfl | rfl | rfl <;> simp <;> omega
  | decl d =>
    cases d with
    | const | var | type =>
      simp only [parts, mem_singleton] at member
      subst member
      simp
    | func i name params result body =>
      rcases List.mem_append.mp member with formal | returned
      · have smaller := sizeOf_mem_map formal fun x => by simp; omega
        simp
        omega
      · rw [List.mem_singleton.mp returned]
        simp
        omega
    | proc i name params body =>
      have smaller := sizeOf_mem_map member fun x => by simp; omega
      simp
      omega
  | param p =>
    cases p with
    | value | var =>
      simp only [parts, mem_singleton] at member
      subst member
      simp
    | func i name params result =>
      rcases List.mem_append.mp member with formal | returned
      · have smaller := sizeOf_mem_map formal fun x => by simp; omega
        simp
        omega
      · obtain ⟨s, same, rfl⟩ := List.mem_map.mp returned
        rw [Option.mem_toList.mp same]
        simp
        omega
  | arg a =>
    cases a with
    | value | var =>
      simp only [parts, mem_singleton] at member
      subst member
      simp
    | func => cases member
  | sig s =>
    cases s with
    | named => cases member
    | array =>
      simp only [parts, mem_singleton] at member
      subst member
      simp
    | record =>
      have smaller := sizeOf_mem_map member fun f => by cases f; simp; omega
      simp
      omega

theorem block?_eq_some {n body : Node} {ds : List Decl} (block : n.block? = some (ds, body)) :
    (∃ i e, n = expr (.letIn i ds e) ∧ body = expr e) ∨
      ∃ i s, n = stmt (.letIn i ds s) ∧ body = stmt s := by
  cases n with
  | expr e =>
    cases e <;> cases block
    exact .inl ⟨_, _, rfl, rfl⟩
  | stmt s =>
    cases s <;> cases block
    exact .inr ⟨_, _, rfl, rfl⟩
  | decl | param | arg | sig => cases block

theorem routine?_eq_some {n body : Node} {params : List Param}
    (routine : n.routine? = some (params, body)) :
    (∃ i name result e, n = decl (.func i name params result e) ∧ body = expr e) ∨
      ∃ i name s, n = decl (.proc i name params s) ∧ body = stmt s := by
  cases n with
  | decl d =>
    cases d <;> cases routine
    · exact .inl ⟨_, _, _, _, rfl, rfl⟩
    · exact .inr ⟨_, _, _, rfl, rfl⟩
  | expr | stmt | param | arg | sig => cases routine

theorem Child.formal {n body : Node} {params : List Param} {p : Param}
    (routine : n.routine? = some (params, body)) (member : p ∈ params) : n.Child (param p) := by
  refine .part ?_
  rcases routine?_eq_some routine with ⟨_, _, _, _, rfl, -⟩ | ⟨_, _, _, rfl, -⟩ <;>
    simp [parts, member]

theorem Child.sizeOf_lt {n m : Node} (child : n.Child m) : sizeOf m < sizeOf n := by
  cases child with
  | part member => exact sizeOf_part member
  | declared block member =>
    have smaller := List.sizeOf_lt_of_mem member
    obtain ⟨i, e, rfl, rfl⟩ | ⟨i, s, rfl, rfl⟩ := block?_eq_some block <;> simp <;> omega
  | body block =>
    obtain ⟨i, e, rfl, rfl⟩ | ⟨i, s, rfl, rfl⟩ := block?_eq_some block <;> simp
  | routine routine =>
    obtain ⟨i, name, result, e, rfl, rfl⟩ | ⟨i, name, s, rfl, rfl⟩ := routine?_eq_some routine <;>
      simp

/-- What holds of a node once it holds of all right below it holds of every node. -/
theorem induction {P : Node → Prop} (step : ∀ n, (∀ m, n.Child m → P m) → P n) (n : Node) : P n :=
  step n fun m _child => induction step m
termination_by sizeOf n
decreasing_by exact _child.sizeOf_lt

/-! ## Nodes below -/

theorem listNodes_args (as : List Arg) : Arg.listNodes as = as.flatMap Arg.nodes := by
  induction as with
  | nil => rfl
  | cons a as ih => simp [Arg.listNodes, ih]

theorem listNodes_exprs (es : List Expr) : Expr.listNodes es = es.flatMap Expr.nodes := by
  induction es with
  | nil => rfl
  | cons e es ih => simp [Expr.listNodes, ih]

theorem fieldNodes_exprs (fields : List (String × Expr)) :
    Expr.fieldNodes fields = fields.flatMap fun f => f.2.nodes := by
  induction fields with
  | nil => rfl
  | cons f fields ih => simp [Expr.fieldNodes, ih]

theorem listNodes_stmts (ss : List Stmt) : Stmt.listNodes ss = ss.flatMap Stmt.nodes := by
  induction ss with
  | nil => rfl
  | cons s ss ih => simp [Stmt.listNodes, ih]

theorem listNodes_decls (ds : List Decl) : Decl.listNodes ds = ds.flatMap Decl.nodes := by
  induction ds with
  | nil => rfl
  | cons d ds ih => simp [Decl.listNodes, ih]

theorem listNodes_params (ps : List Param) : Param.listNodes ps = ps.flatMap Param.nodes := by
  induction ps with
  | nil => rfl
  | cons p ps ih => simp [Param.listNodes, ih]

theorem fieldNodes_sigs (fields : List (String × Sig)) :
    Sig.fieldNodes fields = fields.flatMap fun f => f.2.nodes := by
  induction fields with
  | nil => rfl
  | cons f fields ih => simp [Sig.fieldNodes, ih]

/-- Below a signature stand signatures alone. -/
theorem forall_sig {P : Node → Prop} (each : ∀ s, P (.sig s)) : ∀ s : Sig, ∀ n ∈ s.nodes, P n := by
  apply Sig.nodes.induct (fun s => ∀ n ∈ s.nodes, P n) fun fields => ∀ n ∈ Sig.fieldNodes fields, P n
  all_goals simp +contextual [Sig.nodes, Sig.fieldNodes, each, or_imp]

/-- Below parameters stand parameters and signatures alone. -/
theorem forall_params {P : Node → Prop} (each : ∀ s, P (.sig s)) (formal : ∀ p, P (.param p)) :
    ∀ ps : List Param, ∀ n ∈ Param.listNodes ps, P n := by
  apply param_induction (fun p => ∀ n ∈ p.nodes, P n) fun ps => ∀ n ∈ Param.listNodes ps, P n
  case func =>
    intro _ _ _ result formals
    cases result with
    | none => simpa [Param.nodes, formal] using formals
    | some s => simpa [Param.nodes, formal, or_imp, forall_and] using ⟨formals, forall_sig each s⟩
  case value | var => simpa [Param.nodes, formal] using forall_sig each
  all_goals simp +contextual [Param.listNodes, or_imp]

/-- Below a node stand its parts, what it declares, and the body that it holds. -/
theorem all_eq (n : Node) :
    n.all = n :: (n.parts.flatMap all ++
      (match n.block? with
      | some (ds, body) => ds.flatMap Decl.nodes ++ body.all
      | none => []) ++
      match n.routine? with
      | some (_, body) => body.all
      | none => []) := by
  cases n with
  | expr e => cases e <;> simp [all, parts, block?, routine?, Expr.nodes, listNodes_args,
      listNodes_exprs, fieldNodes_exprs, listNodes_decls, flatMap_map]
  | stmt s => cases s <;> simp [all, parts, block?, routine?, Stmt.nodes, listNodes_args,
      listNodes_stmts, listNodes_decls, flatMap_map]
  | decl d => cases d <;> simp [all, parts, block?, routine?, Decl.nodes, listNodes_params,
      flatMap_map]
  | param p =>
    cases p with
    | value | var => simp [all, parts, block?, routine?, Param.nodes]
    | func i name params result =>
      cases result <;> simp [all, parts, block?, routine?, Param.nodes, listNodes_params,
        flatMap_map]
  | arg a => cases a <;> simp [all, parts, block?, routine?, Arg.nodes]
  | sig s => cases s <;> simp [all, parts, block?, routine?, Sig.nodes, fieldNodes_sigs,
      flatMap_map]

/-- A node below is the node itself or below one right below it. -/
theorem mem_all {n m : Node} (member : m ∈ n.all) : m = n ∨ ∃ c, n.Child c ∧ m ∈ c.all := by
  rw [all_eq, mem_cons, mem_append, mem_append] at member
  rcases member with same | (part | inside) | inside
  · exact .inl same
  · obtain ⟨c, member, below⟩ := List.mem_flatMap.mp part
    exact .inr ⟨c, .part member, below⟩
  · split at inside
    · rename_i ds body block
      rcases List.mem_append.mp inside with declared | below
      · obtain ⟨d, member, below⟩ := List.mem_flatMap.mp declared
        exact .inr ⟨decl d, .declared block member, below⟩
      · exact .inr ⟨body, .body block, below⟩
    · cases inside
  · split at inside
    · rename_i body routine
      exact .inr ⟨body, .routine routine, inside⟩
    · cases inside

theorem self_mem_all (n : Node) : n ∈ n.all := by
  rw [all_eq]
  exact List.mem_cons_self

/-- What is below a node right below is below the node. -/
theorem Child.all_subset {n c : Node} (child : n.Child c) : c.all ⊆ n.all := by
  intro m member
  rw [n.all_eq]
  cases child with
  | part inside =>
    simp only [mem_cons, mem_append, List.mem_flatMap]
    exact .inr (.inl (.inl ⟨c, inside, member⟩))
  | declared block inside =>
    simp only [block, mem_cons, mem_append, List.mem_flatMap]
    exact .inr (.inl (.inr (.inl ⟨_, inside, member⟩)))
  | body block =>
    simp only [block, mem_cons, mem_append]
    exact .inr (.inl (.inr (.inr member)))
  | routine routine =>
    simp only [routine, mem_cons, mem_append]
    exact .inr (.inr member)

/-! ## Names that nodes declare -/

/-- The name that a declaration or a parameter declares. -/
def declaredName? : Node → Option String
  | decl d => some d.name
  | param p => some p.name
  | expr _ | stmt _ | arg _ | sig _ => none

end Triangle.Node
