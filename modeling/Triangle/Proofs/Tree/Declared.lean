import Mathlib
import Triangle.Proofs.Tree.Children
import Triangle.Proofs.Tree.Induction

/-! What a tree declares, by kind and name: the declarations of its lets, and the parameters of its
routines. -/
namespace Triangle

/-- What the node declares, if anything, is as `P` says of its kind and name. -/
def Node.Declares (P : DeclKind → String → Prop) : Node → Prop
  | decl d => P d.kind d.name
  | param p => P p.kind p.name
  | expr _ | stmt _ | arg _ | sig _ => True

/-- What is declared at these nodes is as `P` says. -/
def Declare (P : DeclKind → String → Prop) (ns : List Node) : Prop := ∀ n ∈ ns, n.Declares P

variable {P : DeclKind → String → Prop}

@[simp] theorem declare_nil : Declare P [] := by simp [Declare]

@[simp] theorem declare_cons {n : Node} {ns : List Node} :
    Declare P (n :: ns) ↔ n.Declares P ∧ Declare P ns := by simp [Declare]

@[simp] theorem declare_append {ns ms : List Node} :
    Declare P (ns ++ ms) ↔ Declare P ns ∧ Declare P ms := by simp [Declare, or_imp, forall_and]

@[simp] theorem declare_sig (s : Sig) : Declare P s.nodes := Node.forall_sig (fun _ => trivial) s

mutual
/-- What the expression declares is as `P` says. What the routines in it declare themselves, with
their parameters, counts if `deep` does. -/
def Expr.Declares (deep : Bool) (P : DeclKind → String → Prop) : Expr → Prop
  | .int _ _ | .char _ _ | .bool _ _ | .ident _ _ _ => True
  | .subscript _ array index => array.Declares deep P ∧ index.Declares deep P
  | .select _ record _ => record.Declares deep P
  | .unary _ _ _ operand => operand.Declares deep P
  | .binary _ _ _ left right => left.Declares deep P ∧ right.Declares deep P
  | .call _ _ _ as => Arg.Declare deep P as
  | .cond _ test yes no => test.Declares deep P ∧ yes.Declares deep P ∧ no.Declares deep P
  | .letIn _ ds body => Decl.Declare deep P ds ∧ body.Declares deep P
  | .array _ elems => Expr.Declare deep P elems
  | .record _ fields => Expr.FieldsDeclare deep P fields

def Expr.Declare (deep : Bool) (P : DeclKind → String → Prop) : List Expr → Prop
  | [] => True
  | e :: es => e.Declares deep P ∧ Expr.Declare deep P es

def Expr.FieldsDeclare (deep : Bool) (P : DeclKind → String → Prop) : List (String × Expr) → Prop
  | [] => True
  | (_, e) :: rest => e.Declares deep P ∧ Expr.FieldsDeclare deep P rest

def Arg.Declares (deep : Bool) (P : DeclKind → String → Prop) : Arg → Prop
  | .value _ value => value.Declares deep P
  | .var _ target => target.Declares deep P
  | .func _ _ _ => True

def Arg.Declare (deep : Bool) (P : DeclKind → String → Prop) : List Arg → Prop
  | [] => True
  | a :: as => a.Declares deep P ∧ Arg.Declare deep P as

def Decl.Declares (deep : Bool) (P : DeclKind → String → Prop) : Decl → Prop
  | .const _ name value => P .const name ∧ value.Declares deep P
  | .var _ name _ => P .var name
  | .func _ name params _ body =>
    P .func name ∧ (deep = true → Triangle.Declare P (Param.listNodes params) ∧ body.Declares deep P)
  | .proc _ name params body =>
    P .proc name ∧ (deep = true → Triangle.Declare P (Param.listNodes params) ∧ body.Declares deep P)
  | .type _ name _ => P .type name

def Decl.Declare (deep : Bool) (P : DeclKind → String → Prop) : List Decl → Prop
  | [] => True
  | d :: ds => d.Declares deep P ∧ Decl.Declare deep P ds

def Stmt.Declares (deep : Bool) (P : DeclKind → String → Prop) : Stmt → Prop
  | .assign _ target value => target.Declares deep P ∧ value.Declares deep P
  | .call _ _ _ as => Arg.Declare deep P as
  | .seq _ ss => Stmt.Declare deep P ss
  | .letIn _ ds body => Decl.Declare deep P ds ∧ body.Declares deep P
  | .ifThen _ test yes => test.Declares deep P ∧ yes.Declares deep P
  | .ifElse _ test yes no => test.Declares deep P ∧ yes.Declares deep P ∧ no.Declares deep P
  | .whileDo _ test body => test.Declares deep P ∧ body.Declares deep P
  | .repeatUntil _ body test => body.Declares deep P ∧ test.Declares deep P
  | .repeatWhile _ body test => body.Declares deep P ∧ test.Declares deep P
  | .loopWhile _ pre test post => pre.Declares deep P ∧ test.Declares deep P ∧ post.Declares deep P
  | .forever _ body => body.Declares deep P
  | .skip _ => True

def Stmt.Declare (deep : Bool) (P : DeclKind → String → Prop) : List Stmt → Prop
  | [] => True
  | s :: ss => s.Declares deep P ∧ Stmt.Declare deep P ss
end

theorem declare_nodes : Everywhere (fun e => Declare P e.nodes ↔ e.Declares true P)
    (fun fields => Declare P (Expr.fieldNodes fields) ↔ Expr.FieldsDeclare true P fields)
    (fun es => Declare P (Expr.listNodes es) ↔ Expr.Declare true P es)
    (fun ds => Declare P (Decl.listNodes ds) ↔ Decl.Declare true P ds)
    (fun d => Declare P d.nodes ↔ d.Declares true P)
    (fun s => Declare P s.nodes ↔ s.Declares true P)
    (fun ss => Declare P (Stmt.listNodes ss) ↔ Stmt.Declare true P ss)
    (fun as => Declare P (Arg.listNodes as) ↔ Arg.Declare true P as)
    fun a => Declare P a.nodes ↔ a.Declares true P := by
  apply tree_induction
  all_goals
    simp +contextual [Expr.nodes, Expr.Declares, Expr.fieldNodes, Expr.FieldsDeclare, Expr.listNodes,
      Expr.Declare, Decl.listNodes, Decl.Declare, Decl.nodes, Decl.Declares, Stmt.nodes, Stmt.Declares,
      Stmt.listNodes, Stmt.Declare, Arg.listNodes, Arg.Declare, Arg.nodes, Arg.Declares, Node.Declares,
      Decl.kind, Decl.name]

theorem Decl.declares_name {deep : Bool} {d : Decl} (declares : d.Declares deep P) :
    P d.kind d.name := by
  cases d with
  | const | func | proc => exact declares.1
  | var | type => exact declares

theorem Decl.declare_names {deep : Bool} {ds : List Decl} (declare : Decl.Declare deep P ds) :
    ∀ d ∈ ds, P d.kind d.name := by
  induction ds with
  | nil => simp
  | cons d ds ih =>
    rw [List.forall_mem_cons]
    exact ⟨Decl.declares_name declare.1, ih declare.2⟩

theorem Param.declare_names {ps : List Param} (declare : Declare P (Param.listNodes ps)) :
    ∀ p ∈ ps, P p.kind p.name := by
  induction ps with
  | nil => simp
  | cons p ps ih =>
    obtain ⟨first, rest⟩ := declare_append.mp declare
    rw [List.forall_mem_cons]
    exact ⟨first _ (Node.self_mem_all (.param p)), ih rest⟩

theorem Decl.declare_of_forall {deep : Bool} {ds : List Decl} (each : ∀ d ∈ ds, d.Declares deep P) :
    Decl.Declare deep P ds := by
  induction ds with
  | nil => trivial
  | cons d ds ih =>
    rw [List.forall_mem_cons] at each
    exact ⟨each.1, ih each.2⟩

/-- What is declared outside of routines is as is said of it, and as is said of all that is declared. -/
theorem declares_and {P' both : DeclKind → String → Prop}
    (known : ∀ kind name, P kind name → P' kind name → both kind name) : Everywhere
    (fun e => e.Declares false P → e.Declares true P' → e.Declares false both)
    (fun fields => Expr.FieldsDeclare false P fields → Expr.FieldsDeclare true P' fields →
      Expr.FieldsDeclare false both fields)
    (fun es => Expr.Declare false P es → Expr.Declare true P' es → Expr.Declare false both es)
    (fun ds => Decl.Declare false P ds → Decl.Declare true P' ds → Decl.Declare false both ds)
    (fun d => d.Declares false P → d.Declares true P' → d.Declares false both)
    (fun s => s.Declares false P → s.Declares true P' → s.Declares false both)
    (fun ss => Stmt.Declare false P ss → Stmt.Declare true P' ss → Stmt.Declare false both ss)
    (fun as => Arg.Declare false P as → Arg.Declare true P' as → Arg.Declare false both as)
    fun a => a.Declares false P → a.Declares true P' → a.Declares false both := by
  apply tree_induction
  all_goals
    simp +contextual [Expr.Declares, Expr.FieldsDeclare, Expr.Declare, Decl.Declare, Decl.Declares,
      Stmt.Declares, Stmt.Declare, Arg.Declare, Arg.Declares, known]

end Triangle
