import Mathlib
import Triangle.Proofs.Simulation.Operators
import Triangle.Proofs.Simulation.Routines
import Triangle.Proofs.Simulation.Statements

/-! The code of every tree does what the tree says, by induction on the tree. -/
namespace Triangle.Setting
open List

variable {S : Setting}

/-- There is no code for an address where there is no variable. -/
theorem LocateRuns.nowhere {e : Expr}
    (fails : ∀ {env st r st'}, Generate.locate env e st ≠ .ok r st') : S.LocateRuns e := by
  intro n sc t st st' items loc a s _ _ _ done
  exact absurd done fails

mutual
theorem expr_runs : ∀ e : Expr, S.ExprRuns e
  | .int i value => ExprRuns.int i value
  | .char i value => ExprRuns.char i value
  | .bool i value => ExprRuns.bool i value
  | .ident i decl name => ExprRuns.ident i decl name
  | .subscript i array index => ExprRuns.subscript (locate_runs array) (expr_runs index) i
  | .select i record field => ExprRuns.select (locate_runs record) i field
  | .unary i decl op operand => ExprRuns.unary (expr_runs operand) i decl op
  | .binary i decl op left right => ExprRuns.binary (expr_runs left) (expr_runs right) i decl op
  | .call i decl name as => ExprRuns.call (each_arg_runs as) i decl name
  | .cond i test yes no => ExprRuns.cond (expr_runs test) (expr_runs yes) (expr_runs no) i
  | .letIn i ds body => ExprRuns.letIn (each_decl_runs ds) (expr_runs body) i
  | .array i elems => ExprRuns.array (each_expr_runs elems) i
  | .record i fields => ExprRuns.record (each_field_runs fields) i

theorem locate_runs : ∀ e : Expr, S.LocateRuns e
  | .ident i decl name => LocateRuns.ident i decl name
  | .subscript i array index => LocateRuns.subscript (locate_runs array) (expr_runs index) i
  | .select i record field => LocateRuns.select (locate_runs record) i field
  | .int _ _ | .char _ _ | .bool _ _ | .unary _ _ _ _ | .binary _ _ _ _ _ | .call _ _ _ _
  | .cond _ _ _ _ | .letIn _ _ _ | .array _ _ | .record _ _ => LocateRuns.nowhere fun done => by
    simp [Generate.locate, Generate.bind_ok, Generate.fail_ok] at done

theorem each_expr_runs : ∀ (es : List Expr), ∀ e ∈ es, S.ExprRuns e
  | e :: es => forall_mem_cons.mpr ⟨expr_runs e, each_expr_runs es⟩
  | [] => forall_mem_nil _

theorem each_field_runs : ∀ (fields : List (String × Expr)), ∀ f ∈ fields, S.ExprRuns f.2
  | (_, e) :: rest => forall_mem_cons.mpr ⟨expr_runs e, each_field_runs rest⟩
  | [] => forall_mem_nil _

theorem arg_runs : ∀ arg : Arg, S.ArgRuns arg
  | .value i value => ArgRuns.value (expr_runs value) i
  | .var i target => ArgRuns.var (locate_runs target) i
  | .func i decl name => ArgRuns.func i decl name

theorem each_arg_runs : ∀ (as : List Arg), ∀ arg ∈ as, S.ArgRuns arg
  | arg :: as => forall_mem_cons.mpr ⟨arg_runs arg, each_arg_runs as⟩
  | [] => forall_mem_nil _

theorem decl_runs : ∀ d : Decl, S.DeclRuns d
  | .const i name value => DeclRuns.const (expr_runs value) i name
  | .var i name sig => DeclRuns.var i name sig
  | .func i name params sig body => DeclRuns.func (expr_runs body) i name params sig
  | .proc i name params body => DeclRuns.proc (stmt_runs body) i name params
  | .type i name sig => DeclRuns.type i name sig

theorem each_decl_runs : ∀ (ds : List Decl), ∀ d ∈ ds, S.DeclRuns d
  | d :: ds => forall_mem_cons.mpr ⟨decl_runs d, each_decl_runs ds⟩
  | [] => forall_mem_nil _

theorem stmt_runs : ∀ c : Stmt, S.StmtRuns c
  | .assign i target value => StmtRuns.assign (locate_runs target) (expr_runs value) i
  | .call i decl name as => StmtRuns.call (each_arg_runs as) i decl name
  | .seq i ss => StmtRuns.seq (each_stmt_runs ss) i
  | .letIn i ds body => StmtRuns.letIn (each_decl_runs ds) (stmt_runs body) i
  | .ifThen i test yes => StmtRuns.ifThen (expr_runs test) (stmt_runs yes) i
  | .ifElse i test yes no => StmtRuns.ifElse (expr_runs test) (stmt_runs yes) (stmt_runs no) i
  | .whileDo i test body => StmtRuns.whileDo (expr_runs test) (stmt_runs body) i
  | .repeatUntil i body test => StmtRuns.repeatUntil (stmt_runs body) (expr_runs test) i
  | .repeatWhile i body test => StmtRuns.repeatWhile (stmt_runs body) (expr_runs test) i
  | .loopWhile i pre test post => StmtRuns.loopWhile (stmt_runs pre) (expr_runs test) (stmt_runs post) i
  | .forever i body => StmtRuns.forever (stmt_runs body) i
  | .skip i => StmtRuns.skip i

theorem each_stmt_runs : ∀ (ss : List Stmt), ∀ c ∈ ss, S.StmtRuns c
  | c :: ss => forall_mem_cons.mpr ⟨stmt_runs c, each_stmt_runs ss⟩
  | [] => forall_mem_nil _
end

end Triangle.Setting
