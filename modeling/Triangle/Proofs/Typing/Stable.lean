import Mathlib
import Triangle.Proofs.Typing.Recheck
import Triangle.Proofs.Typing.Accepted

/-! Trees that checking accepts and leaves as they are. What checking makes of an accepted tree is such
a tree, so that checking it again finds no mistake and changes nothing. -/
namespace Triangle

/-! ## Slots that are filled already -/

theorem Info.ty_of_eq_setTy {i : Info} {t : Ty} (same : i = i.setTy t) : i.ty = some t := by
  rw [same]
  rfl

theorem Info.eq_setTy {i : Info} {t : Ty} (filled : i.ty = some t) : i = i.setTy t := by
  rw [setTy, ← filled]

theorem Info.alone_eq_setTy {i : Info} {t : Ty} (same : i = i.setTy t) :
    i.alone = i.alone.setTy t := by
  have filled : i.ty = some t := Info.ty_of_eq_setTy same
  exact Info.eq_setTy filled

namespace Check
open Checked

/-- The expression is accepted with type `t`, and its slots hold what checking would put there. -/
abbrev ExprStable (env : Env) (e : Expr) (t : Ty) : Prop := expr env e = ⟨e, .ok t, []⟩

abbrev DeclStable (env : Env) (d : Decl) : Prop :=
  Check.decl env d = ⟨d, env.declare d, .ok (), []⟩

def Env.declareAll (env : Env) (ds : List Decl) : Env := ds.foldl Env.declare env

abbrev DeclsStable (env : Env) (ds : List Decl) : Prop :=
  decls env ds = ⟨ds, .ok (env.declareAll ds), []⟩

abbrev StmtStable (env : Env) (s : Stmt) : Prop := stmt env s = (s, [])

variable {env final : Env} {t : Ty}

/-! ## Declarations -/

/-- What an accepted declaration leaves in scope is read off its slots. -/
theorem decl_declares {d d' : Decl} (accepted : Check.decl env d = ⟨d', final, .ok (), []⟩) :
    final = env.declare d' := by
  cases d with
  | const =>
    obtain ⟨_, _, _, _, _, same⟩ := decl_const.mp accepted
    exact same
  | var =>
    obtain ⟨_, _, _, _, _, same⟩ := decl_var.mp accepted
    exact same
  | type =>
    obtain ⟨_, _, _, _, _, same⟩ := decl_type.mp accepted
    exact same
  | func =>
    obtain ⟨_, _, _, _, _, _, _, _, _, _, same, _⟩ := decl_func.mp accepted
    exact same
  | proc =>
    obtain ⟨_, _, _, _, _, _, same, _⟩ := decl_proc.mp accepted
    exact same

theorem declsStable_cons {d : Decl} {ds : List Decl} :
    DeclsStable env (d :: ds) ↔ DeclStable env d ∧ DeclsStable (env.declare d) ds := by
  rw [DeclsStable, decls_cons]
  constructor
  · rintro ⟨first, next, rest, head, tail, same⟩
    cases same
    cases decl_declares head
    exact ⟨head, tail⟩
  · rintro ⟨head, tail⟩
    exact ⟨d, _, ds, head, tail, rfl⟩

end Check

/-- Checking what checking has accepted changes nothing. -/
theorem Program.check_stable {p q : Program} (accepted : p.check = (q, [])) :
    Check.StmtStable .standard q.body := by
  simp only [Program.check, Prod.mk.injEq] at accepted
  obtain ⟨rfl, clean⟩ := accepted
  rw [Check.StmtStable, Check.stmt_checked]
  exact Prod.ext rfl clean

theorem Program.check_of_stable {p : Program} (stable : Check.StmtStable .standard p.body) :
    p.check = (p, []) := by
  rw [Program.check, stable]

end Triangle
