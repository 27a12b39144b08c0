import Mathlib
import Triangle.Optimize.Hoist
import Triangle.Proofs.Tree.Declared
import Triangle.Proofs.Tree.Induction

/-! What deeds say of the names that a tree declares. A loop changes every name that it declares outside
of routines, since the deeds of the loop hold them all. -/
namespace Triangle.Optimize
open List

namespace Deed

mutual
/-- The names that a deed assigns or declares itself. -/
def names : Deed → List String
  | assigns name | declares name | routine name _ | newRoutine _ name _ _ => [name]
  | calls _ => []
  | block body => listNames body

def listNames : List Deed → List String
  | [] => []
  | d :: ds => d.names ++ listNames ds
end

@[simp] theorem listNames_nil : listNames [] = [] := rfl

@[simp] theorem listNames_cons (d : Deed) (ds : List Deed) :
    listNames (d :: ds) = d.names ++ listNames ds := rfl

@[simp] theorem listNames_append (ds es : List Deed) :
    listNames (ds ++ es) = listNames ds ++ listNames es := by
  induction ds with
  | nil => rfl
  | cons d ds ih => simp [ih]

/-! ## Deeds of trees -/

section
variable {Q : String → Prop}

/-- What a tree declares is among the names of its deeds. -/
theorem declares_deeds : Everywhere
    (fun e => (∀ name ∈ listNames (ofExpr e), Q name) → e.Declares false fun _ => Q)
    (fun fields => (∀ name ∈ listNames (ofFields fields), Q name) →
      Expr.FieldsDeclare false (fun _ => Q) fields)
    (fun es => (∀ name ∈ listNames (ofExprs es), Q name) → Expr.Declare false (fun _ => Q) es)
    (fun ds => (∀ name ∈ listNames (ofDecls ds), Q name) → Decl.Declare false (fun _ => Q) ds)
    (fun d => (∀ name ∈ listNames (ofDecl d), Q name) → d.Declares false fun _ => Q)
    (fun s => (∀ name ∈ listNames (ofStmt s), Q name) → s.Declares false fun _ => Q)
    (fun ss => (∀ name ∈ listNames (ofStmts ss), Q name) → Stmt.Declare false (fun _ => Q) ss)
    (fun as => (∀ name ∈ listNames (ofArgs as), Q name) → Arg.Declare false (fun _ => Q) as)
    fun a => (∀ name ∈ listNames (ofArg a), Q name) → a.Declares false fun _ => Q := by
  apply tree_induction
  all_goals
    simp +contextual [ofExpr, Expr.Declares, ofFields, Expr.FieldsDeclare, ofExprs, Expr.Declare, ofDecls,
      Decl.Declare, ofDecl, Decl.Declares, ofStmt, Stmt.Declares, ofStmts, Stmt.Declare, ofArgs,
      Arg.Declare, ofArg, Arg.Declares, names, or_imp, forall_and]

end

end Deed

/-! ## Summaries -/

namespace Effects
open Deed

mutual
/-- A deed keeps its names when routines become known, and the summary holds them. -/
theorem names_deed : ∀ (d : Deed) (scope : Callees) (known : Known),
    ((deed scope d).run known).1.2.1.names = d.names ∧
      ((deed scope d).run known).1.2.2.names = d.names
  | .assigns name, _, _ | .declares name, _, _ | .routine name id, _, _ => ⟨rfl, rfl⟩
  | .calls name, scope, _ => by
    refine ⟨rfl, ?_⟩
    show (scope.call name).names = []
    unfold Callees.call
    split <;> rfl
  | .newRoutine twin name params body, scope, known => by
    cases found : known.twin? twin with
    | some id =>
      simp only [deed, StateT.run_bind, StateT.run_get, pure_bind, found]
      exact ⟨rfl, rfl⟩
    | none =>
      simp only [deed, StateT.run_bind, StateT.run_get, pure_bind, found]
      exact ⟨rfl, rfl⟩
  | .block body, scope, known => names_deeds body scope.enterBlock known

theorem names_deeds : ∀ (ds : List Deed) (scope : Callees) (known : Known),
    listNames ((deeds scope ds).run known).1.1 = listNames ds ∧
      ((deeds scope ds).run known).1.2.names = listNames ds
  | [], _, _ => ⟨rfl, rfl⟩
  | d :: ds, scope, known => by
    have first := names_deed d scope known
    have rest := names_deeds ds ((deed scope d).run known).1.1 ((deed scope d).run known).2
    exact ⟨congrArg₂ HAppend.hAppend first.1 rest.1, congrArg₂ HAppend.hAppend first.2 rest.2⟩
end

end Effects

end Triangle.Optimize
