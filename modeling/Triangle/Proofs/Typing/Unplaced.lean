import Mathlib
import Triangle.Check.Twin
import Triangle.Proofs.Tree.Induction
import Triangle.Proofs.Typing.Slotless

/-! Whether a tree is accepted depends on its text alone. Neither what stands in the slots of its nodes
nor where the nodes stand has a part in it. -/
namespace Triangle

/-- Slots that say nothing, whatever they said. -/
def Slots.blank (_ : Slots) : Id Slots := { info := {} }

variable (f : Slots → Id Slots)

theorem Sig.blank_mapSlots : ∀ s : Sig,
    Sig.mapSlots Slots.blank (s.mapSlots f) = s.mapSlots Slots.blank := by
  apply erased.induct (fun s => Sig.mapSlots Slots.blank (s.mapSlots f) = s.mapSlots Slots.blank)
    fun fields => mapFieldSlots Slots.blank (mapFieldSlots f fields) = mapFieldSlots Slots.blank fields
  all_goals simp +contextual [Sig.mapSlots, Sig.mapFieldSlots, pure, bind, Slots.blank]

theorem Param.blank_mapListSlots : ∀ ps : List Param,
    mapListSlots Slots.blank (mapListSlots f ps) = mapListSlots Slots.blank ps := by
  apply param_induction
    (fun p => Param.mapSlots Slots.blank (p.mapSlots f) = p.mapSlots Slots.blank)
    fun ps => mapListSlots Slots.blank (mapListSlots f ps) = mapListSlots Slots.blank ps
  case func =>
    intro _ _ _ result formals
    cases result <;> simp [Param.mapSlots, pure, bind, Slots.blank, Sig.blank_mapSlots, formals]
  all_goals
    simp +contextual [Param.mapSlots, Param.mapListSlots, pure, bind, Slots.blank, Sig.blank_mapSlots]

theorem blank_mapSlots : Everywhere
    (fun e => Expr.mapSlots Slots.blank (e.mapSlots f) = e.mapSlots Slots.blank)
    (fun fields => Expr.mapFieldSlots Slots.blank (Expr.mapFieldSlots f fields) =
      Expr.mapFieldSlots Slots.blank fields)
    (fun es => Expr.mapListSlots Slots.blank (Expr.mapListSlots f es) = Expr.mapListSlots Slots.blank es)
    (fun ds => Decl.mapListSlots Slots.blank (Decl.mapListSlots f ds) = Decl.mapListSlots Slots.blank ds)
    (fun d => Decl.mapSlots Slots.blank (d.mapSlots f) = d.mapSlots Slots.blank)
    (fun s => Stmt.mapSlots Slots.blank (s.mapSlots f) = s.mapSlots Slots.blank)
    (fun ss => Stmt.mapListSlots Slots.blank (Stmt.mapListSlots f ss) = Stmt.mapListSlots Slots.blank ss)
    (fun as => Arg.mapListSlots Slots.blank (Arg.mapListSlots f as) = Arg.mapListSlots Slots.blank as)
    fun a => Arg.mapSlots Slots.blank (a.mapSlots f) = a.mapSlots Slots.blank := by
  apply tree_induction
  all_goals
    simp +contextual [Expr.mapSlots, Expr.mapFieldSlots, Expr.mapListSlots, Decl.mapListSlots,
      Decl.mapSlots, Stmt.mapSlots, Stmt.mapListSlots, Arg.mapListSlots, Arg.mapSlots, pure, bind,
      Slots.blank, Sig.blank_mapSlots, Param.blank_mapListSlots]

/-- Filling the slots of twins has no part in whether a program is accepted. -/
theorem Program.checkTwins_accepts {p : Program} (accepted : p.check.2 = []) : p.checkTwins.2 = [] := by
  unfold Program.checkTwins
  split
  · exact accepted
  · -- without slots and places the program is the same as before
    have reports : ∀ s : Stmt, (Check.stmt (Check.Env.place (fun _ => .none) .standard)
        (s.mapSlots Slots.blank)).2 = (Check.stmt .standard s).2.map (·.place fun _ => .none) :=
      fun s => (Check.stmt_agrees (fun _ => rfl) .standard s).2
    have filled := reports (p.body.mapSlots
      fun s => (pure ((s.info.twin.bind (p.check.1.twins.lookup ·)).getD s) : Id Slots))
    rw [(blank_mapSlots _).stmt, reports, show (Check.stmt .standard p.body).2 = [] from accepted] at filled
    exact List.map_eq_nil_iff.mp filled.symm

end Triangle
