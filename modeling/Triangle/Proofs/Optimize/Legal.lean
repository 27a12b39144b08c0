import Mathlib
import Triangle.Optimize.Basic
import Triangle.Proofs.Optimize.Legal.Folded
import Triangle.Proofs.Optimize.Legal.Hoisted
import Triangle.Proofs.Optimize.Legal.Pruned
import Triangle.Proofs.Typing.Annotated
import Triangle.Proofs.Typing.Unplaced

/-! What optimizing makes of an accepted program is accepted again, with every slot filled. -/
namespace Triangle

namespace Optimize.Hoist
open Check

/-! ## Names that a program may declare -/

/-- No prefix operator is declared, and no name in the form of a new constant, unless an earlier run
introduced it: it is a constant then, whose number is below `limit`. -/
def Admitted (form : Text.Form) (limit : Nat) (kind : DeclKind) (name : String) : Prop :=
  name ∉ pureUnary ∧ (['$', 'h'] <+: (form.gather name).toList →
    kind = .const ∧ ∃ k : Nat, k < limit ∧ name = constName k)

variable {form : Text.Form} {limit : Nat} {p : Program}

theorem starts_of_constNumber {name : String} {k : Int} (read : constNumber? name = some k) :
    ['$', 'h'] <+: name.toList := by
  unfold constNumber? at read
  split at read
  · rename_i rest same
    exact ⟨rest, same.symm⟩
  · cases read

/-- A number in use is that of a constant of an earlier run. -/
theorem number_lt_of_admitted (read : form.Read) (small : limit < 2 ^ 63) {n : Node} {k : Int}
    (admitted : n.Declares (Admitted form limit)) (used : usedNumber? form n = some k) :
    k < limit := by
  cases n with
  | decl d =>
    cases d with
    | const i name value =>
      obtain ⟨-, j, below, rfl⟩ := admitted.2 (starts_of_constNumber used)
      rw [usedNumber?, gather_constName read, constNumber?_constName (by omega) (by omega)] at used
      cases used
      exact_mod_cast below
    | var | func | proc | type => cases used
  | expr | stmt | param | arg | sig => cases used

/-- The names that are declared are not those of numbers above all in use. -/
theorem plain_of_admitted (read : form.Read) {n : Node} {start : Int}
    (positive : 0 ≤ start) (admitted : n.Declares (Admitted form limit))
    (above : ∀ k ∈ usedNumber? form n, k < start) : n.Declares fun _ => Plain start := by
  have other : ∀ kind name, Admitted form limit kind name →
      (kind = .const → ∀ k, constNumber? (form.gather name) = some k → k < start) →
      Plain start name := by
    intro kind name admitted above
    refine ⟨admitted.1, ?_⟩
    rintro k low high rfl
    rw [gather_constName read, constNumber?_constName (by omega) high] at above
    have starts := starts_of_constNumber (constNumber?_constName (by omega : 0 ≤ k) high)
    obtain ⟨isConst, -⟩ := admitted.2 (by rwa [gather_constName read])
    have := above isConst k rfl
    omega
  cases n with
  | decl d =>
    refine other d.kind d.name admitted fun isConst => ?_
    cases d with
    | const i name value => exact above
    | var | func | proc | type => cases isConst
  | param p =>
    refine other p.kind p.name admitted fun isConst => ?_
    cases p <;> cases isConst
  | expr | stmt | arg | sig => trivial

end Optimize.Hoist

open Optimize Hoist

/-- Hoisting keeps a stable program stable, if there are numbers for all of its constants. -/
theorem Program.hoist_stable {p : Program} {form : Text.Form} {limit : Nat} (read : form.Read)
    (stable : Check.StmtStable .standard p.body)
    (names : p.body.Declares true (Admitted form limit))
    (room : limit + (p.hoist form).count < 2 ^ 63) :
    Check.StmtStable .standard (p.hoist form).value.body := by
  have admitted := (declare_nodes.stmt p.body).mpr names
  obtain ⟨positive, below, above⟩ := firstNumber_above form p limit (by omega) (by omega)
    fun n member k used => number_lt_of_admitted read (by omega) (admitted n member) used
  have plain : ∀ m, firstNumber form p ≤ m → p.body.Declares true fun _ => Plain m :=
    fun m later => (declare_nodes.stmt p.body).mp fun n member =>
      plain_of_admitted read (positive.trans later) (admitted n member) fun k used =>
        (above n member k used).trans_le later
  have hoists := (stmt_hoists ⟨.new 0, false⟩ .standard p.body stable).holds
    { next := firstNumber form p, twin := p.nextTwin } positive
    (fun m later => ⟨fun k _ _ => bound?_constName k, plain m later⟩)
  change firstNumber form p + ((p.hoist form).count - 0 : Nat) < 2 ^ 63 → _ at hoists
  obtain ⟨-, done⟩ := hoists (by omega)
  exact (done _ (le_refl _)).becomes stable

/-- Optimizing comes to an end. What it makes of an accepted program is accepted as it is, with every
slot filled, if there are numbers for all new constants. -/
theorem Program.optimize_legal (p q : Program) (cfg : FoldConfig) (form : Text.Form) (limit : Nat)
    (accepted : p.check = (q, [])) (threshold : 0 ≤ cfg.threshold) (read : form.Read)
    (names : ∀ n ∈ q.nodes, n.Declares (Admitted form limit)) :
    ∃ o, q.optimize? cfg form = some o ∧
      (limit + o.stats.hoisted < 2 ^ 63 → o.program.Annotated ∧ o.program.check = (o.program, []) ∧
        o.program.checkTwins.2 = []) := by
  obtain ⟨first, folded, stable, keeps⟩ := Program.fold_stable threshold (Program.check_stable accepted)
  have admitted := keeps _ ((declare_nodes.stmt q.body).mp names)
  obtain ⟨second, again, -⟩ := (first.value.hoist form).value.fold?_value threshold
  have passes : q.optimize? cfg form = some
      { program := second.value.prune.value
        stats := { folds := first.count + second.count, hoisted := (first.value.hoist form).count,
                   eliminated := second.value.prune.count }
        overflows := (first.reports ++ second.reports).eraseDups } := by
    simp only [Program.optimize?, folded, again, Option.bind_eq_bind, Option.bind_some]
    rfl
  refine ⟨_, passes, fun room => ?_⟩
  obtain ⟨t, same, inside, -⟩ := Program.fold_stable threshold (hoist_stable read stable admitted room)
  obtain rfl : t = second := Option.some.inj (same.symm.trans again)
  have final := Program.check_of_stable (Program.prune_stable inside)
  refine ⟨fun n member => ?_, final, Program.checkTwins_accepts (congrArg Prod.snd final)⟩
  obtain ⟨env, -, stable⟩ := Program.within_stable final member
  exact stable.annotated

/-- A loop with an invariant that may trap, and a constant of an earlier run that is no longer used. -/
def Program.spinning : Program :=
  let number : Info := { ty := some .integer }
  let name (x : String) : Expr := .ident number (some (.declared .var x {})) x
  let operator (t : Ty) (x : String) (left right : Expr) : Expr :=
    .binary { ty := some t } (some (.standard .func x)) x left right
  ⟨.letIn {} [.const number "$h0" (.int number 7), .var number "n" (.named number "Integer"),
      .var number "m" (.named number "Integer")]
    (.whileDo {} (operator .boolean "<" (name "n") (operator .integer "+" (name "m") (.int number 1)))
      (.assign {} (name "n") (operator .integer "+" (name "n") (.int number 2))))⟩

set_option maxRecDepth 20000 in
theorem Program.spinning_legal : spinning.check = (spinning, []) ∧
    ∃ o, spinning.optimize? {} .given = some o ∧ o.stats.hoisted = 1 ∧ o.program.Annotated ∧
      o.program.check = (o.program, []) ∧ o.program.checkTwins.2 = [] := by
  have names : spinning.body.Declares true (Admitted .given 1) := by
    refine ⟨⟨⟨⟨by decide, fun _ => ⟨rfl, 0, by decide, rfl⟩⟩, trivial⟩, ?_, ?_, trivial⟩,
      by simp [Stmt.Declares, Expr.Declares]⟩
    · exact ⟨by decide, fun starts => absurd starts (by decide)⟩
    · exact ⟨by decide, fun starts => absurd starts (by decide)⟩
  have first : firstNumber .given spinning = 1 := by decide +kernel
  have count : (spinning.hoist .given).count = 1 := by
    rw [Program.hoist, first]
    cbv
  obtain ⟨o, optimized, legal⟩ := optimize_legal spinning spinning {} .given 1 rfl (by decide)
    (fun s given => by cases given) ((declare_nodes.stmt spinning.body).mpr names)
  have hoisted : o.stats.hoisted = 1 := by
    simp only [Program.optimize?, Option.bind_eq_bind, Option.bind_eq_some_iff] at optimized
    obtain ⟨_, folded, _, -, same⟩ := optimized
    cases same
    cases (show spinning.fold? {} = some ⟨spinning, 0, []⟩ from rfl).symm.trans folded
    exact count
  exact ⟨rfl, o, optimized, hoisted, legal (by rw [hoisted]; decide)⟩

end Triangle
