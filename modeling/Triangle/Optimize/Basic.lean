import Triangle.Optimize.Hoist
import Triangle.Optimize.Prune

/-! The passes in their order: fold, hoist, fold, prune. -/
namespace Triangle

namespace Optimize

structure Stats where
  folds : Nat := 0
  hoisted : Nat := 0
  eliminated : Nat := 0
  deriving DecidableEq, Repr

structure Optimized where
  program : Program
  stats : Stats := {}
  overflows : List Diagnostic := []

end Optimize

/-- The overflows are those found while folding; the tree is still valid, with the nodes that
overflow left in place. -/
def Program.optimize? (p : Program) (cfg : FoldConfig) (form : Text.Form) :
    Option Optimize.Optimized := do
  let first ← p.fold? cfg
  let hoisted := first.value.hoist form
  let second ← hoisted.value.fold? cfg
  let pruned := second.value.prune
  return {
    program := pruned.value
    stats := { folds := first.count + second.count, hoisted := hoisted.count,
               eliminated := pruned.count }
    overflows := (first.reports ++ second.reports).eraseDups }

end Triangle
