import Triangle.Diagnostic

/-! A changed tree, with how often it was changed and what was found on the way. -/
namespace Triangle.Optimize

structure Tally (α : Type) where
  value : α
  count : Nat := 0
  reports : List Diagnostic := []

namespace Tally
variable {α β : Type}

instance : Monad Tally where
  pure a := { value := a }
  bind x f :=
    let y := f x.value
    { value := y.value, count := x.count + y.count, reports := x.reports ++ y.reports }

/-- Counts one change. -/
def changed (a : α) : Tally α := { value := a, count := 1 }

/-- Reports `d` and changes nothing. -/
def reported (a : α) (d : Diagnostic) : Tally α := { value := a, reports := [d] }

end Tally
end Triangle.Optimize
