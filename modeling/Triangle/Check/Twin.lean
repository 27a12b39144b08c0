import Triangle.Check.Basic
import Triangle.Tree.Twin

/-! Checking of a tree in which a node may stand in two places. The node is checked in the first
place, and then in the second with what the first has put into its slots. -/
namespace Triangle

/-- The program with its slots filled, and the mistakes found, in order. What the slots hold has no
part in checking, so a first run finds what they hold between the two places of a node. -/
def Program.checkTwins (p : Program) : Program × List Diagnostic :=
  if p.twins.isEmpty then p.check
  else
    let between := p.check.1.twins
    let (filled, reports) := (p.fillTwins between).check
    (filled.fillTwins filled.twins.reverse, reports)

end Triangle
