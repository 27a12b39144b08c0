/-! Positions in a source text. -/
namespace Triangle

/-- A node without a position has line and column 0. -/
structure Pos where
  line : Int := 0
  column : Int := 0
  deriving DecidableEq, Repr, Inhabited

namespace Pos

def none : Pos := {}

def text (p : Pos) : String := s!"{p.line}:{p.column}"

end Pos
end Triangle
