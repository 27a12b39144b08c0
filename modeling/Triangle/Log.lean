import Triangle.Text.Quoted

/-! Lines of a log: level, message, then fields by key. -/
namespace Triangle

structure LogLine where
  level : String
  message : String
  fields : List (String × String)
  deriving DecidableEq, Repr

namespace LogLine

def isPlain (c : Char) : Bool :=
  c.isAlphanum || c == '-' || c == '.' || c == '_' || c == '/' || c == '@' || c == '^' || c == '+'

/-- A value is quoted unless all of its characters are plain. -/
def valueText (value : String) : String := if value.all isPlain then value else Text.quote value

def text (l : LogLine) : String :=
  let sorted := l.fields.mergeSort fun a b => !decide (b.1 < a.1)
  let pairs := [("level", l.level), ("msg", l.message)] ++ sorted
  " ".intercalate (pairs.map fun (key, value) => key ++ "=" ++ valueText value)

end LogLine
end Triangle
