import Triangle.Text.Printable

/-! Quoted text in messages: printable characters stand for themselves, the others are
written as escapes. -/
namespace Triangle.Text

def hexDigit (n : Nat) : Char := if n < 10 then Char.ofNat (48 + n) else Char.ofNat (87 + n)

/-- The low `width` hexadecimal digits of `n`, in lower case. -/
def hex : (width n : Nat) → List Char
  | 0, _ => []
  | width + 1, n => hex width (n / 16) ++ [hexDigit (n % 16)]

def escape (c : Char) : List Char :=
  if c = '"' ∨ c = '\\' then ['\\', c]
  else if isPrintable c then [c]
  else if c.toNat = 7 then ['\\', 'a']
  else if c.toNat = 8 then ['\\', 'b']
  else if c.toNat = 12 then ['\\', 'f']
  else if c = '\n' then ['\\', 'n']
  else if c = '\r' then ['\\', 'r']
  else if c = '\t' then ['\\', 't']
  else if c.toNat = 11 then ['\\', 'v']
  else if c.toNat < 128 then ['\\', 'x'] ++ hex 2 c.toNat
  else if c.toNat < 0x10000 then ['\\', 'u'] ++ hex 4 c.toNat
  else ['\\', 'U'] ++ hex 8 c.toNat

def quote (text : String) : String :=
  "\"" ++ String.ofList (text.toList.flatMap escape) ++ "\""

/-- Quotes bytes that are not read as characters: those beyond ASCII are written in
hexadecimal. -/
def quoteBytes (bytes : List UInt8) : String :=
  let escapeByte (b : UInt8) : List Char :=
    if b.toNat < 128 then escape (Char.ofNat b.toNat) else ['\\', 'x'] ++ hex 2 b.toNat
  "\"" ++ String.ofList (bytes.flatMap escapeByte) ++ "\""

end Triangle.Text
