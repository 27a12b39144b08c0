/-! White space, as trimming and splitting of text understand it. -/
namespace Triangle.Text

def isBlank (c : Char) : Bool :=
  let n := c.toNat
  (0x09 ≤ n && n ≤ 0x0D) || n == 0x20 || n == 0x85 || n == 0xA0 || n == 0x1680 ||
    (0x2000 ≤ n && n ≤ 0x200A) || n == 0x2028 || n == 0x2029 || n == 0x202F || n == 0x205F ||
    n == 0x3000

def trimStart (cs : List Char) : List Char := cs.dropWhile isBlank

def trimEnd (cs : List Char) : List Char := (cs.reverse.dropWhile isBlank).reverse

def trim (cs : List Char) : List Char := trimEnd (trimStart cs)

/-- The parts of a text between the separators that `sep` accepts, empty parts included: one
more part than there are separators. -/
def parts (sep : Char → Bool) : List Char → List (List Char)
  | [] => [[]]
  | c :: cs =>
    if sep c then [] :: parts sep cs
    else
      match parts sep cs with
      | [] => [[c]]
      | part :: others => (c :: part) :: others

def lines (cs : List Char) : List (List Char) := parts (· == '\n') cs

/-- The longest runs without a blank, in order. -/
def words (cs : List Char) : List (List Char) := (parts isBlank cs).filter (!·.isEmpty)

end Triangle.Text
