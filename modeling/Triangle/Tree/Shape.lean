import Triangle.Json.Reader

/-! The JSON text of a tree, read by shape: each place in the text holds a value of one JSON type,
and any other makes the whole text unreadable. A member that is given again is read on top of what
it holds, and members with unknown keys are passed over. -/
namespace Triangle
open Json

/-- What objects stand for: a node of the tree, or a field of a record, which has a name and a
value or a type. -/
inductive Part where
  | node | field
  deriving DecidableEq, Repr

inductive Shape where
  | text
  /-- The text of a character literal. -/
  | character
  /-- A line or a column. -/
  | coordinate
  | int
  | bool
  | object (part : Part)
  | list (part : Part)
  deriving DecidableEq, Repr

namespace Shape

/-- What a null makes of a value. It takes away a literal, a node and a list; texts, coordinates
and fields stay as they are. -/
def afterNull (old : Json) : Shape → Json
  | .text | .character | .coordinate | .object .field => old
  | .int | .bool | .object .node | .list _ => .null

/-- Whether a value counts as a bracket for the depth, be it only a null. -/
def isNested : Shape → Bool
  | .object .field | .list _ => true
  | .text | .character | .coordinate | .int | .bool | .object .node => false

end Shape

namespace Part

/-- The shape of the member with a key. -/
def shape? : Part → String → Option Shape
  | .node, key =>
    if key ∈ ["kind", "name", "op"] then some .text
    else if key = "char" then some .character
    else if key ∈ ["line", "column"] then some .coordinate
    else if key ∈ ["int", "len"] then some .int
    else if key = "bool" then some .bool
    else if key ∈ ["operand", "left", "right", "array", "index", "record", "target", "value",
        "cond", "then", "else", "pre", "post", "body", "sig", "result", "elem"] then
      some (.object .node)
    else if key ∈ ["args", "elems", "stmts", "decls", "params"] then some (.list .node)
    else if key = "fields" then some (.list .field)
    else none
  | .field, key =>
    if key = "name" then some .text
    else if key = "type" ∨ key = "value" then some (.object .node)
    else none

end Part

/-! The keys of a field are compared letter by letter, in either case, while they are read. A key
stands for the first name that begins with its letters, if its spelling has no fewer bytes than
that name. So a key without escapes is a name in full. -/

namespace FieldKey

def names : List String := ["name", "type", "value"]

/-- The name that a key stands for; an unknown key reads as empty. -/
def name (letters : List Char) (size : Nat) : String :=
  match names.find? fun name => letters.isPrefixOf name.toList with
  | some name => if size < name.length then "" else name
  | none => ""

def fits (letters : List Char) : Bool := names.any fun name => letters.isPrefixOf name.toList

/-- The bytes of a text as hexadecimal digits, where one that is no digit counts as 0. -/
def byteDigits (form : Text.Form) (cs : List Char) : List Nat :=
  cs.flatMap fun c => (hexValue? c).getD 0 :: List.replicate (form.size c - 1) 0

/-- The letter that the next four bytes spell in an escape. -/
def escaped? (form : Text.Form) (cs : List Char) : Option Char :=
  match byteDigits form (cs.take 4) with
  | a :: b :: c :: d :: _ => some (Char.ofNat (((a * 16 + b) * 16 + c) * 16 + d)).toLower
  | _ => none

/-- Passes over the rest of a key that stands for no name. -/
def pass (cs : List Char) : Option (String × List Char) :=
  match passString cs with
  | some rest => some ("", rest)
  | none => none

/-- Reads a key after its first `size` bytes, which stand for `letters`; the next `pending` bytes
belong to an escape. An escape of no known form stands for nothing and takes the byte after it
along. What is left of a character cut by an escape is no letter. -/
def readRest (form : Text.Form) (letters : List Char) (size pending : Nat) :
    List Char → Option (String × List Char)
  | [] => none
  | c :: rest =>
    if 0 < pending then
      if form.size c ≤ pending then readRest form letters size (pending - form.size c) rest
      else pass rest
    else if c = '"' then some (name letters size, rest)
    else if c = '\\' then
      match rest with
      | [] => none
      | e :: digits =>
        if e = 'u' then
          match escaped? form digits with
          | none => none
          | some letter =>
            if fits (letters ++ [letter]) then
              readRest form (letters ++ [letter]) (size + 6) 5 rest
            else pass digits
        else if (simpleEscape? e).isSome then pass digits
        else readRest form letters (size + 3) 2 rest
    else if isNul c then none
    else if fits (letters ++ [c.toLower]) then
      readRest form (letters ++ [c.toLower]) (size + 1) 0 rest
    else pass rest

end FieldKey

/-- Reads the key of a member. A null is as good as an unknown key of a node. -/
def Part.readKey (form : Text.Form) (part : Part) (cs : List Char) :
    Option (String × List Char) :=
  match part, skip cs with
  | .node, '"' :: rest =>
    match readString form none rest with
    | some (key, rest) => some (String.ofList key, rest)
    | none => none
  | .node, 'n' :: 'u' :: 'l' :: 'l' :: rest => some ("", rest)
  | .field, '"' :: rest => FieldKey.readRest form [] 0 0 rest
  | _, _ => none

namespace Shape

def readText (form : Text.Form) (cs : List Char) : Option (Json × List Char) :=
  match readString form none cs with
  | some (chars, rest) => some (.str (String.ofList chars), rest)
  | none => none

/-- Reads the text of a character literal. A single character stands in it as itself. -/
def readCharacter (form : Text.Form) (cs : List Char) : Option (Json × List Char) :=
  match readString form none cs with
  | some (chars, rest) =>
    match form.single? chars with
    | some c => some (.str (String.singleton c), rest)
    | none => some (.str (String.ofList chars), rest)
  | none => none

def readNumber (cs : List Char) : Option (Json × List Char) :=
  match readInt cs with
  | some (n, rest) => some (.int n, rest)
  | none => none

mutual
/-- Reads a value inside `depth` brackets on top of an old one. Of two calls inside another at
least one comes after one more character, so twice the length of the text is fuel enough. -/
def readValue (form : Text.Form) (limit : Limit) (depth : Nat) :
    (fuel : Nat) → Shape → Json → List Char → Option (Json × List Char)
  | 0, _, _, _ => none
  | fuel + 1, shape, old, cs =>
    if shape.isNested ∧ !limit.admits (depth + 1) then none
    else
      match shape, skip cs with
      | shape, 'n' :: 'u' :: 'l' :: 'l' :: rest => some (shape.afterNull old, rest)
      | .text, '"' :: rest => readText form rest
      | .character, '"' :: rest => readCharacter form rest
      | .coordinate, cs => readNumber cs
      | .int, cs => readNumber cs
      | .bool, 't' :: 'r' :: 'u' :: 'e' :: rest => some (.bool true, rest)
      | .bool, 'f' :: 'a' :: 'l' :: 's' :: 'e' :: rest => some (.bool false, rest)
      | .object part, '\x7b' :: rest =>
        if !limit.admits (depth + 1) then none
        else
          match skip rest with
          | '\x7d' :: rest => some (.obj old.members, rest)
          | rest =>
            match readMembers form limit (depth + 1) fuel part old.members rest with
            | some (members, rest) => some (.obj members, rest)
            | none => none
      | .list part, '[' :: rest =>
        match skip rest with
        | ']' :: rest => some (.arr [], rest)
        | rest =>
          match readElems form limit (depth + 1) fuel part old.elems rest with
          | some (elems, rest) => some (.arr elems, rest)
          | none => none
      | _, _ => none

/-- Reads elements on top of old ones, each on the one in its place. -/
def readElems (form : Text.Form) (limit : Limit) (depth : Nat) :
    (fuel : Nat) → Part → List Json → List Char → Option (List Json × List Char)
  | 0, _, _, _ => none
  | fuel + 1, part, old, cs =>
    match readValue form limit depth fuel (.object part) (old.headD .null) cs with
    | none => none
    | some (x, rest) =>
      match skip rest with
      | ']' :: rest => some ([x], rest)
      | ',' :: rest =>
        match readElems form limit depth fuel part old.tail rest with
        | some (xs, rest) => some (x :: xs, rest)
        | none => none
      | _ => none

def readMembers (form : Text.Form) (limit : Limit) (depth : Nat) :
    (fuel : Nat) → Part → List (String × Json) → List Char →
      Option (List (String × Json) × List Char)
  | 0, _, _, _ => none
  | fuel + 1, part, members, cs =>
    match part.readKey form cs with
    | none => none
    | some (key, rest) =>
      match skip rest with
      | ':' :: rest =>
        let read := match part.shape? key with
          | none => (passValue limit depth rest).map (members, ·)
          | some shape =>
            match readValue form limit depth fuel shape ((members.lookup key).getD .null) rest with
            | some (x, rest) => some (setMember key x members, rest)
            | none => none
        match read with
        | none => none
        | some (members, rest) =>
          match skip rest with
          | '\x7d' :: rest => some (members, rest)
          | ',' :: rest => readMembers form limit depth fuel part members rest
          | _ => none
      | _ => none
end

end Shape

/-- Reads a text that holds one node and nothing else. The members of each object have different
keys and the shapes that go with them, or are null. -/
def Json.parseTree (form : Text.Form) (limit : Limit) (text : String) : Option Json :=
  let cs := text.toList
  match Shape.readValue form limit 0 (2 * cs.length + 2) (.object .node) .null cs with
  | some (j, rest) => if atEnd rest then some j else none
  | none => none

end Triangle
