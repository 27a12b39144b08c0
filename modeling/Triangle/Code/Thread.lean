import Triangle.Code.Basic

/-! Jump threading. A label that is followed, possibly through further labels, by a symbolic
jump is redirected to the target of that jump, and so on along the chain. Redirected labels go
away, and so does a jump that only they could have reached. -/
namespace Triangle.Code

/-- The target of the symbolic jump that `code` starts with, after labels. -/
def leadingJump? : List Item → Option String
  | [] => none
  | .label _ :: rest => leadingJump? rest
  | .op ins target :: _ => if ins.op = .jump then target else none

/-- Each redirected label with the target of the jump after it, in order. -/
def redirects : List Item → List (String × String)
  | [] => []
  | .label name :: rest =>
    match leadingJump? rest with
    | some target => (name, target) :: redirects rest
    | none => redirects rest
  | .op _ _ :: rest => redirects rest

/-- Where a label is redirected. Of several redirections of one name the last counts. -/
def redirect? (table : List (String × String)) (name : String) : Option String :=
  table.reverse.lookup name

/-- Follows redirections from `name` to a label that has none, or that was met before. -/
def follow (table : List (String × String)) : (fuel : Nat) → (seen : List String) → String → String
  | 0, _, name => name
  | fuel + 1, seen, name =>
    match redirect? table name with
    | none => name
    | some next => if name ∈ seen then name else follow table fuel (name :: seen) next

/-- The end of the chain of redirections from `name`. Each step meets a label that was not met
before, so the length of the table bounds them. -/
def finalTarget (table : List (String × String)) (name : String) : String :=
  follow table (table.length + 1) [] name

/-- Whether control never falls through an item. -/
def transfers : Item → Bool
  | .label _ => false
  | .op ins _ => ins.op == .jump || ins.op == .jumpI || ins.op == .ret || ins.op == .halt

/-- Threads the rest of the code after `last`, the item kept most recently. `dropped` says that
only dropped labels stand between it and the rest. -/
def threadAfter (table : List (String × String)) (last : Option Item) (dropped : Bool) :
    List Item → List Item
  | [] => []
  | .label name :: rest =>
    if finalTarget table name ≠ name then threadAfter table last true rest
    else .label name :: threadAfter table (some (.label name)) false rest
  | .op ins target :: rest =>
    let item := Item.op ins (target.map (finalTarget table))
    if dropped && ins.op == .jump && last.any transfers then threadAfter table last false rest
    else item :: threadAfter table (some item) false rest

def thread (code : List Item) : List Item := threadAfter (redirects code) none false code

end Triangle.Code
