import Triangle.Optimize.Deed
import Triangle.Scope

/-! Which names a command may change. The summary of a routine holds what its body does itself;
what it does through the routines that it calls is found by following them. -/
namespace Triangle.Optimize

/-- What a command or routine does: the names that it assigns or declares, whether it calls a
routine of which nothing is known, and the numbers of the known routines that it calls. -/
structure Summary where
  names : List String := []
  all : Bool := false
  callees : List Nat := []
  deriving DecidableEq, Repr

namespace Summary

def append (a b : Summary) : Summary :=
  { names := a.names ++ b.names, all := a.all || b.all, callees := a.callees ++ b.callees }

instance : Append Summary := ⟨append⟩

def assigns (name : String) : Summary := { names := [name] }

end Summary

/-- The summaries of routines, by number. -/
abbrev Summaries := List Summary

namespace Summaries

/-- The routines not yet visited. -/
def unseen (g : Summaries) (seen : List Nat) : List Nat :=
  (List.range g.length).filter fun id => id ∉ seen

theorem unseen_cons_lt {g : Summaries} {seen : List Nat} {id : Nat} {s : Summary}
    (found : g[id]? = some s) (new : id ∉ seen) :
    (g.unseen (id :: seen)).length < (g.unseen seen).length := by
  have bound : id < g.length := (List.getElem?_eq_some_iff.mp found).1
  have smaller : g.unseen (id :: seen) = (g.unseen seen).filter fun k => k ≠ id := by
    simp only [unseen, List.filter_filter]
    congr 1
    funext k
    simp [Bool.decide_and, not_or]
  rw [smaller]
  refine Nat.lt_of_le_of_ne (List.length_filter_le _ _) fun same => ?_
  have kept := List.length_filter_eq_length_iff.mp same id (by simp [unseen, bound, new])
  simp at kept

/-- The names that the routines in `pending`, and those they lead to, may change, besides `names`;
nothing if they may change any. -/
def closureFrom (g : Summaries) (seen : List Nat) (names : List String) :
    List Nat → Option (List String)
  | [] => some names
  | id :: rest =>
    if _new : id ∈ seen then closureFrom g seen names rest
    else
      match _found : g[id]? with
      | none => closureFrom g seen names rest
      | some s =>
        if s.all then none
        else closureFrom g (id :: seen) (names ++ s.names) (rest ++ s.callees)
termination_by pending => ((g.unseen seen).length, pending.length)
decreasing_by
  · exact Prod.Lex.right _ (by simp)
  · exact Prod.Lex.right _ (by simp)
  · exact Prod.Lex.left _ _ (unseen_cons_lt _found _new)

/-- Every name that a command with summary `s` may change. -/
def closure (g : Summaries) (s : Summary) : Option (List String) :=
  if s.all then none else closureFrom g [] s.names s.callees

end Summaries

/-! ## Summaries of deeds -/

namespace Effects

/-- What a name stands for: a routine with a summary, a routine parameter, or no routine. -/
inductive Callee where
  | routine (id : Nat)
  | anything
  | none
  deriving DecidableEq, Repr

abbrev Callees := Scope.Table Callee

namespace Callees

def call (scope : Callees) (name : String) : Summary :=
  match scope.lookup? name with
  | some (.routine id) => { callees := [id] }
  | some .anything => { all := true }
  | _ => {}

def bindParams (scope : Callees) (params : List Param) : Callees :=
  params.foldl (fun t p =>
    match p with
    | .func _ name _ _ => t.add name .anything
    | p => t.add p.name .none) scope

/-- The scope of a routine's body. -/
def inside (scope : Callees) (params : List Param) : Callees :=
  bindParams (scope.enterScope 0) params

end Callees

/-- The routines that are known: their summaries, and which routine each twin number belongs to. -/
structure Known where
  summaries : Summaries := []
  twins : List (Nat × Nat) := []

namespace Known

def twin? (known : Known) (twin : Option Nat) : Option Nat := twin.bind (known.twins.lookup ·)

/-- Adds a routine that is not yet summarized. -/
def add (known : Known) (twin : Option Nat) : Known :=
  let id := known.summaries.length
  { summaries := known.summaries ++ [{}]
    twins := twin.toList.map (·, id) ++ known.twins }

def set (known : Known) (id : Nat) (s : Summary) : Known :=
  { known with summaries := known.summaries.set id s }

end Known

abbrev Summarize := StateM Known

mutual
/-- Summarizes a deed. A new routine is summarized once, in the first of its places: its deed
becomes that of a known routine, which keeps the callees that its names stand for here. It is
numbered before its body is looked at, so that calls of itself are known. -/
def deed (scope : Callees) : Deed → Summarize (Callees × Deed × Summary)
  | .assigns name => pure (scope, .assigns name, .assigns name)
  | .calls name => pure (scope, .calls name, scope.call name)
  | .declares name => pure (scope.add name .none, .declares name, .assigns name)
  | .routine name id => pure (scope.add name (.routine id), .routine name id, .assigns name)
  | .newRoutine twin name params body => do
    let known ← get
    match known.twin? twin with
    | some id => return (scope.add name (.routine id), .routine name id, .assigns name)
    | none =>
      let id := known.summaries.length
      let bound : Callees := scope.add name (.routine id)
      set (known.add twin)
      let (_, s) ← deeds (bound.inside params) body
      modify (·.set id s)
      return (bound, .routine name id, .assigns name)
  | .block body => do
    let (body, s) ← deeds scope.enterBlock body
    return (scope, .block body, s)

def deeds (scope : Callees) : List Deed → Summarize (List Deed × Summary)
  | [] => pure ([], {})
  | d :: ds => do
    let (scope, d, s) ← deed scope d
    let (ds, t) ← deeds scope ds
    return (d :: ds, s ++ t)
end

end Effects
end Triangle.Optimize
