import Triangle.Proofs.Semantics.Standard

/-! What programs do: an evaluator of annotated trees. Calls of routines and rounds of loops are
bounded, and a program that reaches the bound is unfinished; a higher bound lets it go further.
Expressions are evaluated from left to right, the value of an assignment before its target, and the
fields of a record in the order of their names. -/
namespace Triangle.Semantics

/-- What a call of a routine with these arguments does. -/
abbrev Calls := Meaning → List Meaning → Run (Option Value)

/-! ## Variables and components -/

def Env.find (env : Env) (name : String) : Run Meaning :=
  match env.lookup name with
  | some m => return m
  | none => throw .wrong

namespace Meaning

/-- The value of a constant or a variable. -/
def contents : Meaning → Run Value
  | .value v => return v
  | .place p => read p
  | _ => throw .wrong

def component (s : Selector) : Meaning → Run Meaning
  | .value v =>
    match v.get? [s] with
    | some w => return .value w
    | none => throw .wrong
  | .place p => return .place (p.select s)
  | _ => throw .wrong

/-- An element of an array; an index outside of it stops the program. -/
def element (m : Meaning) (k : Int) : Run Meaning := do
  match ← m.contents with
  | .array vs => if 0 ≤ k ∧ k < vs.length then m.component (.index k.toNat) else throw .outOfRange
  | _ => throw .wrong

end Meaning

def elementOf (array : Run Meaning) (index : Run Value) : Run Meaning := do
  let m ← array
  match ← index with
  | .int w => m.element w.toInt
  | _ => throw .wrong

def fieldOf (record : Run Meaning) (field : String) : Run Meaning := do
  (← record).component (.field field)

/-! ## Operators and loops -/

/-- The routine that an operator or a call stands for: the standard one that its slot names, or
the nearest one of the program. -/
def callee (env : Env) (decl : Option Binding) (standard? : Option Standard) (name : String) :
    Run Meaning :=
  if decl.any Binding.isStandard then
    match standard? with
    | some s => return .standard s
    | none => throw .wrong
  else env.find name

/-- The fields of a record literal, one after the other. -/
def inOrder : List (String × Run Value) → Run (List (String × Value))
  | [] => return []
  | (name, value) :: rest => do
    let v ← value
    return (name, v) :: (← inOrder rest)

def sortFields {α : Type} (fields : List (String × α)) : List (String × α) :=
  fields.mergeSort fun f g => !decide (g.1 < f.1)

/-- Rounds of a loop: `round` tells whether there is another. -/
def rounds (round : Run Bool) : (bound : Nat) → Run Unit
  | 0 => throw .unfinished
  | bound + 1 => do if ← round then rounds round bound

/-! ## The tree -/

section
variable (calls : Calls) (bound : Nat)

mutual
def expr (env : Env) : Expr → Run Value
  | .int _ value => return .int (.truncate value)
  | .char _ value => return .char value.toNat
  | .bool _ value => return .bool value
  | .ident _ _ name => do (← env.find name).contents
  | .subscript _ array index => do (← elementOf (locate env array) (expr env index)).contents
  | .select _ record field => do (← fieldOf (locate env record) field).contents
  | .unary _ decl op operand => do
    let v ← expr env operand
    valued (← calls (← callee env decl (Standard.prefixed? op) op) [.value v])
  | .binary _ decl op left right => do
    let v ← expr env left
    let w ← expr env right
    valued (← calls (← callee env decl (Standard.named.lookup op) op) [.value v, .value w])
  | .call _ decl name as => do
    let actuals ← args env as
    valued (← calls (← callee env decl (Standard.named.lookup name) name) actuals)
  | .cond _ test yes no => do
    if ← truth (← expr env test) then expr env yes else expr env no
  | .letIn _ ds body => inScope do expr (← decls env ds) body
  | .array _ elems => return .array (← exprs env elems)
  | .record _ fields => return .record (← inOrder (sortFields (initializers env fields)))

def exprs (env : Env) : List Expr → Run (List Value)
  | [] => return []
  | e :: es => do
    let v ← expr env e
    return v :: (← exprs env es)

def initializers (env : Env) : List (String × Expr) → List (String × Run Value)
  | [] => []
  | (name, e) :: rest => (name, expr env e) :: initializers env rest

/-- The constant, variable or component that an expression names. -/
def locate (env : Env) : Expr → Run Meaning
  | .ident _ _ name => env.find name
  | .subscript _ array index => elementOf (locate env array) (expr env index)
  | .select _ record field => fieldOf (locate env record) field
  | _ => throw .wrong

def args (env : Env) : List Arg → Run (List Meaning)
  | [] => return []
  | a :: as => do
    let m ← arg env a
    return m :: (← args env as)

def arg (env : Env) : Arg → Run Meaning
  | .value _ value => return .value (← expr env value)
  | .var _ target => do
    match ← locate env target with
    | .place p => return .place p
    | _ => throw .wrong
  | .func _ _ name => env.find name

def decls (env : Env) : List Decl → Run Env
  | [] => return env
  | d :: ds => do decls (← decl env d) ds

def decl (env : Env) : Decl → Run Env
  | .const _ name value => return (name, .value (← expr env value)) :: env
  | .var i name _ =>
    match i.ty with
    | some t => return (name, .place (← allocate (.zero t))) :: env
    | none => throw .wrong
  | .func _ name params _ body => return (name, .routine name params (.value body) env) :: env
  | .proc _ name params body => return (name, .routine name params (.command body) env) :: env
  | .type _ _ _ => return env
end

mutual
def stmt (env : Env) : Stmt → Run Unit
  | .assign _ target value => do
    let v ← expr calls env value
    match ← locate calls env target with
    | .place p => write p v
    | _ => throw .wrong
  | .call _ decl name as => do
    let actuals ← args calls env as
    discard <| calls (← callee env decl (Standard.named.lookup name) name) actuals
  | .seq _ ss => stmts env ss
  | .letIn _ ds body => inScope do stmt (← decls calls env ds) body
  | .ifThen _ test yes => do
    if ← truth (← expr calls env test) then stmt env yes
  | .ifElse _ test yes no => do
    if ← truth (← expr calls env test) then stmt env yes else stmt env no
  | .whileDo _ test body =>
    rounds (do
      if ← truth (← expr calls env test) then
        stmt env body
        return true
      else return false) bound
  | .repeatUntil _ body test =>
    rounds (do
      stmt env body
      return !(← truth (← expr calls env test))) bound
  | .repeatWhile _ body test =>
    rounds (do
      stmt env body
      truth (← expr calls env test)) bound
  | .loopWhile _ pre test post =>
    rounds (do
      stmt env pre
      if ← truth (← expr calls env test) then
        stmt env post
        return true
      else return false) bound
  | .forever _ body =>
    rounds (do
      stmt env body
      return true) bound
  | .skip _ => return

def stmts (env : Env) : List Stmt → Run Unit
  | [] => return
  | s :: ss => do
    stmt env s
    stmts env ss
end

end

theorem initializers_eq {calls : Calls} {env : Env} (fields : List (String × Expr)) :
    initializers calls env fields = fields.map fun f => (f.1, expr calls env f.2) := by
  induction fields with
  | nil => rfl
  | cons field rest ih =>
    rw [initializers, ih]
    rfl

/-- Parameters stand for what is passed. -/
def Env.bindParams (env : Env) : List Param → List Meaning → Env
  | p :: ps, m :: ms => bindParams ((p.name, m) :: env) ps ms
  | _, _ => env

/-- Runs the body of a routine. -/
def Body.run (calls : Calls) (bound : Nat) (env : Env) : Body → Run (Option Value)
  | .value e => return some (← expr calls env e)
  | .command s => do
    stmt calls bound env s
    return none

/-- Calls that are nested no deeper than a bound. -/
def call : (bound : Nat) → Calls
  | _, .standard s, actuals => s.apply actuals
  | 0, .routine _ _ _ _, _ => throw .unfinished
  | bound + 1, .routine name params body env, actuals =>
    -- the routine is known in its own body
    body.run (call bound) bound
      (Env.bindParams ((name, .routine name params body env) :: env) params actuals)
  | _, _, _ => throw .wrong

end Triangle.Semantics

namespace Triangle
open Semantics

/-- Runs a program on an input, with at most `bound` nested calls and rounds of each loop. -/
def Program.evaluate (p : Program) (bound : Nat) (input : List UInt8) :
    EStateM.Result Stop State Unit :=
  (stmt (call bound) bound .standard p.body).run { input }

end Triangle
