import Triangle.Check.Basic
import Triangle.Code.Combine
import Triangle.Code.Layout
import Triangle.Code.Thread
import Triangle.Generate.Basic
import Triangle.Log
import Triangle.Optimize.Basic

/-! Compilation: checking, optimizing, generation of code and layout, with a report of each pass. -/
namespace Triangle
namespace Compile

/-- What is done to a program, and the form in which its names are written. -/
structure Options where
  optimize : Bool := true
  peephole : Bool := true
  fold : FoldConfig := {}
  form : Text.Form := .given
  deriving Repr

/-- What a finished pass reports. -/
inductive Pass where
  | check (errors : Nat)
  | optimize (stats : Optimize.Stats) (errors : Nat)
  | generate (instructions : Nat)
  | peephole (removed : Int)
  | resolve (instructions : Nat)
  deriving DecidableEq, Repr

def Pass.logLine (p : Pass) : LogLine :=
  let fields := match p with
    | check errors => [("pass", "check"), ("errors", s!"{errors}")]
    | optimize stats errors =>
      [("pass", "optimize"), ("folds", s!"{stats.folds}"), ("hoisted", s!"{stats.hoisted}"),
        ("eliminated", s!"{stats.eliminated}"), ("errors", s!"{errors}")]
    | generate n => [("pass", "generate"), ("instructions", s!"{n}")]
    | peephole n => [("pass", "peephole"), ("removed", s!"{n}")]
    | resolve n => [("pass", "resolve"), ("instructions", s!"{n}")]
  { level := "debug", message := "pass done", fields }

inductive Fault where
  | semantic (errors : List Diagnostic)
  | generation (f : Generate.Fault)
  | resolution (f : Code.ResolveFault)
  /-- Folding with a negative threshold has no end. -/
  | endlessFolding

def Fault.message : Fault → String
  | semantic errors => Diagnostic.listText errors
  | generation f => "code generation: " ++ f.message
  | resolution f => "label resolution: " ++ f.message
  | endlessFolding => "folding never stops"

/-- The tree that code was made from, its code, and the same code laid out. -/
structure Compiled where
  tree : Program
  stats : Optimize.Stats := {}
  items : List Code.Item
  code : List Instruction

/-- Passes report before they fail. -/
abbrev Compiler := ExceptT Fault (StateM (List Pass))

def report (p : Pass) : Compiler Unit := modify (· ++ [p])

def refuse (errors : List Diagnostic) : Compiler Unit :=
  unless errors.isEmpty do throw (.semantic errors)

def checked (p : Program) : Compiler Program := do
  let (p, errors) := p.check
  report (.check errors.length)
  refuse errors
  return p

def optimized (opts : Options) (p : Program) : Compiler (Program × Optimize.Stats) := do
  if !opts.optimize then return (p, {})
  match p.optimize? opts.fold opts.form with
  | none => throw .endlessFolding
  | some o =>
    report (.optimize o.stats o.overflows.length)
    refuse o.overflows
    return (o.program, o.stats)

def generated (p : Program) : Compiler (List Code.Item) :=
  match p.generate with
  | .error f => throw (.generation f)
  | .ok items => do
    report (.generate items.length)
    return items

def shortened (opts : Options) (items : List Code.Item) : Compiler (List Code.Item) := do
  if !opts.peephole then return items
  let short := Code.combine (Code.thread items)
  report (.peephole ((items.length : Int) - short.length))
  return short

def resolved (items : List Code.Item) : Compiler (List Instruction) :=
  match Code.resolve items with
  | .error f => throw (.resolution f)
  | .ok code => do
    report (.resolve code.length)
    return code

def compiled (opts : Options) (p : Program) : Compiler Compiled := do
  let (tree, stats) ← optimized opts (← checked p)
  let items ← shortened opts (← generated tree)
  return { tree, stats, items, code := ← resolved items }

end Compile

/-- The compiled program, or why there is none, and the passes that were finished. -/
def Program.compile (p : Program) (opts : Compile.Options) :
    Except Compile.Fault Compile.Compiled × List Compile.Pass :=
  (Compile.compiled opts p).run.run []

end Triangle
