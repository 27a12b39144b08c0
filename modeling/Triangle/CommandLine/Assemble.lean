import Triangle.Code.Reader
import Triangle.CommandLine.Flag
import Triangle.CommandLine.ObjectFile
import Triangle.Text.StandIn

/-! The command that assembles a text into an object file, and runs object files. -/
namespace Triangle.CommandLine.Assemble

def flagKinds : List (String × FlagKind) :=
  [("in", .text), ("out", .text), ("run", .switch), ("run-bin", .text), ("max-steps", .number)]

def usage : String :=
  "  -in string\n    \tinput assembly file path\n" ++
  "  -max-steps int\n    \tstop after this many instructions (0: no limit)\n" ++
  "  -out string\n    \toutput object file path (default: input with .tam extension)\n" ++
  "  -run\n    \trun the assembled object file\n" ++
  "  -run-bin string\n    \trun an existing object file\n"

/-- The message about a text with stand-ins for stray bytes. Upper case leaves no such bytes. -/
def faultMessage (s : Text.StandIns) : Code.AssembleFault → String
  | .syntactic ⟨line, .unknownInstruction mnemonic⟩ =>
    let seen := String.ofList (mnemonic.toList.map s.seen)
    (Code.SyntaxFault.mk line (.unknownInstruction seen)).message
  | f => f.message

/-- Assembles the file at `path` and returns the path of its object file. -/
def assembleFile (path out : String) : Command String := do
  match ← Command.load path with
  | .error f =>
    Command.abort s!"failed to read input file {Text.quote path}: {f.readMessage path}\n"
      { code := 1 }
  | .ok bytes =>
    let ps := Text.pieces bytes
    let s := Text.StandIns.unused (ps.filterMap Text.Piece.char?)
    match Code.assemble (s.ofPieces ps) with
    | .error f =>
      Command.abortBecause "assembly failed: " (s.bytes (faultMessage s f)) { code := 1 }
    | .ok (code, _) =>
      let output := if out = "" then defaultOutput path else out
      writeObject output code
      Command.print s!"assembled {code.length} instructions -> {output}\n"
      return output

def runFailed {α : Type} (path reason : String) : Command α :=
  Command.abort s!"run failed for {Text.quote path}: {reason}\n" { code := 1 }

def readObject (path : String) : Command (List Instruction) := do
  match ← Command.load path with
  | .error f => runFailed path (f.readMessage path)
  | .ok bytes =>
    match Object.read bytes with
    | .error f => runFailed path f.message
    | .ok code =>
      if codeSize < code.length then
        runFailed path
          s!"program too large for code store: {code.length} instructions > {codeSize}"
      return code

/-- Runs the object file at `path`. A limit that is not positive is none. -/
def runFile (path : String) (maxSteps : Int) : Command Unit := do
  let code ← readObject path
  let input ← Command.readInput
  let limit := if maxSteps ≤ 0 then none else some maxSteps.toNat
  match ← Command.runMachine (.start code input) limit with
  | (_, some trap) => runFailed path trap.message
  | (m, none) =>
    Command.printError s!"\nrun complete ({path}): CP={m.cp} ST={m.st} steps={m.steps}\n"

def withFlags (flags : Flags) : Command Unit := do
  let input := flags.text "in"
  let runBin := flags.text "run-bin"
  let run := flags.switch "run" false
  if run && runBin ≠ "" then
    Command.abort "use either -run or -run-bin, not both\n" { code := 2 }
  let output ← if input = "" then pure "" else assembleFile input (flags.text "out")
  if input = "" && runBin = "" && !run then
    Command.abort
      ("nothing to do: provide -in to assemble, -run to run assembled output, " ++
        "or -run-bin <file> to run an existing object file\n")
      { code := 2, usage := true }
  if runBin ≠ "" then runFile runBin (flags.number "max-steps")
  else if run then
    if output = "" then Command.abort "-run requires -in, or use -run-bin <file>\n" { code := 2 }
    runFile output (flags.number "max-steps")

def command (args : List String) : Script Exit :=
  Command.script <|
    match readFlags flagKinds args with
    | .error f => Command.abort f.message { code := f.exitCode, usage := true }
    | .ok flags => withFlags flags

end Triangle.CommandLine.Assemble
