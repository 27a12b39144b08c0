import Triangle.CommandLine.Flag
import Triangle.CommandLine.ObjectFile
import Triangle.Compile
import Triangle.Tree.Decoding

/-! The command that compiles a program, given as the JSON text of its tree, into an object file. -/
namespace Triangle.CommandLine.Compile

def flagKinds : List (String × FlagKind) :=
  [("in", .text), ("out", .text), ("show-asm", .switch), ("run", .switch), ("O", .switch),
    ("v", .switch)]

def usage : String :=
  "  -O\trun the tree optimizer and the peephole passes (default true)\n" ++
  "  -in string\n    \tinput program: JSON syntax tree, - for the standard input\n" ++
  "  -out string\n    \toutput object file path (default: input with .tam extension)\n" ++
  "  -run\n    \trun the compiled program\n" ++
  "  -show-asm\n    \tprint the symbolic listing before label resolution\n" ++
  "  -v\tlog each compiler pass\n"

/-- The bytes of a file, or of the standard input. -/
def readSource (path : String) : Command (Except FileFault (List UInt8)) :=
  if path = "-" then do
    let bytes ← Command.readInput
    return .ok bytes
  else Command.load path

/-- The program in a file, and the form in which messages about it are written. -/
def readProgram (path : String) : Command (Text.Form × Program) := do
  let failed := fun (reason : List UInt8) =>
    (Command.abortBecause s!"failed to read program {Text.quote path}: " reason { code := 1 } :
      Command (Text.Form × Program))
  match ← readSource path with
  | .error f => failed (Text.encodeUtf8 (f.readMessage path))
  | .ok bytes =>
    match Program.decodeBytes bytes with
    | (form, .error f) => failed (form.bytes (f.message form))
    | (form, .ok p) => return (form, p)

def log (verbose : Bool) (lines : List LogLine) : Command Unit :=
  if verbose then lines.forM fun l => Command.printError (l.text ++ "\n") else pure ()

def withFlags (flags : Flags) : Command Unit := do
  let path := flags.text "in"
  if path = "" then
    Command.abort "nothing to do: provide -in <file.json>\n" { code := 2, usage := true }
  let verbose := flags.switch "v" false
  let (form, p) ← readProgram path
  let optimize := flags.switch "O" true
  let (result, passes) := p.compile { optimize, peephole := optimize, form }
  log verbose (passes.map Triangle.Compile.Pass.logLine)
  match result with
  | .error f => Command.abortBecause "compilation failed: " (form.bytes f.message) { code := 1 }
  | .ok compiled =>
    if flags.switch "show-asm" false then Command.print (Code.listing compiled.items)
    let out := flags.text "out"
    let output := if out = "" && path ≠ "-" then defaultOutput path else out
    if output ≠ "" then
      writeObject output compiled.code
      let fields := [("instructions", s!"{compiled.code.length}"), ("path", output)]
      log verbose [{ level := "info", message := "object written", fields }]
    if flags.switch "run" false then
      let input ← Command.readInput
      match ← Command.runMachine (.start compiled.code input) none with
      | (_, some trap) => Command.abort s!"run failed: {trap.message}\n" { code := 1 }
      | (_, none) => return

def command (args : List String) : Script Exit :=
  Command.script <|
    match readFlags flagKinds args with
    | .error f => Command.abort f.message { code := f.exitCode, usage := true }
    | .ok flags => withFlags flags

end Triangle.CommandLine.Compile
