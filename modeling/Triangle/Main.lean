import Triangle.CommandLine.Assemble
import Triangle.CommandLine.Compile

/-! The program: `compile` or `assemble`, then the flags of that command. -/
namespace Triangle.CommandLine

def fileFault (e : IO.Error) : FileFault :=
  match e with
  | .noFileOrDirectory _ _ _ => .missing
  | .inappropriateType _ _ _ => .isDirectory
  | e => .other e.toString

def answered {α : Type} (act : IO α) : IO (Except FileFault α) := do
  try return .ok (← act)
  catch e => return .error (fileFault e)

partial def readAll (stream : IO.FS.Stream) (bytes : ByteArray) : IO ByteArray := do
  let chunk ← stream.read 65536
  if chunk.isEmpty then return bytes else readAll stream (bytes ++ chunk)

/-- Runs a machine to its end, and prints its output as it comes. -/
partial def runToEnd (limit : Option Nat) (m : Machine) : IO (Machine × Option Trap) := do
  let stdout ← IO.getStdout
  let chunk := 4096
  let stop := match limit with
    | some n => min n (m.steps + chunk)
    | none => m.steps + chunk
  let (after, trap) := m.run stop
  stdout.write ⟨after.output.extract m.output.size after.output.size⟩
  stdout.flush
  match trap with
  | some ⟨_, .stepLimit⟩ =>
    if limit = some after.steps then return (after, trap) else runToEnd limit after
  | trap => return (after, trap)

def perform : Script Exit → IO Exit
  | .done exit => return exit
  | .load path next => do
    let answer ← answered (return (← IO.FS.readBinFile path).toList)
    perform (next answer)
  | .save path bytes next => do
    let answer ← answered (IO.FS.writeBinFile path ⟨bytes.toArray⟩)
    perform (next answer)
  | .readInput next => do
    let bytes ← readAll (← IO.getStdin) .empty
    perform (next bytes.toList)
  | .print bytes next => do
    (← IO.getStdout).write ⟨bytes.toArray⟩
    perform next
  | .printError bytes next => do
    (← IO.getStderr).write ⟨bytes.toArray⟩
    perform next
  | .run m limit next => do
    let answer ← runToEnd limit m
    perform (next answer)

end Triangle.CommandLine

open Triangle.CommandLine in
def main (args : List String) : IO UInt32 := do
  match args with
  | "compile" :: rest => finish (Compile.command rest) Compile.usage
  | "assemble" :: rest => finish (Assemble.command rest) Assemble.usage
  | _ =>
    IO.eprintln "usage: triangle (compile | assemble) flags"
    return 2
where
  finish (script : Script Exit) (usage : String) : IO UInt32 := do
    let exit ← perform script
    if exit.usage then IO.eprint usage
    return UInt32.ofNat exit.code
