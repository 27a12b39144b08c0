import Triangle.CommandLine.Script
import Triangle.Machine.Object
import Triangle.Text.Quoted

/-! Object files of the commands. -/
namespace Triangle.CommandLine

/-- The path of the object file for an input: its extension becomes `.tam`. -/
def defaultOutput (path : String) : String :=
  let inExtension := fun (c : Char) => c != '.' && c != '/'
  match path.toList.reverse.dropWhile inExtension with
  | '.' :: stem => String.ofList stem.reverse ++ ".tam"
  | _ => path ++ ".tam"

def writeObject (path : String) (code : List Instruction) : Command Unit := do
  match ← Command.save path (Object.write code) with
  | .ok () => return
  | .error f =>
    Command.abort
      s!"failed to write object file {Text.quote path}: {f.writeMessage path}\n" { code := 1 }

end Triangle.CommandLine
