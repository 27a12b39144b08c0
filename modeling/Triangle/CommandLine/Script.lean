import Triangle.Machine.Step
import Triangle.Text.Encoded

/-! What a command asks of its host: files, the standard streams, and the running of machines,
which may have no end. The host answers each request and goes on with what follows. -/
namespace Triangle.CommandLine

inductive FileFault where
  | missing
  | isDirectory
  | notADirectory
  | other (text : String)
  deriving DecidableEq, Repr

namespace FileFault

def text : FileFault → String
  | missing => "no such file or directory"
  | isDirectory => "is a directory"
  | notADirectory => "not a directory"
  | other text => text

def writeMessage (path : String) (f : FileFault) : String := s!"open {path}: {f.text}"

/-- A directory can be opened, but not read. -/
def readMessage (path : String) : FileFault → String
  | isDirectory => s!"read {path}: {isDirectory.text}"
  | f => f.writeMessage path

end FileFault

inductive Script (α : Type) where
  | done (a : α)
  | load (path : String) (next : Except FileFault (List UInt8) → Script α)
  | save (path : String) (bytes : List UInt8) (next : Except FileFault Unit → Script α)
  /-- All that is left of the standard input. -/
  | readInput (next : List UInt8 → Script α)
  | print (bytes : List UInt8) (next : Script α)
  | printError (bytes : List UInt8) (next : Script α)
  /-- Runs a machine, and prints what it writes. -/
  | run (m : Machine) (limit : Option Nat) (next : Machine × Option Trap → Script α)

namespace Script
variable {α β : Type}

def bind (s : Script α) (f : α → Script β) : Script β :=
  match s with
  | done a => f a
  | load path next => .load path fun answer => (next answer).bind f
  | save path bytes next => .save path bytes fun answer => (next answer).bind f
  | readInput next => .readInput fun answer => (next answer).bind f
  | print bytes next => .print bytes (next.bind f)
  | printError bytes next => .printError bytes (next.bind f)
  | run m limit next => .run m limit fun answer => (next answer).bind f

instance : Monad Script where
  pure := done
  bind := bind

end Script

/-- How a command ends, and whether its usage is shown. -/
structure Exit where
  code : Nat := 0
  usage : Bool := false
  deriving DecidableEq, Repr

/-- A command that can end early. -/
abbrev Command := ExceptT Exit Script

namespace Command

def load (path : String) : Command (Except FileFault (List UInt8)) :=
  ExceptT.lift (.load path .done)

def save (path : String) (bytes : List UInt8) : Command (Except FileFault Unit) :=
  ExceptT.lift (.save path bytes .done)

def readInput : Command (List UInt8) := ExceptT.lift (.readInput .done)

def print (text : String) : Command Unit :=
  ExceptT.lift (.print (Text.encodeUtf8 text) (.done ()))

def printErrorBytes (bytes : List UInt8) : Command Unit :=
  ExceptT.lift (.printError bytes (.done ()))

def printError (text : String) : Command Unit := printErrorBytes (Text.encodeUtf8 text)

def runMachine (m : Machine) (limit : Option Nat) : Command (Machine × Option Trap) :=
  ExceptT.lift (.run m limit .done)

/-- Prints a message and ends the command. -/
def abort {α : Type} (message : String) (exit : Exit) : Command α := do
  printError message
  throw exit

/-- Prints a message whose end, a reason, is given as bytes, and ends the command. -/
def abortBecause {α : Type} (message : String) (reason : List UInt8) (exit : Exit) :
    Command α := do
  printErrorBytes (Text.encodeUtf8 message ++ reason ++ Text.encodeUtf8 "\n")
  throw exit

/-- The whole command. -/
def script (c : Command Unit) : Script Exit := do
  match ← c.run with
  | .ok () => return {}
  | .error exit => return exit

end Command
end Triangle.CommandLine
