import Triangle.Text.Numeral
import Triangle.Text.Quoted

/-! Flags of a command line: `-name value` or `-name=value`, with one or two dashes. A switch takes
a value only after an equals sign. Flags end at the first other argument, or after `--`. -/
namespace Triangle.CommandLine

inductive FlagKind where
  | text
  | switch
  | number
  deriving DecidableEq, Repr

inductive FlagValue where
  | text (value : String)
  | switch (value : Bool)
  | number (value : Int)
  deriving DecidableEq, Repr

inductive FlagFault where
  | badForm (arg : String)
  | unknown (name : String)
  | needsArgument (name : String)
  | badSwitch (value name : String)
  | badNumber (value name : String) (cause : Text.Numeral.Fault)
  /-- Not a mistake: the usage was asked for. -/
  | help
  deriving DecidableEq, Repr

def FlagFault.message : FlagFault → String
  | badForm arg => s!"bad flag syntax: {arg}\n"
  | unknown name => s!"flag provided but not defined: -{name}\n"
  | needsArgument name => s!"flag needs an argument: -{name}\n"
  | badSwitch value name => s!"invalid boolean value {Text.quote value} for -{name}: parse error\n"
  | badNumber value name .malformed =>
    s!"invalid value {Text.quote value} for flag -{name}: parse error\n"
  | badNumber value name .tooLarge =>
    s!"invalid value {Text.quote value} for flag -{name}: value out of range\n"
  | help => ""

def FlagFault.exitCode : FlagFault → Nat
  | help => 0
  | _ => 2

def switchValue? (text : String) : Option Bool :=
  if text ∈ ["1", "t", "T", "TRUE", "true", "True"] then some true
  else if text ∈ ["0", "f", "F", "FALSE", "false", "False"] then some false
  else none

def flagValue (name : String) (kind : FlagKind) (value : String) : Except FlagFault FlagValue :=
  match kind with
  | .text => .ok (.text value)
  | .switch =>
    match switchValue? value with
    | some b => .ok (.switch b)
    | none => .error (.badSwitch value name)
  | .number =>
    match Text.Numeral.literal 64 value.toList with
    | .ok n => .ok (.number n)
    | .error cause => .error (.badNumber value name cause)

/-- One argument: no flag, or a flag with the value after its equals sign. -/
inductive Argument where
  | stop
  | badForm
  | flag (name : String) (value : Option String)
  deriving DecidableEq, Repr

/-- Splits a flag without its dashes; its first character is not an equals sign. -/
def splitValue (cs : List Char) : Argument :=
  let name := cs.take 1 ++ (cs.drop 1).takeWhile (· != '=')
  match (cs.drop 1).dropWhile (· != '=') with
  | _ :: value => .flag (String.ofList name) (some (String.ofList value))
  | [] => .flag (String.ofList name) none

def readArgument (arg : String) : Argument :=
  let named := fun (cs : List Char) =>
    match cs with
    | [] | '-' :: _ | '=' :: _ => Argument.badForm
    | cs => splitValue cs
  match arg.toList with
  | ['-', '-'] => .stop
  | '-' :: '-' :: cs => named cs
  | ['-'] => .stop
  | '-' :: cs => named cs
  | _ => .stop

/-- The flags given, in order. -/
def readFlags (kinds : List (String × FlagKind)) :
    List String → Except FlagFault (List (String × FlagValue))
  | [] => .ok []
  | arg :: rest =>
    match readArgument arg with
    | .stop => .ok []
    | .badForm => .error (.badForm arg)
    | .flag name given =>
      match kinds.lookup name, given with
      | none, _ => .error (if name = "help" ∨ name = "h" then .help else .unknown name)
      | some kind, some value => do
        let v ← flagValue name kind value
        return (name, v) :: (← readFlags kinds rest)
      | some .switch, none => do
        return (name, .switch true) :: (← readFlags kinds rest)
      | some kind, none =>
        match rest with
        | [] => .error (.needsArgument name)
        | value :: rest => do
          let v ← flagValue name kind value
          return (name, v) :: (← readFlags kinds rest)

/-- Flags by name; of several with one name the last counts. -/
abbrev Flags := List (String × FlagValue)

namespace Flags

def get? (flags : Flags) (name : String) : Option FlagValue := flags.reverse.lookup name

def text (flags : Flags) (name : String) : String :=
  match flags.get? name with
  | some (.text value) => value
  | _ => ""

def switch (flags : Flags) (name : String) (default : Bool) : Bool :=
  match flags.get? name with
  | some (.switch value) => value
  | _ => default

def number (flags : Flags) (name : String) : Int :=
  match flags.get? name with
  | some (.number value) => value
  | _ => 0

end Flags
end Triangle.CommandLine
