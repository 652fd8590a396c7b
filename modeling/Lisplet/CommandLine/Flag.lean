import Lisplet.Number.Integer
import Lisplet.Text.Quoted

/-!
# Flags

A command has named flags, which come before its other arguments. A flag starts with one or two
dashes; its value follows an equals sign or is the next argument. A switch has a value only after
an equals sign.

* `FlagSet.parse`: the settings that arguments make, and the arguments after the flags;
* `FlagSet.usage`: the list of a command's flags.
-/

namespace Lisplet.CommandLine

/-- What a flag is set to. -/
inductive FlagKind where
  | integer
  | text
  | switch
  deriving DecidableEq, Repr, Inhabited

/-- A flag of a command. -/
structure Flag where
  name : String
  kind : FlagKind
  /-- What the flag is for. -/
  purpose : String
  deriving DecidableEq, Repr, Inhabited

/-- The flags of a command, in the order of their names. -/
structure FlagSet where
  command : String
  flags : List Flag
  deriving DecidableEq, Repr, Inhabited

/-- The value of a flag. -/
inductive Setting where
  | integer (n : Int)
  | text (s : String)
  | switch (b : Bool)
  deriving DecidableEq, Repr, Inhabited

/-- The flags that are set, the latest first. -/
abbrev Settings := List (String × Setting)

/-- Why arguments are not understood. -/
inductive FlagFault where
  | badSyntax (argument : String)
  | unknown (name : String)
  | noValue (name : String)
  | badSwitch (value name : String)
  | badInteger (value name : String) (f : IntegerFault)
  deriving DecidableEq, Repr

/-- The wording of a fault. -/
def FlagFault.message : FlagFault → String
  | .badSyntax argument => "bad flag syntax: " ++ argument
  | .unknown name => "flag provided but not defined: -" ++ name
  | .noValue name => "flag needs an argument: -" ++ name
  | .badSwitch value name =>
    "invalid boolean value " ++ Text.quote value ++ " for -" ++ name ++ ": parse error"
  | .badInteger value name f =>
    "invalid value " ++ Text.quote value ++ " for flag -" ++ name ++ ": " ++
      match f with
      | .malformed => "parse error"
      | .outOfRange => "value out of range"

/-- What the arguments of a command come to. -/
inductive Parsed where
  | settings (s : Settings) (rest : List String)
  /-- The user asks for the list of flags. -/
  | help
  | fault (f : FlagFault)
  deriving DecidableEq, Repr

namespace Settings

/-- The value of an integer flag; zero if it is not set. -/
def integer (s : Settings) (name : String) : Int :=
  match s.lookup name with
  | some (.integer n) => n
  | _ => 0

/-- The value of a text flag; empty if it is not set. -/
def text (s : Settings) (name : String) : String :=
  match s.lookup name with
  | some (.text t) => t
  | _ => ""

/-- The value of a switch; off if it is not set. -/
def switch (s : Settings) (name : String) : Bool :=
  match s.lookup name with
  | some (.switch b) => b
  | _ => false

end Settings

/-- The spellings of the values of a switch. -/
def switchValue? (s : String) : Option Bool :=
  if ["1", "t", "T", "true", "TRUE", "True"].contains s then some true
  else if ["0", "f", "F", "false", "FALSE", "False"].contains s then some false
  else none

/-- What an argument looks like. -/
inductive Argument where
  /-- It is not a flag. -/
  | plain
  /-- It ends the flags. -/
  | terminator
  | badSyntax
  | flag (name : String) (value : Option String)
  deriving DecidableEq, Repr

/-- The name of a flag and the value after its equals sign. -/
def nameAndValue (cs : List Char) : Argument :=
  match cs with
  | [] | '-' :: _ | '=' :: _ => .badSyntax
  | cs =>
    let name := String.ofList (cs.takeWhile (· ≠ '='))
    match cs.dropWhile (· ≠ '=') with
    | [] => .flag name none
    | _ :: value => .flag name (some (String.ofList value))

/-- Look at an argument. -/
def Argument.ofText (s : String) : Argument :=
  match s.toList with
  | ['-', '-'] => .terminator
  | '-' :: '-' :: rest => nameAndValue rest
  | '-' :: c :: rest => nameAndValue (c :: rest)
  | _ => .plain

namespace FlagSet

/-- Read the value of a flag. -/
def setting (f : Flag) (value : String) : Except FlagFault Setting :=
  match f.kind with
  | .text => .ok (.text value)
  | .switch =>
    match switchValue? value with
    | some b => .ok (.switch b)
    | none => .error (.badSwitch value f.name)
  | .integer =>
    match Numeral.prefixedSigned value.toList with
    | .ok n => .ok (.integer n)
    | .error e => .error (.badInteger value f.name e)

/-- Read the flags at the start of the arguments. -/
def parseFrom (set : FlagSet) : Settings → List String → Parsed
  | s, [] => .settings s []
  | s, a :: rest =>
    match Argument.ofText a with
    | .plain => .settings s (a :: rest)
    | .terminator => .settings s rest
    | .badSyntax => .fault (.badSyntax a)
    | .flag name value =>
      match set.flags.find? (·.name == name) with
      | none => if name = "help" || name = "h" then .help else .fault (.unknown name)
      | some f =>
        match f.kind, value, rest with
        | .switch, value, rest =>
          match setting f (value.getD "true") with
          | .error e => .fault e
          | .ok v => set.parseFrom ((name, v) :: s) rest
        | _, some value, rest =>
          match setting f value with
          | .error e => .fault e
          | .ok v => set.parseFrom ((name, v) :: s) rest
        | _, none, [] => .fault (.noValue name)
        | _, none, value :: rest =>
          match setting f value with
          | .error e => .fault e
          | .ok v => set.parseFrom ((name, v) :: s) rest

/-- Read the flags of a command. -/
def parse (set : FlagSet) (arguments : List String) : Parsed := set.parseFrom [] arguments

/-- The line of a flag in the list of flags, and what it is for. -/
def flagUsage (f : Flag) : String :=
  let kind :=
    match f.kind with
    | .integer => " int"
    | .text => " string"
    | .switch => ""
  "  -" ++ f.name ++ kind ++ "\n    \t" ++ f.purpose ++ "\n"

/-- The list of a command's flags. -/
def usage (set : FlagSet) : String :=
  "Usage of " ++ set.command ++ ":\n" ++ String.join (set.flags.map flagUsage)

end FlagSet

end Lisplet.CommandLine
