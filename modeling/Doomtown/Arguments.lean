import Doomtown.Log
import Doomtown.Text.Digits

/-!
# Command-line arguments

The options of the sample round. An option that takes a value takes it from the next argument,
which must not start with a dash, or behind an equals sign. Only `--script` may stand more than
once.
-/

namespace Doomtown

/-- Who decides for both players. -/
inductive ControllerChoice where
  | zero | random | scripted
deriving DecidableEq

/-- What the sample round is asked for. -/
structure Options where
  verbosity : Verbosity
  format : LogFormat
  controller : ControllerChoice
  seed : Nat
  script : List Nat
  menu : Bool
  dumpState : Bool

namespace Arguments

/-! ## Options as given -/

/-- The options. -/
inductive Name where
  | verbosity | format | seed | controller | script | menu | dumpState
deriving DecidableEq

/-- The option of a long name. -/
def Name.ofLong? : String → Option Name
  | "verbosity" => some verbosity
  | "format" => some format
  | "seed" => some seed
  | "controller" => some controller
  | "script" => some script
  | "menu" => some menu
  | "dump-state" => some dumpState
  | _ => none

/-- Whether the option takes a value. -/
def Name.takesValue : Name → Bool
  | menu | dumpState => false
  | verbosity | format | seed | controller | script => true

/-- What one argument is. -/
inductive Token where
  /-- An option without a value so far. -/
  | option (name : Name)
  /-- An option with its value. -/
  | valued (name : Name) (value : String)
  /-- The end of the options. -/
  | stop
  /-- Anything else. -/
  | other
deriving DecidableEq

/-- Split a text at the first character of a kind. -/
def splitAt? (c : Char) : List Char → Option (List Char × List Char)
  | [] => none
  | d :: rest =>
    if d = c then some ([], rest)
    else (splitAt? c rest).map fun (before, after) => (d :: before, after)

/-- The argument of an option with a long name. -/
def longToken (cs : List Char) : Token :=
  match splitAt? '=' cs with
  | some (name, value) =>
    match Name.ofLong? (String.ofList name) with
    | some name => .valued name (String.ofList value)
    | none => .other
  | none =>
    match Name.ofLong? (String.ofList cs) with
    | some name => .option name
    | none => .other

/-- What an argument is. The one short name is `-v`, which its value may follow at once. -/
def token (arg : String) : Token :=
  match arg.toList with
  | ['-', '-'] => .stop
  | '-' :: '-' :: cs => longToken cs
  | ['-', 'v'] => .option .verbosity
  | '-' :: 'v' :: '=' :: value => .valued .verbosity (String.ofList value)
  | '-' :: 'v' :: value => .valued .verbosity (String.ofList value)
  | _ => .other

/-- The options that a list of arguments gives, each with its value if it takes one. -/
def given? : List String → Option (List (Name × String))
  | [] => some []
  | arg :: rest =>
    match token arg with
    | .stop => if rest.isEmpty then some [] else none
    | .other => none
    | .valued name value =>
      if name.takesValue then (given? rest).map ((name, value) :: ·) else none
    | .option name =>
      if !name.takesValue then (given? rest).map ((name, "") :: ·)
      else
        match rest with
        | value :: rest =>
          if value.toList.head? = some '-' then none
          else (given? rest).map ((name, value) :: ·)
        | [] => none

/-! ## Values -/

/-- The controller of a name. -/
def controller? : String → Option ControllerChoice
  | "zero" => some .zero
  | "random" => some .random
  | "scripted" => some .scripted
  | _ => none

/-- The format of a name. -/
def format? : String → Option LogFormat
  | "text" => some .text
  | "json" => some .json
  | _ => none

/-- The numbers that a text lists between commas. -/
def numbers? (s : String) : Option (List Nat) :=
  (s.splitOn ",").mapM fun item => Text.word64? item.toList

/-- The values given for an option, in order. -/
def valuesOf (name : Name) (given : List (Name × String)) : List String :=
  (given.filter (·.1 = name)).map (·.2)

/-- The value of an option that may stand once, and is `default` where it does not stand. -/
def single? {α : Type} (name : Name) (read : String → Option α) (default : α)
    (given : List (Name × String)) : Option α :=
  match valuesOf name given with
  | [] => some default
  | [value] => read value
  | _ => none

/-- The options of a list of arguments, if they are in order. -/
def options? (args : List String) : Option Options := do
  let given ← given? args
  let scripts ← (valuesOf .script given).mapM numbers?
  some {
    verbosity := ← single? .verbosity (fun s => (Verbosity.ofText? s).toOption) .normal given
    format := ← single? .format format? .text given
    controller := ← single? .controller controller? .zero given
    seed := ← single? .seed (fun s => Text.word64? s.toList) 0 given
    script := scripts.flatten
    menu := ← single? .menu (fun _ => some true) false given
    dumpState := ← single? .dumpState (fun _ => some true) false given }

end Arguments

end Doomtown
