import Doomtown.Json
import Doomtown.Text.Lowercase
import Doomtown.Text.Quoted

/-!
# The log

Play leaves entries; a log decides by its settings which of them it prints and which it keeps.
Nothing in the rules reads the log.
-/

namespace Doomtown

/-! ## Settings -/

/-- How much a log prints. -/
inductive Verbosity where
  /-- Nothing. -/
  | silent
  /-- Round boundaries. -/
  | minimal
  /-- Messages and choices as well. -/
  | normal
  /-- The engine's trace as well. -/
  | verbose
deriving DecidableEq

namespace Verbosity

/-- Higher levels print more. -/
def level : Verbosity → Nat
  | silent => 0
  | minimal => 1
  | normal => 2
  | verbose => 3

/-- The level as traces name it. -/
def tag : Verbosity → String
  | silent => "Silent"
  | minimal => "Minimal"
  | normal => "Normal"
  | verbose => "Verbose"

/-- The level of a name in any case, or of its number. -/
def ofText? (s : String) : Except String Verbosity :=
  let s := Text.lowercase s
  if s = "silent" ∨ s = "0" then .ok silent
  else if s = "minimal" ∨ s = "1" then .ok minimal
  else if s = "normal" ∨ s = "2" then .ok normal
  else if s = "verbose" ∨ s = "3" then .ok verbose
  else .error s!"unknown verbosity level: {s}"

end Verbosity

/-- How a log prints an entry. -/
inductive LogFormat where
  | text
  /-- One JSON object a line. -/
  | json
deriving DecidableEq

/-- What a log does with an entry. -/
inductive LogMode where
  /-- Print it. -/
  | print
  /-- Keep it. -/
  | keep
  /-- Print and keep it. -/
  | both
deriving DecidableEq

namespace LogMode

/-- The mode as traces name it. -/
def tag : LogMode → String
  | print => "Stdout"
  | keep => "Memory"
  | both => "Both"

/-- Whether entries are printed as they come. -/
def prints : LogMode → Bool
  | print | both => true
  | keep => false

/-- Whether entries are kept. -/
def keeps : LogMode → Bool
  | keep | both => true
  | print => false

end LogMode

/-! ## Entries -/

/-- An entry of the log. -/
structure LogEntry where
  level : Verbosity
  message : String
  category : Option String
deriving DecidableEq

namespace LogEntry

/-- A message that players are meant to see. -/
def ofMessage (message : String) : LogEntry := ⟨.normal, message, some "message"⟩

/-- A player's answer to a prompt. -/
def ofChoice (player choice : String) : LogEntry :=
  ⟨.normal, s!"{player} chose {choice}", some "choice"⟩

/-- A line of the engine's trace. -/
def ofTrace (line : String) : LogEntry := ⟨.verbose, line, some "engine"⟩

/-- An entry of a level without category. -/
def plain (level : Verbosity) (message : String) : LogEntry := ⟨level, message, none⟩

/-- The entry as a text: all but round boundaries are set in by two blanks. -/
def line (e : LogEntry) : String :=
  if e.level = .minimal then e.message else "  " ++ e.message

/-- The entry as a JSON object. -/
def json (e : LogEntry) : Json :=
  .object [("level", .text e.level.tag), ("message", .text e.message),
    ("category", match e.category with | some c => .text c | none => .null)]

end LogEntry

/-! ## Logs -/

/-- A log: its settings, the entries it keeps, and the lines it has printed. -/
structure Log where
  verbosity : Verbosity := .normal
  format : LogFormat := .text
  mode : LogMode := .print
  kept : Array LogEntry := #[]
  printed : Array String := #[]

namespace Log

/-- The line that an entry is printed as. -/
def lineOf (l : Log) (e : LogEntry) : String :=
  match l.format with
  | .text => e.line
  | .json => e.json.compact

/-- Print an entry if the verbosity allows its level. -/
def print (l : Log) (e : LogEntry) : Log :=
  if e.level.level ≤ l.verbosity.level then { l with printed := l.printed.push (l.lineOf e) }
  else l

/-- Keep an entry. -/
def keep (l : Log) (e : LogEntry) : Log := { l with kept := l.kept.push e }

/-- Take an entry in, by the mode. -/
def record (l : Log) (e : LogEntry) : Log :=
  let l := if l.mode.prints then l.print e else l
  if l.mode.keeps then l.keep e else l

/-- Take entries in, one after the other. -/
def recordAll (l : Log) (entries : List LogEntry) : Log := entries.foldl record l

/-- Forget what was kept. -/
def clear (l : Log) : Log := { l with kept := #[] }

/-- Print what was kept and forget it. -/
def flush (l : Log) : Log := (l.kept.foldl print l).clear

/-- The messages kept, in order. -/
def messages (l : Log) : List String :=
  (l.kept.toList.filter (·.category = some "message")).map (·.message)

/-- A log of the same settings that keeps nothing yet. -/
def copy (l : Log) : Log := { l with kept := #[] }

/-- The log as traces show it. -/
def tag (l : Log) : String :=
  Text.fields "GameLogger" [("verbosity", l.verbosity.tag), ("output_mode", l.mode.tag),
    ("log_count", toString l.kept.size)]

end Log

end Doomtown
