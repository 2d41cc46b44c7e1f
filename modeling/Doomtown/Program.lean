import Doomtown.Arguments
import Doomtown.Demo
import Doomtown.Saved.Rules

/-!
# The program

What the command line prints for a list of arguments: the sample round, played under the options
that the arguments give.
-/

namespace Doomtown.Program

/-- What the program leaves: its exit code, the lines printed, the text for the error stream, and
the final state if it was asked for. -/
structure Report where
  exit : Nat
  lines : List String
  problem : String
  state : Option Json

/-- The controller of a player under some options: each player draws from a stream of its own. -/
def controllerFor (o : Options) (p : PlayerId) : Controller :=
  match o.controller with
  | .zero => .first
  | .random => .ofSeed (o.seed + p.number)
  | .scripted => .scripted o.script []

/-- The lines of the menu, if it was asked for. -/
def menuLines (o : Options) (items : List MenuItem) : List String :=
  if o.menu then items.map fun item => (Saved.menuItem.save item).compact else []

/-- What an ending leaves for the error stream. -/
def problemOf : Option RulesError → String
  | some e => s!"Error: {e.message}\n"
  | none => "Error: the round does not end\n"

/-- Play the sample round. -/
def report (o : Options) : Report :=
  let log : Log := { verbosity := o.verbosity, format := o.format }
  let (ending, g) := Demo.playRound (menuLines o) (Demo.start log (controllerFor o))
  let lines := g.log.printed.toList
  match ending with
  | .error e => ⟨1, lines, problemOf e, none⟩
  | .ok () =>
    let board : Recorded Board := ⟨g.state.engine.board, g.log⟩
    ⟨0, lines, "", if o.dumpState then some (Saved.board.save board) else none⟩

/-- Play the sample round under the options that the arguments give; arguments that are not in
order end the program with code 2. -/
def run (args : List String) : Report :=
  match Arguments.options? args with
  | some o => report o
  | none => ⟨2, [], "error: invalid arguments\n", none⟩

end Doomtown.Program
