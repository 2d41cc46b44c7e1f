import Doomtown.Program

/-!
# Command line

Prints what the program leaves for its arguments.
-/

open Doomtown

def main (args : List String) : IO UInt32 := do
  let r := Program.run args
  for line in r.lines do
    IO.println line
  match r.state with
  | some state => IO.println state.pretty
  | none => pure ()
  IO.eprint r.problem
  return UInt32.ofNat r.exit
