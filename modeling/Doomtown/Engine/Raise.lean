import Doomtown.Engine.Registration

/-!
# Raising events

What queues an event: the game itself at the start of a round, a card that enters or leaves play,
or a card's script. Nothing here runs the queue.
-/

namespace Doomtown

namespace Engine

open Play

/-- Queue an event with the change behind it. -/
def raise (data : EventData) (change : EventChange) : Play Engine Unit := do
  let timestamp ← onBoard Board.takeTimestamp
  discard (post (.event ⟨timestamp, data⟩ change))

/-- Queue an event that changes nothing itself. -/
def announce (data : EventData) : Play Engine Unit := raise data (.script .done)

/-- The event of a card's move, if it enters or leaves the play area. -/
def moveEvent? (c : CardId) (origin destination : Location) : Option EventData :=
  if origin ≠ .playArea ∧ destination = .playArea then some (.cardEnteredPlay c origin)
  else if origin = .playArea ∧ destination ≠ .playArea then some (.cardLeftPlay c destination)
  else none

/-- What follows a card's move on the board: the registration of its abilities, and the event if
the card enters or leaves the play area. The answer is whether there is an event. -/
def afterMove (c : CardId) (origin destination : Location) : Play Engine Bool := do
  refresh c
  match moveEvent? c origin destination with
  | some data =>
    announce data
    answer true
  | none => answer false

/-- Move a card. The answer is whether an event was raised. -/
def moveCard (c : CardId) (destination : Location) : Play Engine Bool := do
  let origin ← onBoard (Board.moveCard c destination)
  afterMove c origin destination

/-- Begin the next round. -/
def beginRound : Play Engine Unit := do
  change fun e => { e with board := { e.board with round := e.board.round.beginNext } }
  let round := (← look).board.round.number
  log (.plain .minimal s!"Round {round}")
  announce (.beginRound round)

/-- Withdraw a step that has not started: false if there is none of this number. -/
def withdraw (i : StepId) : Play Engine Bool := do
  if (← look).queue.contains i then
    change fun e => { e with queue := e.queue.withdraw i }
    trace s!"step {i.text} cancelled"
    answer true
  else answer false

/-- Note that the queue waits for a player. -/
def awaitPrompt (p : Prompt) : Play Engine QueueStatus := do
  trace s!"waiting on player {p.player.text}: {p.title}"
  answer (.awaiting p.player)

end Engine

end Doomtown
