import Doomtown.Id

/-!
# Shootouts

Who is in the shootout, and which pending step will decide it.
-/

namespace Doomtown

/-- One side of a shootout. -/
structure Posse where
  player : PlayerId
  dudes : List CardId
deriving DecidableEq

/-- A shootout in progress. -/
structure Shootout where
  leader : CardId
  mark : CardId
  leaderPosse : Posse
  markPosse : Posse
  /-- The step that decides the shootout if it is run. -/
  pendingStep : Option StepId
  /-- Goods and spells of the dudes in the shootout. -/
  attachments : List CardId
deriving DecidableEq

namespace Shootout

/-- A shootout between a leader and a mark. -/
def new (leader : CardId) (leaderPlayer : PlayerId) (mark : CardId) (markPlayer : PlayerId) :
    Shootout where
  leader := leader
  mark := mark
  leaderPosse := ⟨leaderPlayer, [leader]⟩
  markPosse := ⟨markPlayer, [mark]⟩
  pendingStep := none
  attachments := []

/-- Whether a card is in the shootout. -/
def contains (s : Shootout) (c : CardId) : Bool :=
  s.leaderPosse.dudes.contains c || s.markPosse.dudes.contains c || s.attachments.contains c

/-- Add a dude to the player's posse; a player without a posse adds nobody. -/
def join (s : Shootout) (player : PlayerId) (dude : CardId) : Shootout :=
  if s.leaderPosse.player = player then
    { s with leaderPosse := { s.leaderPosse with dudes := s.leaderPosse.dudes ++ [dude] } }
  else if s.markPosse.player = player then
    { s with markPosse := { s.markPosse with dudes := s.markPosse.dudes ++ [dude] } }
  else s

/-- Add a card that is attached to a dude of the shootout. -/
def attach (s : Shootout) (c : CardId) : Shootout := { s with attachments := s.attachments ++ [c] }

/-- Take a card out, wherever it is listed. -/
def remove (s : Shootout) (c : CardId) : Shootout :=
  { s with
    leaderPosse := { s.leaderPosse with dudes := s.leaderPosse.dudes.filter (· ≠ c) }
    markPosse := { s.markPosse with dudes := s.markPosse.dudes.filter (· ≠ c) }
    attachments := s.attachments.filter (· ≠ c) }

/-- The shootout is over once a posse is empty. -/
def isOver (s : Shootout) : Bool := s.leaderPosse.dudes.isEmpty || s.markPosse.dudes.isEmpty

/-- The player on the other side. -/
def opponentOf (s : Shootout) (player : PlayerId) : Option PlayerId :=
  if s.leaderPosse.player = player then some s.markPosse.player
  else if s.markPosse.player = player then some s.leaderPosse.player
  else none

end Shootout

end Doomtown
