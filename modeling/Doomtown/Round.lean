import Doomtown.Id

/-!
# Rounds

The phases of a round, the windows in which actions can be played, and the flags that last for
one round.
-/

namespace Doomtown

/-- A phase of the round. -/
inductive Phase where
  | gamblin | upkeep | highNoon | sundown
deriving DecidableEq

namespace Phase

/-- The phase after this one; sundown ends the round. -/
def next : Phase → Option Phase
  | gamblin => some upkeep
  | upkeep => some highNoon
  | highNoon => some sundown
  | sundown => none

/-- The phase as players call it. -/
def name : Phase → String
  | gamblin => "gamblin'"
  | upkeep => "upkeep"
  | highNoon => "high noon"
  | sundown => "sundown"

/-- The phase as traces name it. -/
def tag : Phase → String
  | gamblin => "Gamblin"
  | upkeep => "Upkeep"
  | highNoon => "HighNoon"
  | sundown => "Sundown"

end Phase

/-- A window in which actions can be played. -/
inductive PlayWindow where
  /-- Noon plays, during high noon. -/
  | noon
  /-- Shootout plays, before the draw hands are compared. -/
  | shootoutPlays
  /-- Resolution plays, after the draw hands are revealed. -/
  | resolution
deriving DecidableEq

/-- The window as traces name it. -/
def PlayWindow.tag : PlayWindow → String
  | noon => "Noon"
  | shootoutPlays => "ShootoutPlays"
  | resolution => "Resolution"

/-- The kinds of play an action can be. -/
inductive PlayType where
  | noon
  | shootout
  /-- A shootout play for cards that are not in the shootout yet. -/
  | shootoutJoin
  | resolution
  /-- A resolution play against a cheatin' opponent. -/
  | cheatinResolution
  | any
deriving DecidableEq

namespace PlayType

/-- Whether plays of this type are made in a window. -/
def allowedIn : PlayType → PlayWindow → Bool
  | noon, w => w = .noon
  | shootout, w | shootoutJoin, w => w = .shootoutPlays
  | resolution, w | cheatinResolution, w => w = .resolution
  | any, _ => true

/-- The type as traces name it. -/
def tag : PlayType → String
  | noon => "Noon"
  | shootout => "Shootout"
  | shootoutJoin => "ShootoutJoin"
  | resolution => "Resolution"
  | cheatinResolution => "CheatinResolution"
  | any => "Any"

end PlayType

/-- Where the game stands in its round. -/
structure RoundState where
  number : Nat
  phase : Phase
  /-- The open window, if any. -/
  window : Option PlayWindow
  /-- Who acts first this round. -/
  activePlayer : PlayerId
  /-- Whether a headline was played this round. -/
  headlineUsed : Bool
deriving DecidableEq

namespace RoundState

/-- Before the first round. -/
def new (activePlayer : PlayerId) : RoundState := ⟨0, .gamblin, none, activePlayer, false⟩

/-- The start of the next round: the flags of the last one are gone. -/
def beginNext (r : RoundState) : RoundState :=
  { r with number := r.number + 1, phase := .gamblin, window := none, headlineUsed := false }

/-- The next phase with no window open, or nothing at the end of the round. -/
def advance? (r : RoundState) : Option RoundState :=
  r.phase.next.map fun phase => { r with phase := phase, window := none }

/-- Whether a window is the open one. -/
def isOpen (r : RoundState) (w : PlayWindow) : Bool := r.window = some w

end RoundState

end Doomtown
