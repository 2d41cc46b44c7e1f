import Doomtown.Board
import Doomtown.Decision.ChaCha
import Doomtown.Step

/-!
# Decisions

What a player sees of the game, and the ways in which a prompt's button can be chosen without a
person.
-/

namespace Doomtown

/-! ## What a player sees -/

/-- The board from a player's seat. -/
structure BoardView where
  board : Board
  player : PlayerId

namespace BoardView

/-- The player's ghost rock. -/
def ghostRock (v : BoardView) : Nat :=
  match v.board.player? v.player with
  | some player => player.ghostRock
  | none => 0

/-- The player's hand. -/
def hand (v : BoardView) : List CardId :=
  match v.board.privateZones? v.player with
  | some zones => zones.hand.cards
  | none => []

/-- The cards in play. -/
def cardsInPlay (v : BoardView) : List CardId := v.board.playArea.cards

/-- The title of a card. -/
def title? (v : BoardView) (c : CardId) : Option String := (v.board.card? c).map (·.title)

/-- Whether a card is in a hand. -/
def isInHand (v : BoardView) (c : CardId) : Bool := v.board.cardIs c (·.location = .hand)

/-- Whether the player acts first this round. -/
def isActive (v : BoardView) : Bool := v.board.activePlayer = v.player

end BoardView

/-! ## Controllers -/

/-- A way to choose buttons. -/
inductive Controller where
  /-- Always the first button. -/
  | first
  /-- The buttons of a script, then always the first; with the titles of the prompts seen. -/
  | scripted (script : List Nat) (seen : List String)
  /-- Any button, all equally likely. -/
  | random (stream : ChaCha.Stream)

namespace Controller

/-- A controller that draws from the stream of a seed. -/
def ofSeed (seed : Nat) : Controller := random (.ofSeed seed)

/-- Choose a button of a prompt. A prompt with fewer than two buttons takes no draw. -/
def choose (_ : BoardView) (p : PromptView) : Controller → Nat × Controller
  | first => (0, first)
  | scripted script seen => (script.headD 0, scripted script.tail (seen ++ [p.title]))
  | random stream =>
    if p.buttons.length ≤ 1 then (0, random stream)
    else
      let (n, stream) := stream.below p.buttons.length
      (n, random stream)

end Controller

end Doomtown
