/-!
# Locations

Where a card can be. The play area is shared by all players; every other location is a private
zone of the card's owner.
-/

namespace Doomtown

/-- Where a card is. A card is `beingPlayed` between being announced and having resolved. -/
inductive Location where
  | drawDeck | hand | playArea | discardPile | deadPile | drawHand | beingPlayed
deriving DecidableEq

namespace Location

/-- The location as the log names it. -/
def name : Location → String
  | drawDeck => "draw deck"
  | hand => "hand"
  | playArea => "play area"
  | discardPile => "discard pile"
  | deadPile => "dead pile"
  | drawHand => "draw hand"
  | beingPlayed => "being played"

/-- The location as traces name it. -/
def tag : Location → String
  | drawDeck => "DrawDeck"
  | hand => "Hand"
  | playArea => "PlayArea"
  | discardPile => "DiscardPile"
  | deadPile => "DeadPile"
  | drawHand => "DrawHand"
  | beingPlayed => "BeingPlayed"

/-- Every location, in the order in which listings show them. -/
def all : List Location :=
  [drawDeck, hand, playArea, discardPile, deadPile, drawHand, beingPlayed]

theorem mem_all (l : Location) : l ∈ all := by cases l <;> decide

end Location

end Doomtown
