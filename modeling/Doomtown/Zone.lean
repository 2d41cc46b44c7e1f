import Doomtown.Id
import Doomtown.Location

/-!
# Zones

A zone lists the cards at one location of one player, in order; the top of a deck is the last.
Each player has one zone for every location but the play area.
-/

namespace Doomtown

/-- The cards at a location of a player. -/
structure Zone where
  location : Location
  owner : PlayerId
  cards : List CardId
deriving DecidableEq

namespace Zone

/-- An empty zone. -/
def new (location : Location) (owner : PlayerId) : Zone := ⟨location, owner, []⟩

/-- Put a card at the end. -/
def add (z : Zone) (c : CardId) : Zone := { z with cards := z.cards ++ [c] }

/-- Whether the zone lists a card. -/
def contains (z : Zone) (c : CardId) : Bool := z.cards.contains c

/-- Take out the first entry of a card; the others keep their order. -/
def remove (z : Zone) (c : CardId) : Zone := { z with cards := z.cards.erase c }

/-- Take the top card. -/
def draw (z : Zone) : Option CardId × Zone :=
  (z.cards.getLast?, { z with cards := z.cards.dropLast })

end Zone

/-- The private zones of a player. -/
structure PrivateZones where
  drawDeck : Zone
  hand : Zone
  discardPile : Zone
  deadPile : Zone
  drawHand : Zone
  beingPlayed : Zone
deriving DecidableEq

namespace PrivateZones

/-- Empty zones of a player. -/
def new (owner : PlayerId) : PrivateZones where
  drawDeck := .new .drawDeck owner
  hand := .new .hand owner
  discardPile := .new .discardPile owner
  deadPile := .new .deadPile owner
  drawHand := .new .drawHand owner
  beingPlayed := .new .beingPlayed owner

/-- The zone at a location; the play area is nobody's own. -/
def at? (z : PrivateZones) : Location → Option Zone
  | .drawDeck => some z.drawDeck
  | .hand => some z.hand
  | .playArea => none
  | .discardPile => some z.discardPile
  | .deadPile => some z.deadPile
  | .drawHand => some z.drawHand
  | .beingPlayed => some z.beingPlayed

/-- Change the zone at a location. -/
def modify (z : PrivateZones) (f : Zone → Zone) : Location → PrivateZones
  | .drawDeck => { z with drawDeck := f z.drawDeck }
  | .hand => { z with hand := f z.hand }
  | .playArea => z
  | .discardPile => { z with discardPile := f z.discardPile }
  | .deadPile => { z with deadPile := f z.deadPile }
  | .drawHand => { z with drawHand := f z.drawHand }
  | .beingPlayed => { z with beingPlayed := f z.beingPlayed }

theorem at?_modify (z : PrivateZones) (f : Zone → Zone) (l l' : Location) :
    (z.modify f l).at? l' = if l = l' then (z.at? l').map f else z.at? l' := by
  cases l <;> cases l' <;> rfl

end PrivateZones

end Doomtown
