import Doomtown.Board
import Doomtown.Play

/-!
# Moves on the board

The ways in which play changes the board. A move that names a card or player which does not
exist fails with `RulesError.unknownId`.
-/

namespace Doomtown.Board

open Play

/-! ## Looking up -/

/-- A card that has to exist. -/
def getCard (c : CardId) : Play Board Card := do
  match (← look).card? c with
  | some card => answer card
  | none => fail (.unknownId c.number)

/-- A player who has to exist. -/
def getPlayer (p : PlayerId) : Play Board Player := do
  match (← look).player? p with
  | some player => answer player
  | none => fail (.unknownId p.number)

/-! ## Cards and players -/

/-- Change a card. -/
def modifyCard (c : CardId) (f : Card → Card) : Play Board Unit := do
  discard (getCard c)
  change fun b => { b with cards := b.cards.modify c f }

/-- Change a player. -/
def modifyPlayer (p : PlayerId) (f : Player → Player) : Play Board Unit := do
  discard (getPlayer p)
  change fun b => { b with players := modifyFirst (·.id = p) f b.players }

/-- Boot a card. -/
def boot (c : CardId) : Play Board Unit := modifyCard c ({ · with booted := true })

/-- Unboot a card. -/
def unboot (c : CardId) : Play Board Unit := modifyCard c ({ · with booted := false })

/-- Take ghost rock from a player who has enough of it. -/
def spend (p : PlayerId) (amount : Nat) : Play Board Unit := do
  let player ← getPlayer p
  if player.canSpend amount then modifyPlayer p (·.spend amount)
  else fail (.refused (.lacksGhostRock p amount))

/-- Give a player ghost rock. -/
def gain (p : PlayerId) (amount : Nat) : Play Board Unit := modifyPlayer p (·.gain amount)

/-! ## Counters -/

/-- A number that nothing has yet. -/
def takeNumber : Play Board Nat := do
  let n ← view (·.nextNumber)
  change fun b => { b with nextNumber := n + 1 }
  answer n

/-- The timestamp of the next event. -/
def takeTimestamp : Play Board Nat := do
  let n ← view (·.clock)
  change fun b => { b with clock := n + 1 }
  answer (n + 1)

/-! ## Zones -/

/-- Put a new card at a location. It is listed in its owner's zone; a card whose owner does not
play is listed nowhere unless it is in the play area. -/
def createCard (owner : PlayerId) (title : String) (type : CardType) (location : Location) :
    Play Board CardId := do
  let c : CardId := ⟨← takeNumber⟩
  let card := { Card.new c title type owner with location := location }
  change fun b => { b with cards := b.cards.insert c card }
  change (·.modifyZone owner (·.add c) location)
  answer c

/-- Take a card out of the shootout, if there is one. -/
def removeFromShootout (b : Board) (c : CardId) : Board :=
  { b with shootout := b.shootout.map (·.remove c) }

/-- Move a card to the end of its owner's zone at a location, and answer with the location that
it left. A card that leaves the play area is out of the shootout and of the town square. -/
def moveCard (c : CardId) (destination : Location) : Play Board Location := do
  let card ← getCard c
  let origin := card.location
  let listed ← view fun b => (b.zone? card.owner origin).any (·.contains c)
  if !listed then fail (.refused (.notListed c origin))
  change (·.modifyZone card.owner (·.remove c) origin)
  change (·.modifyZone card.owner (·.add c) destination)
  modifyCard c ({ · with location := destination })
  if origin = .playArea ∧ destination ≠ .playArea then
    change (·.removeFromShootout c)
    modifyCard c ({ · with inTownSquare := false })
  trace s!"card {c.text} moved from {origin.name} to {destination.name}"
  answer origin

/-- Send a dude home booted, out of the shootout and of the town square. -/
def sendHome (c : CardId) : Play Board Unit := do
  change (·.removeFromShootout c)
  modifyCard c ({ · with inTownSquare := false, booted := true })

end Doomtown.Board
