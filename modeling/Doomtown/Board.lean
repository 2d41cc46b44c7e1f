import Doomtown.Card
import Doomtown.IdMap
import Doomtown.Player
import Doomtown.Round
import Doomtown.Shootout
import Doomtown.Zone

/-!
# The board

All that the rules know of the game: cards, players, zones, the round and the shootout in
progress. A card's `location` and the zone lists are kept in step by the moves of
`Doomtown.Board.Move`.
-/

namespace Doomtown

/-- The state of the game. -/
structure Board where
  cards : IdMap .card Card
  players : List Player
  privateZones : List (PlayerId × PrivateZones)
  playArea : Zone
  round : RoundState
  /-- The shootout in progress, if any. -/
  shootout : Option Shootout
  /-- The number of the next card. -/
  nextNumber : Nat
  /-- The timestamp of the latest event. -/
  clock : Nat

/-- Change the first item that passes a test. -/
def modifyFirst {α : Type} (p : α → Bool) (f : α → α) : List α → List α
  | [] => []
  | a :: rest => if p a then f a :: rest else a :: modifyFirst p f rest

namespace Board

/-- A game of two players, of whom the first is active. The play area belongs to a third number,
which no player has. -/
def twoPlayer (first second : String) (ghostRock : Nat) : Board where
  cards := .empty
  players := [.new ⟨0⟩ first ghostRock, .new ⟨1⟩ second ghostRock]
  privateZones := [(⟨0⟩, .new ⟨0⟩), (⟨1⟩, .new ⟨1⟩)]
  playArea := .new .playArea ⟨2⟩
  round := .new ⟨0⟩
  shootout := none
  nextNumber := 3
  clock := 0

/-! ## Cards and players -/

/-- The card of a number. -/
def card? (b : Board) (c : CardId) : Option Card := b.cards.get? c

/-- Whether a card exists and passes a test. -/
def cardIs (b : Board) (c : CardId) (test : Card → Bool) : Bool := (b.card? c).any test

/-- The player of a number. -/
def player? (b : Board) (p : PlayerId) : Option Player := b.players.find? (·.id = p)

/-- The seat of a player, counted from zero. -/
def seat? (b : Board) (p : PlayerId) : Option Nat := b.players.findIdx? (·.id = p)

/-- All players but one. -/
def opponentsOf (b : Board) (p : PlayerId) : List Player := b.players.filter (·.id ≠ p)

/-- The player who acts first this round. -/
def activePlayer (b : Board) : PlayerId := b.round.activePlayer

/-- How many seats after the active player a player sits; a player without a seat comes after
all others. -/
def seatDistance (b : Board) (p : PlayerId) : Nat :=
  let seats := max b.players.length 1
  match b.seat? b.activePlayer, b.seat? p with
  | some active, some seat => (seat + seats - active) % seats
  | _, _ => seats

/-- A player as messages name it. -/
def playerName (b : Board) (p : PlayerId) : String :=
  match b.player? p with
  | some player => player.name
  | none => s!"player {p.text}"

/-- A card as messages name it. -/
def cardTitle (b : Board) (c : CardId) : String :=
  match b.card? c with
  | some card => card.title
  | none => s!"card {c.text}"

/-! ## Zones -/

/-- The private zones of a player. -/
def privateZones? (b : Board) (p : PlayerId) : Option PrivateZones :=
  (b.privateZones.find? (·.1 = p)).map (·.2)

/-- The zone in which cards of an owner stand at a location. -/
def zone? (b : Board) (owner : PlayerId) : Location → Option Zone
  | .playArea => some b.playArea
  | l => (b.privateZones? owner).bind (·.at? l)

/-- Change the zone in which cards of an owner stand at a location, if there is one. -/
def modifyZone (b : Board) (owner : PlayerId) (f : Zone → Zone) : Location → Board
  | .playArea => { b with playArea := f b.playArea }
  | l => { b with
      privateZones := modifyFirst (·.1 = owner) (fun z => (z.1, z.2.modify f l)) b.privateZones }

/-- The cards at a location: in zone order, and for private zones player after player. -/
def cardsIn (b : Board) : Location → List CardId
  | .playArea => b.playArea.cards
  | l => b.privateZones.flatMap fun z => match z.2.at? l with
    | some zone => zone.cards
    | none => []

/-- Whether a card is in its owner's hand and the player is that owner. -/
def isPlayable (b : Board) (c : CardId) (p : PlayerId) : Bool :=
  b.cardIs c fun card => card.location = .hand && card.owner = p

/-! ## Round and shootout -/

/-- Whether some opponent of the player has a cheatin' hand. -/
def hasCheatinOpponent (b : Board) (p : PlayerId) : Bool := (b.opponentsOf p).any (·.cheatin)

/-- Whether shootout plays are being made in a shootout. -/
def isShootoutPlayWindow (b : Board) : Bool :=
  b.shootout.isSome && b.round.isOpen .shootoutPlays

/-- Whether a card is in the shootout. -/
def isParticipating (b : Board) (c : CardId) : Bool := b.shootout.any (·.contains c)

end Board

end Doomtown
