import Doomtown.Activation
import Doomtown.Board

/-!
# Clauses

The conditions of card texts as data: whom a text names, which amounts it speaks of, and what it
asks of the board. Names and amounts are resolved in a scope; a name can stand for nobody, and an
amount of somebody who does not exist is none. A clause about what cannot be resolved does not
hold.
-/

namespace Doomtown.CardText

/-- What a text can speak of: an activation, an event, and what is tested for a target slot. -/
structure Scope where
  activation : Option Activation := none
  event : Option GameEvent := none
  card : Option CardId := none
  player : Option PlayerId := none

namespace Scope

/-- The scope of an activation. -/
def ofActivation (x : Activation) : Scope := { activation := some x }

/-- The scope of an event. -/
def ofEvent (event : GameEvent) : Scope := { event := some event }

/-- The event that a text speaks of: its own, or else the one behind the activation. -/
def currentEvent (s : Scope) : Option GameEvent :=
  match s.event with
  | some event => some event
  | none => s.activation.bind (·.event)

end Scope

/-! ## Cards -/

/-- A card that a text names. -/
inductive CardRef where
  | nothing
  | number (c : CardId)
  /-- The card that the activation is of. -/
  | source
  /-- The card that is tested for a target slot. -/
  | candidate
  /-- The card that the event happened to. -/
  | ofEvent
  | target (slot : String)
  /-- The last card of a location. -/
  | top (l : Location)
  | first (l : Location)

/-- The card that is named. -/
def CardRef.resolve (b : Board) (s : Scope) : CardRef → Option CardId
  | nothing => none
  | number c => some c
  | source => s.activation.map (·.source)
  | candidate => s.card
  | ofEvent => s.currentEvent.bind (·.data.card)
  | target slot => s.activation.bind (·.targetCard? slot)
  | top l => (b.cardsIn l).getLast?
  | first l => (b.cardsIn l).head?

/-- The card on the board that is named. -/
def CardRef.find (b : Board) (s : Scope) (c : CardRef) : Option Card :=
  (c.resolve b s).bind b.card?

/-- What can be asked of a card alone. -/
inductive CardTest where
  | booted | blank | inTownSquare
  | ofType (type : CardType)
  | hasKeyword (keyword : Keyword)
  | isAt (l : Location)

/-- Whether a card is as asked. -/
def CardTest.holds (card : Card) : CardTest → Bool
  | booted => card.booted
  | blank => card.blank
  | inTownSquare => card.inTownSquare
  | ofType type => card.type = type
  | hasKeyword keyword => card.hasKeyword keyword
  | isAt l => card.location = l

/-! ## Comparing -/

/-- A comparison of two numbers. -/
inductive Comparison where
  | less | atMost | equal | unequal | atLeast | greater

/-- Whether two numbers compare so. -/
def Comparison.holds (m n : Int) : Comparison → Bool
  | less => m < n
  | atMost => m ≤ n
  | equal => m = n
  | unequal => m ≠ n
  | atLeast => m ≥ n
  | greater => m > n

/-! ## Players, amounts and clauses -/

mutual

/-- A player whom a text names. -/
inductive PlayerRef where
  | nobody
  | number (p : PlayerId)
  /-- The player of the activation. -/
  | user
  /-- The player who is tested for a target slot. -/
  | candidate
  | active
  /-- The first player chosen for any slot. -/
  | chosen
  /-- The player whose ability the event says was resolved. -/
  | ofEvent
  | target (slot : String)
  | controller (c : CardRef)
  | owner (c : CardRef)
  /-- The first opponent. -/
  | opponent (p : PlayerRef)
  | ifElse (c : Clause) (yes no : PlayerRef)

/-- An amount that a text speaks of. -/
inductive Amount where
  | ghostRock (p : PlayerRef)
  | rank (p : PlayerRef)
  | handSize (p : PlayerRef)
  | influence (c : CardRef)
  | control (c : CardRef)
  | round
  /-- The number of the round that the event says has begun. -/
  | beginningRound
  | count (l : Location)
  | seatDistance (p : PlayerRef)

/-- A condition of a text. -/
inductive Clause where
  | always
  | never
  | not (c : Clause)
  | both (c d : Clause)
  | either (c d : Clause)
  | card (c : CardRef) (test : CardTest)
  | controlled (c : CardRef) (p : PlayerRef)
  | owned (c : CardRef) (p : PlayerRef)
  | participating (c : CardRef)
  | sameCard (c d : CardRef)
  | samePlayer (p q : PlayerRef)
  | cheatin (p : PlayerRef)
  | phase (p : Phase)
  | window (w : PlayWindow)
  | headlineUsed
  | hasTarget (slot : String)
  | eventName (name : EventName)
  | eventData (data : EventData)
  | eventWindow (w : PlayWindow)
  | compare (a : Amount) (how : Comparison) (n : Int)

end

mutual

/-- The player who is named. -/
def PlayerRef.resolve (b : Board) (s : Scope) : PlayerRef → Option PlayerId
  | .nobody => none
  | .number p => some p
  | .user => s.activation.map (·.player)
  | .candidate => s.player
  | .active => some b.activePlayer
  | .chosen => s.activation.bind (·.chosenPlayer?)
  | .ofEvent =>
    match s.currentEvent.map GameEvent.data with
    | some (.abilityResolved _ _ p) => some p
    | _ => none
  | .target slot => s.activation.bind (·.targetPlayer? slot)
  | .controller c => (c.find b s).map (·.controller)
  | .owner c => (c.find b s).map (·.owner)
  | .opponent p => do ((b.opponentsOf (← p.resolve b s)).head?).map (·.id)
  | .ifElse c yes no => if c.holds b s then yes.resolve b s else no.resolve b s

/-- The amount, if there is one. -/
def Amount.value (b : Board) (s : Scope) : Amount → Option Int
  | .ghostRock p => do some (Int.ofNat (← b.player? (← p.resolve b s)).ghostRock)
  | .rank p => do some (← b.player? (← p.resolve b s)).totalRank
  | .handSize p => do some (Int.ofNat (← b.privateZones? (← p.resolve b s)).hand.cards.length)
  | .influence c => (c.find b s).map (·.influence)
  | .control c => (c.find b s).map (·.control)
  | .round => some (Int.ofNat b.round.number)
  | .beginningRound =>
    match s.currentEvent.map GameEvent.data with
    | some (.beginRound n) => some (Int.ofNat n)
    | _ => none
  | .count l => some (Int.ofNat (b.cardsIn l).length)
  | .seatDistance p => do some (Int.ofNat (b.seatDistance (← p.resolve b s)))

/-- Whether a condition is met. -/
def Clause.holds (b : Board) (s : Scope) : Clause → Bool
  | .always => true
  | .never => false
  | .not c => !c.holds b s
  | .both c d => c.holds b s && d.holds b s
  | .either c d => c.holds b s || d.holds b s
  | .card c test => (c.find b s).any test.holds
  | .controlled c p => (c.find b s).any fun card => p.resolve b s = some card.controller
  | .owned c p => (c.find b s).any fun card => p.resolve b s = some card.owner
  | .participating c => (c.resolve b s).any b.isParticipating
  | .sameCard c d => (c.resolve b s).isSome && c.resolve b s = d.resolve b s
  | .samePlayer p q => (p.resolve b s).isSome && p.resolve b s = q.resolve b s
  | .cheatin p => ((p.resolve b s).bind b.player?).any (·.cheatin)
  | .phase p => b.round.phase = p
  | .window w => b.round.isOpen w
  | .headlineUsed => b.round.headlineUsed
  | .hasTarget slot => s.activation.any (·.hasTarget slot)
  | .eventName name => s.currentEvent.any (·.name = name)
  | .eventData data => s.currentEvent.any (·.data = data)
  | .eventWindow w => s.currentEvent.any (·.data.window = some w)
  | .compare a how n =>
    match a.value b s with
    | some m => how.holds m n
    | none => false

end

end Doomtown.CardText
