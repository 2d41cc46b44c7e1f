import Doomtown.Script

/-!
# Abilities

What a card lets its players do: when it can be used, what it costs, what it is aimed at, and
the script that it runs.
-/

namespace Doomtown

/-- A test of the game in the middle of an activation. -/
abbrev Condition := Board → Activation → Bool

/-- A test of the game when an event has fired. -/
abbrev EventCondition := Board → GameEvent → Bool

/-- What an activation does. -/
abbrev Effect := Activation → Script

/-! ## Targets -/

/-- What can be chosen for a target slot. -/
inductive TargetPool where
  | players (filter : Board → Activation → Player → Bool)
  | cards (location : Location) (filter : Board → Activation → Card → Bool)

/-- Something that has to be chosen before the effect. -/
structure TargetSlot where
  name : String
  pool : TargetPool

namespace TargetSlot

/-- All that can be chosen for the slot, in board order. -/
def choices (s : TargetSlot) (b : Board) (x : Activation) : List ChosenTarget :=
  match s.pool with
  | .players filter => (b.players.filter (filter b x)).map fun p => .player p.id
  | .cards location filter =>
    ((b.cardsIn location).filter fun c => b.cardIs c (filter b x)).map .card

/-- Whether anything can be chosen for the slot. -/
def isFillable (s : TargetSlot) (b : Board) (x : Activation) : Bool := !(s.choices b x).isEmpty

end TargetSlot

/-! ## Abilities -/

/-- An ability of a card. -/
structure Ability where
  source : CardId
  sourceType : CardType
  title : String
  kind : AbilityKind
  /-- The plays that an action can be. -/
  playTypes : List PlayType
  /-- Where the card has to be. -/
  locations : List Location
  costs : List Cost
  limit : Option AbilityLimit
  /-- Whether players other than the card's controller may use an action. -/
  anyPlayer : Bool
  /-- Whether the limit does not stop the ability from being used. -/
  allowUsed : Bool
  /-- Whether restrictions on card abilities apply. -/
  cardAbility : Bool
  /-- Whether a click on the card starts the action. -/
  clickToActivate : Bool
  condition : Condition
  /-- An action whose effect does not come about fails with `failMessage`. -/
  effectCondition : Condition
  failMessage : String
  message : Option String
  messageArgs : Board → Activation → List MessageArg
  /-- The events that set the ability off. -/
  triggers : List (EventName × EventCondition)
  targets : List TargetSlot
  /-- Who uses the ability for an event, if not the card's controller. -/
  responsible : Option (Board → GameEvent → Option PlayerId)
  promptTitle : Option (Board → Activation → String)
  handler : Option Effect
  /-- Labelled alternatives, of which one is picked when the ability is offered. -/
  alternatives : List (String × Effect)
  /-- The last thing that is checked before the ability can be used. -/
  permission : Condition

namespace Ability

/-- Whether the ability is an action. -/
def isAction (a : Ability) : Bool := a.kind = .action

/-- Whether a click on the card starts the ability. -/
def isClickable (a : Ability) : Bool := a.isAction && a.clickToActivate

/-- Whether the ability is an action of an action card that is played from hand. -/
def isPlayedFromHand (a : Ability) : Bool :=
  a.isAction && a.sourceType = .action && a.locations.contains .hand

/-- Whether the ability can be used while its card is at a location. -/
def listensIn (a : Ability) (l : Location) : Bool := a.locations.contains l

/-- Whether events of a name can set the ability off. -/
def listensTo (a : Ability) (event : EventName) : Bool := a.triggers.any (·.1 = event)

/-- Whether an event sets the ability off. -/
def accepts (a : Ability) (b : Board) (event : GameEvent) : Bool :=
  a.triggers.any fun t => t.1 = event.name && t.2 b event

/-- Who uses the ability for an event. -/
def responsibleFor (a : Ability) (b : Board) (event : GameEvent) : Option PlayerId :=
  match a.responsible with
  | some select => select b event
  | none => (b.card? a.source).map (·.controller)

/-- The question that offers the ability. -/
def offerTitle (a : Ability) (b : Board) (x : Activation) : String :=
  match a.promptTitle with
  | some title => title b x
  | none =>
    let card := match b.card? a.source with
      | some card => card.title
      | none => a.title
    if a.kind = .reaction then s!"Use {card}?" else s!"Trigger {card}?"

/-- What an activation does: the alternative that was picked, or else the handler. -/
def effect? (a : Ability) (x : Activation) : Option Effect :=
  match x.choice with
  | some n => (a.alternatives[n]?).map (·.2)
  | none => a.handler

/-- Whether there is something to choose for every slot. -/
def hasTargets (a : Ability) (b : Board) (x : Activation) : Bool :=
  a.targets.all (·.isFillable b x)

/-- The subscriptions that the ability has while it is registered, oldest first: the reset of its
counter, the end of retraction for an action, and one for each event that sets it off. -/
def subscriptions (a : Ability) : List (EventName × Listener) :=
  (match a.limit with
    | some limit => [(limit.period.resetEvent, .resetUsage)]
    | none => []) ++
  (if a.isAction then [(.beginRound, .clearActivations)] else []) ++
  a.triggers.map fun t => (t.1, .trigger)

/-- The ability of a number as traces show it. -/
def tag (a : Ability) (id : AbilityId) : String :=
  Text.fields "Ability" [
    ("id", id.tag),
    ("source", a.source.tag),
    ("title", Text.quoted a.title),
    ("kind", a.kind.tag),
    ("play_types", Text.listed (a.playTypes.map (·.tag))),
    ("locations", Text.listed (a.locations.map (·.tag))),
    ("costs", Text.listed (a.costs.map (·.tag))),
    ("limit", Text.optional (a.limit.map fun l =>
      Text.fields "AbilityLimit" [("max", toString l.max), ("period", l.period.tag)])),
    ("when", Text.listed (a.triggers.map (·.1.tag))),
    ("targets", Text.listed (a.targets.map fun t => Text.quoted t.name)),
    ("choices", Text.listed (a.alternatives.map fun c => Text.quoted c.1))]

end Ability

end Doomtown
