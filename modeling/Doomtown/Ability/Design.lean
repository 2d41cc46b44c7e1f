import Doomtown.Ability

/-!
# Designing abilities

A design says of an ability what is not as usual. `Design.build` attaches it to a card, with what
is usual for the card's type, and refuses a design that would have nothing to run or nothing to
set it off.
-/

namespace Doomtown

/-- An ability before it is attached to a card. -/
structure Design where
  kind : AbilityKind
  /-- The card's title unless given. -/
  title : Option String := none
  /-- Noon for actions unless given. -/
  playTypes : List PlayType := []
  /-- Where cards of its type use their abilities unless given. -/
  locations : List Location := []
  costs : List Cost := []
  limit : Option AbilityLimit := none
  anyPlayer : Bool := false
  allowUsed : Bool := false
  cardAbility : Bool := true
  clickToActivate : Bool := false
  condition : Condition := fun _ _ => true
  effectCondition : Condition := fun _ _ => true
  failMessage : String := "\x7bplayer\x7d uses \x7bsource\x7d but fails to meet requirements"
  message : Option String := none
  messageArgs : Board → Activation → List MessageArg := fun _ _ => []
  triggers : List (EventName × EventCondition) := []
  targets : List TargetSlot := []
  responsible : Option (Board → GameEvent → Option PlayerId) := none
  promptTitle : Option (Board → Activation → String) := none
  handler : Option Effect := none
  alternatives : List (String × Effect) := []
  permission : Condition := fun _ _ => true

namespace Design

/-- Whether a card's abilities need nothing to run because they resolve by rules of their own. -/
def resolvesElsewhere (card : Card) : Bool := card.type = .spell || card.hasKeyword .job

/-- What the ability runs, if it can do without alternatives. -/
def handlerOn (d : Design) (card : Card) : Option Effect :=
  match d.handler with
  | some effect => some effect
  | none =>
    if d.alternatives.isEmpty && resolvesElsewhere card then some fun _ => .done else none

/-- What the ability costs: an action card is played besides. -/
def costsOn (d : Design) (card : Card) : List Cost :=
  if d.cardAbility && card.type = .action then d.costs ++ [.playAction] else d.costs

/-- The ability of a card. -/
def build (d : Design) (card : Card) : Except RulesError Ability :=
  let title := d.title.getD card.title
  if d.kind.isTriggered && d.triggers.isEmpty then .error (.refused (.noTrigger title))
  else if (d.handlerOn card).isNone && d.alternatives.isEmpty then .error (.nothingToRun title)
  else .ok {
    source := card.id
    sourceType := card.type
    title := title
    kind := d.kind
    playTypes := if d.playTypes.isEmpty && d.kind = .action then [.noon] else d.playTypes
    locations := if d.locations.isEmpty then [card.type.naturalLocation] else d.locations
    costs := d.costsOn card
    limit := d.limit
    anyPlayer := d.anyPlayer
    allowUsed := d.allowUsed
    cardAbility := d.cardAbility
    clickToActivate := d.clickToActivate
    condition := d.condition
    effectCondition := d.effectCondition
    failMessage := d.failMessage
    message := d.message
    messageArgs := d.messageArgs
    triggers := d.triggers
    targets := d.targets
    responsible := d.responsible
    promptTitle := d.promptTitle
    handler := d.handlerOn card
    alternatives := d.alternatives
    permission := d.permission }

end Design

end Doomtown
