import Doomtown.Ability
import Doomtown.Payment

/-!
# Legality

Whether an ability can be used now. The checks stand in a fixed order, and the first that fails
names the reason.
-/

namespace Doomtown

/-- The first check that failed. -/
inductive Illegal where
  | playType | location | headline | playerRestricted | usedUp | notAllowedPlayer | blank
  | defaultCondition | condition | unresolvablePlayer | unaffordable | noTargets
  | effectDisallowed
deriving DecidableEq

/-- The reason as traces name it. -/
def Illegal.tag : Illegal → String
  | playType => "PlayType"
  | location => "Location"
  | headline => "Headline"
  | playerRestricted => "PlayerRestricted"
  | usedUp => "UsedUp"
  | notAllowedPlayer => "NotAllowedPlayer"
  | blank => "Blank"
  | defaultCondition => "DefaultCondition"
  | condition => "Condition"
  | unresolvablePlayer => "UnresolvablePlayer"
  | unaffordable => "Unaffordable"
  | noTargets => "NoTargets"
  | effectDisallowed => "EffectDisallowed"

namespace Legality

/-! ## The checks -/

/-- Whether an action is a play of the open window. -/
def fitsWindow (b : Board) (a : Ability) : Bool :=
  !a.isAction || b.round.window.any fun w => a.playTypes.any (·.allowedIn w)

/-- Whether the card is where the ability is used: an action card in the player's own hand, any
other card at a location of the ability. -/
def isInPlace (b : Board) (a : Ability) (card : Card) (x : Activation) : Bool :=
  if card.type = .action && a.cardAbility then b.isPlayable card.id x.player
  else a.listensIn card.location

/-- Whether the player may use the ability: a triggered one if it falls to the player for its
event, any other as the card's controller or if it is open to all. -/
def isAllowed (b : Board) (a : Ability) (card : Card) (x : Activation) : Bool :=
  match a.isAction, x.event with
  | false, some event => a.responsibleFor b event = some x.player
  | _, _ => card.controller = x.player || a.anyPlayer

/-- What holds for every action of its kind: a cheatin' resolution needs a cheatin' opponent, and
a shootout play of a dude, goods or spell needs the card in the shootout unless it joins it. -/
def meetsDefault (b : Board) (a : Ability) (card : Card) (x : Activation) : Bool :=
  if !a.isAction then true
  else if a.playTypes.contains .cheatinResolution then b.hasCheatinOpponent card.controller
  else if b.isShootoutPlayWindow && !a.playTypes.contains .shootoutJoin &&
      card.type.takesPartInShootouts then
    b.isParticipating x.source
  else true

/-- Whether there is a player to use the ability. -/
def hasPlayer (b : Board) (a : Ability) (x : Activation) : Bool :=
  (b.player? x.player).isSome &&
    match a.responsible, x.event with
    | some select, some event => (select b event).isSome
    | _, _ => true

/-! ## All checks -/

/-- Go on if a check holds. -/
def require (holds : Bool) (reason : Illegal) : Except Illegal Unit :=
  if holds then .ok () else .error reason

/-- Check an activation of an ability; the error is the first check that fails. -/
def check (b : Board) (usage : UsageTracker) (a : Ability) (x : Activation) :
    Except Illegal Unit :=
  match b.card? a.source with
  | none => .error .location
  | some card => do
    require (fitsWindow b a) .playType
    require (isInPlace b a card x) .location
    require (!(card.hasKeyword .headline && b.round.headlineUsed)) .headline
    match b.player? x.player with
    | none => .error .unresolvablePlayer
    | some player => do
      require (!a.cardAbility || player.canTrigger a.kind a.source) .playerRestricted
      require (a.allowUsed || !usage.isUsed x.ability) .usedUp
      require (isAllowed b a card x) .notAllowedPlayer
      require (!card.blank) .blank
      require (meetsDefault b a card x) .defaultCondition
      require (a.condition b x) .condition
      require (hasPlayer b a x) .unresolvablePlayer
      require (Payment.canPayAll b x a.costs) .unaffordable
      require (a.hasTargets b x) .noTargets
      require (a.permission b x) .effectDisallowed

/-- Whether every check holds. -/
def isLegal (b : Board) (usage : UsageTracker) (a : Ability) (x : Activation) : Bool :=
  (check b usage a x).isOk

end Legality

end Doomtown
