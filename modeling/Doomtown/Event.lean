import Doomtown.Location
import Doomtown.Round

/-!
# Events

What can happen in a game that abilities react to.
-/

namespace Doomtown

/-- The names that abilities subscribe to. -/
inductive EventName where
  | beginRound | phaseStarted | phaseEnded | playWindowOpened | playWindowClosed
  | drawHandsRevealed | abilityResolved | cardEnteredPlay | cardLeftPlay | shootoutFinished
deriving DecidableEq

/-- The name as traces show it. -/
def EventName.tag : EventName → String
  | beginRound => "BeginRound"
  | phaseStarted => "PhaseStarted"
  | phaseEnded => "PhaseEnded"
  | playWindowOpened => "PlayWindowOpened"
  | playWindowClosed => "PlayWindowClosed"
  | drawHandsRevealed => "DrawHandsRevealed"
  | abilityResolved => "AbilityResolved"
  | cardEnteredPlay => "CardEnteredPlay"
  | cardLeftPlay => "CardLeftPlay"
  | shootoutFinished => "ShootoutFinished"

/-- What happened. -/
inductive EventData where
  | beginRound (round : Nat)
  | phaseStarted (phase : Phase)
  | phaseEnded (phase : Phase)
  | playWindowOpened (window : PlayWindow)
  | playWindowClosed (window : PlayWindow)
  /-- The draw hands are shown, for a shootout or for lowball. -/
  | drawHandsRevealed (shootout : Bool)
  | abilityResolved (ability : AbilityId) (source : CardId) (player : PlayerId)
  | cardEnteredPlay (card : CardId) (origin : Location)
  | cardLeftPlay (card : CardId) (destination : Location)
  | shootoutFinished
deriving DecidableEq

namespace EventData

/-- The name under which abilities subscribe to the event. -/
def name : EventData → EventName
  | beginRound .. => .beginRound
  | phaseStarted .. => .phaseStarted
  | phaseEnded .. => .phaseEnded
  | playWindowOpened .. => .playWindowOpened
  | playWindowClosed .. => .playWindowClosed
  | drawHandsRevealed .. => .drawHandsRevealed
  | abilityResolved .. => .abilityResolved
  | cardEnteredPlay .. => .cardEnteredPlay
  | cardLeftPlay .. => .cardLeftPlay
  | shootoutFinished => .shootoutFinished

/-- The window that was opened or closed. -/
def window : EventData → Option PlayWindow
  | playWindowOpened w | playWindowClosed w => some w
  | beginRound .. | phaseStarted .. | phaseEnded .. | drawHandsRevealed .. | abilityResolved ..
  | cardEnteredPlay .. | cardLeftPlay .. | shootoutFinished => none

/-- The card that the event is about. -/
def card : EventData → Option CardId
  | abilityResolved _ source _ => some source
  | cardEnteredPlay card _ | cardLeftPlay card _ => some card
  | beginRound .. | phaseStarted .. | phaseEnded .. | playWindowOpened .. | playWindowClosed ..
  | drawHandsRevealed .. | shootoutFinished => none

end EventData

/-- An event that was raised; a later one has a higher timestamp. -/
structure GameEvent where
  timestamp : Nat
  data : EventData
deriving DecidableEq

/-- The name under which abilities subscribe to the event. -/
def GameEvent.name (e : GameEvent) : EventName := e.data.name

end Doomtown
