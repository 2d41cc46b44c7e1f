import Doomtown.Activation
import Doomtown.Board
import Doomtown.Error
import Doomtown.Message
import Doomtown.Subscription
import Doomtown.Usage

/-!
# Scripts

What a card does is written as a script: a finite tree of orders to the engine, in which each
order's reply, or a look at the game, selects how to go on. A script holds no engine, so it can
itself be put off as a step, as an answer to a prompt or as the change behind an event.
-/

namespace Doomtown

/-- Where the queue stopped. -/
inductive QueueStatus where
  | idle
  /-- A prompt waits for an answer of this player. -/
  | awaiting (player : PlayerId)
deriving DecidableEq

namespace QueueStatus

/-- The status as traces show it. -/
def tag : QueueStatus → String
  | idle => "Idle"
  | awaiting player => Text.fields "AwaitingPrompt" [("player", player.tag)]

end QueueStatus

/-- What a script sees of the game. -/
structure View where
  board : Board
  activations : IdMap .activation Activation
  registrar : Registrar
  usage : UsageTracker

/-- Something a script tells the engine to do. -/
inductive Order where
  | gain (player : PlayerId) (amount : Nat)
  | spend (player : PlayerId) (amount : Nat)
  | modifyRank (player : PlayerId) (amount : Int)
  | setCheatin (player : PlayerId) (cheatin : Bool)
  | restrict (player : PlayerId) (restriction : Restriction)
  | boot (card : CardId)
  | unboot (card : CardId)
  | sendHome (card : CardId)
  | addControl (card : CardId) (amount : Int)
  | setInfluence (card : CardId) (influence : Int)
  | setBlank (card : CardId) (blank : Bool)
  | setController (card : CardId) (player : PlayerId)
  | setPhase (phase : Phase)
  | setWindow (window : Option PlayWindow)
  | setActivePlayer (player : PlayerId)
  /-- Move a card on the board, with no regard to its abilities. -/
  | shift (card : CardId) (destination : Location)
  /-- Move a card together with the registration of its abilities. -/
  | move (card : CardId) (destination : Location)
  | message (template : String) (args : List MessageArg)
  /-- Log a line at the normal level. -/
  | note (line : String)
  | register (ability : AbilityId)
  | unregister (ability : AbilityId)
  | activate (ability : AbilityId) (player : PlayerId)
  | retract (ability : AbilityId) (player : PlayerId)
  | respond (player : PlayerId) (choice : Nat)
  /-- Go on with the queue, as far as it can go while the script runs. -/
  | resume
  /-- Withdraw a step that has not started. -/
  | withdraw (step : StepId)
  | beginRound

/-- What the engine replies to an order that succeeds. -/
def Order.Reply : Order → Type
  | activate .. | retract .. | respond .. | withdraw _ => Bool
  | resume => QueueStatus
  | gain .. | spend .. | modifyRank .. | setCheatin .. | restrict .. | boot _ | unboot _
  | sendHome _ | addControl .. | setInfluence .. | setBlank .. | setController .. | setPhase _
  | setWindow _ | setActivePlayer _ | shift .. | move .. | message .. | note _ | register _
  | unregister _ | beginRound => Unit

/-- What a card does. -/
inductive Script where
  | done
  | fail (e : RulesError)
  /-- Look at the game and go on by what is seen. -/
  | look (next : View → Script)
  /-- Give an order and go on by the reply, or by the reason for which it failed. -/
  | order (o : Order) (next : Except RulesError o.Reply → Script)
  /-- Raise an event that changes the game by `change` before abilities react. -/
  | raise (event : EventData) (change : Script) (next : Script)
  /-- Queue a step and go on with its number. -/
  | queue (label : String) (body : Script) (next : StepId → Script)
  /-- Queue a prompt, with what is done for each answer, and go on with its number. -/
  | prompt (player : PlayerId) (title : String) (buttons : List String)
      (source : Option CardId) (answers : Nat → Script) (next : StepId → Script)

namespace Script

/-- One script after the other; a failure of the first ends both. -/
def andThen (s t : Script) : Script :=
  match s with
  | done => t
  | fail e => .fail e
  | look next => .look fun v => (next v).andThen t
  | order o next => .order o fun r => (next r).andThen t
  | raise event change next => .raise event change (next.andThen t)
  | queue label body next => .queue label body fun i => (next i).andThen t
  | prompt player title buttons source answers next =>
    .prompt player title buttons source answers fun i => (next i).andThen t

/-- Scripts one after the other. -/
def sequence : List Script → Script
  | [] => done
  | s :: rest => s.andThen (sequence rest)

/-- Give an order, go on with its reply, and fail as it fails. -/
def obey (o : Order) (next : o.Reply → Script) : Script :=
  .order o fun (r : Except RulesError o.Reply) =>
    match r with
    | .ok reply => next reply
    | .error e => .fail e

/-- Give an order, and fail as it fails. -/
def just (o : Order) : Script := obey o fun _ => done

end Script

end Doomtown
