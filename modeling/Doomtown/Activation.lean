import Doomtown.Cost
import Doomtown.Event

/-!
# Activations

The record of one use of an ability, from the check of its legality to its end.
-/

namespace Doomtown

/-- How far an activation has come. The stages follow each other in this order, except that
`deactivated` is an end that only `costsPaid` leads to. -/
inductive ActivationStage where
  | idle | legalityChecked | costsPaid | deactivated
  | targetsResolved | executed | eventEmitted | completed
deriving DecidableEq

namespace ActivationStage

/-- The place of a stage in the order of stages. -/
def rank : ActivationStage → Nat
  | idle => 0
  | legalityChecked => 1
  | costsPaid => 2
  | deactivated => 3
  | targetsResolved => 4
  | executed => 5
  | eventEmitted => 6
  | completed => 7

/-- Whether an activation at this stage has ended. -/
def isTerminal : ActivationStage → Bool
  | completed | deactivated => true
  | idle | legalityChecked | costsPaid | targetsResolved | executed | eventEmitted => false

end ActivationStage

/-- What was chosen for a target slot. -/
inductive ChosenTarget where
  | player (id : PlayerId)
  | card (id : CardId)
deriving DecidableEq

/-- One use of an ability. -/
structure Activation where
  ability : AbilityId
  source : CardId
  player : PlayerId
  /-- The event that set the ability off, if one did. -/
  event : Option GameEvent
  /-- What was chosen for each slot so far, in the order of choosing. -/
  targets : List (String × ChosenTarget)
  receipts : List CostReceipt
  /-- Which of the ability's alternatives was picked when it was offered. -/
  choice : Option Nat
  stage : ActivationStage
  /-- It ended without effect, its costs unpaid or its targets gone. -/
  cancelled : Bool
  /-- Its player took the payment back. -/
  deactivated : Bool
  /-- The prompt for a target that is open or waiting. -/
  prompt : Option StepId
deriving DecidableEq

namespace Activation

/-- An activation that nothing was done for yet. -/
def new (ability : AbilityId) (source : CardId) (player : PlayerId) (event : Option GameEvent) :
    Activation where
  ability := ability
  source := source
  player := player
  event := event
  targets := []
  receipts := []
  choice := none
  stage := .idle
  cancelled := false
  deactivated := false
  prompt := none

/-- What was chosen for a slot. -/
def target? (x : Activation) (slot : String) : Option ChosenTarget :=
  (x.targets.find? (·.1 = slot)).map (·.2)

/-- The card chosen for a slot. -/
def targetCard? (x : Activation) (slot : String) : Option CardId :=
  match x.target? slot with
  | some (.card c) => some c
  | some (.player _) | none => none

/-- The player chosen for a slot. -/
def targetPlayer? (x : Activation) (slot : String) : Option PlayerId :=
  match x.target? slot with
  | some (.player p) => some p
  | some (.card _) | none => none

/-- The first player chosen for any slot. -/
def chosenPlayer? (x : Activation) : Option PlayerId :=
  x.targets.findSome? fun t => match t.2 with
    | .player p => some p
    | .card _ => none

/-- Whether something was chosen for a slot. -/
def hasTarget (x : Activation) (slot : String) : Bool := (x.target? slot).isSome

/-- Note what was chosen for a slot. -/
def choose (x : Activation) (slot : String) (t : ChosenTarget) : Activation :=
  { x with targets := x.targets ++ [(slot, t)] }

/-- Whether the activation can still go on. -/
def isLive (x : Activation) : Bool := !x.cancelled && !x.deactivated && !x.stage.isTerminal

end Activation

end Doomtown
