import Doomtown.Cost

/-!
# Errors

The reasons for which an operation of the rules fails. `RulesError.message` gives each its words.
-/

namespace Doomtown

/-- Why an action is refused. -/
inductive Refusal where
  /-- The cost cannot be paid. -/
  | costUnpayable (cost : Cost)
  /-- Together with others, some cost of the ability cannot be paid. -/
  | costsUnaffordable (ability : String)
  /-- The payment cannot be taken back. -/
  | receiptFinal (receipt : CostReceipt)
  /-- The zone that should list the card does not. -/
  | notListed (card : CardId) (location : Location)
  | lacksGhostRock (player : PlayerId) (amount : Nat)
  /-- An ability that an event should set off names no event. -/
  | noTrigger (ability : String)
  | unknownTitle (title : String)
  | noPlayerChosen
  /-- A prompt waits for an answer and is not a step to run. -/
  | promptUnanswered
  | noDecisionMaker (player : PlayerId)
  | invalidOption (player : PlayerId) (choice : Nat) (prompt : String)
  /-- A card's own reason. -/
  | because (reason : String)
deriving DecidableEq

/-- The refusal in words. -/
def Refusal.message : Refusal → String
  | costUnpayable cost => s!"{cost.describe} cannot be paid"
  | costsUnaffordable ability => s!"costs for '{ability}' are not affordable"
  | receiptFinal receipt => s!"{receipt.tag} cannot be unpaid"
  | notListed card location => s!"Card {card.text} not found in {location.name}"
  | lacksGhostRock player amount => s!"player {player.text} cannot pay {amount} ghost rock"
  | noTrigger ability => s!"triggered ability '{ability}' listens to no event"
  | unknownTitle title => s!"unknown card '{title}'"
  | noPlayerChosen => "no player chosen"
  | promptUnanswered => "prompt steps are answered, not run"
  | noDecisionMaker player => s!"no decision maker for player {player.text}"
  | invalidOption player choice prompt =>
    s!"player {player.text} picked invalid option {choice} for '{prompt}'"
  | because reason => reason

/-- Why an operation fails. -/
inductive RulesError where
  /-- Nothing has the number. -/
  | unknownId (number : Nat)
  /-- The ability would have nothing to run. -/
  | nothingToRun (ability : String)
  | refused (why : Refusal)
  /-- A payment failed although every cost was affordable by itself. -/
  | paymentFailed (ability : String) (cause : RulesError)
deriving DecidableEq

/-- The error in words. -/
def RulesError.message : RulesError → String
  | unknownId number => s!"Entity not found: {number}"
  | nothingToRun ability => s!"Ability '{ability}' must define a handler or choices"
  | refused why => s!"Invalid game action: {why.message}"
  | paymentFailed ability cause =>
    s!"Cost invariant violated while activating '{ability}': {cause.message}"

end Doomtown
