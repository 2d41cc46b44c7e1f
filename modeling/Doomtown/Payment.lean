import Doomtown.Activation
import Doomtown.Board.Move

/-!
# Payment

Costs are paid in order, all or none: if one fails, those before it are reverted in reverse
order. Only boots can be taken back later, by the player who paid them.
-/

namespace Doomtown

open Play

/-! ## One cost -/

namespace Cost

/-- Whether a card in play can be booted. -/
def canBoot (b : Board) (c : CardId) : Bool :=
  b.cardIs c fun card => !card.booted && card.location = .playArea

/-- Whether a cost can be paid by itself. -/
def canPay (b : Board) (x : Activation) : Cost → Bool
  | bootSelf => canBoot b x.source
  | bootCard c => canBoot b c
  | payGhostRock amount => (b.player? x.player).any (·.canSpend amount)
  | discardSelf => b.cardIs x.source (·.location ≠ .discardPile)
  | aceSelf => b.cardIs x.source (·.location ≠ .deadPile)
  | playAction => b.cardIs x.source (·.location = .hand)

/-- Boot a card as payment. -/
def payBoot (c : CardId) : Play Board CostReceipt := do
  Board.boot c
  answer (.booted c)

/-- Move a card as payment. -/
def payMove (c : CardId) (destination : Location) : Play Board CostReceipt := do
  let origin ← Board.moveCard c destination
  answer (.moved c origin destination)

/-- Pay a cost. -/
def pay (cost : Cost) (x : Activation) : Play Board CostReceipt := do
  if !(cost.canPay (← look) x) then fail (.refused (.costUnpayable cost))
  match cost with
  | bootSelf => payBoot x.source
  | bootCard c => payBoot c
  | payGhostRock amount =>
    Board.spend x.player amount
    answer (.ghostRockSpent x.player amount)
  | discardSelf => payMove x.source .discardPile
  | aceSelf => payMove x.source .deadPile
  | playAction => payMove x.source .beingPlayed

end Cost

namespace CostReceipt

/-- Whether the payment can be taken back now. -/
def canUnpay (b : Board) : CostReceipt → Bool
  | booted c => b.cardIs c (·.booted)
  | ghostRockSpent .. | moved .. => false

/-- Undo what the payment did, whatever it was. -/
def revert : CostReceipt → Play Board Unit
  | booted c => Board.unboot c
  | ghostRockSpent player amount => Board.gain player amount
  | moved c origin _ => discard (Board.moveCard c origin)

/-- Take a payment back. -/
def unpay (r : CostReceipt) : Play Board Unit := do
  if !(r.canUnpay (← look)) then fail (.refused (.receiptFinal r))
  r.revert

end CostReceipt

/-! ## All costs of an ability -/

namespace Payment

/-- Whether each cost can be paid by itself. -/
def canPayAll (b : Board) (x : Activation) (costs : List Cost) : Bool := costs.all (·.canPay b x)

/-- Revert payments, the latest first; the list has the latest first. -/
def revertAll : List CostReceipt → Play Board Unit
  | [] => answer ()
  | r :: rest => do
    r.revert
    revertAll rest

/-- Pay costs one after the other, with the receipts of those before, the latest first. -/
def payFrom (ability : String) (x : Activation) (paid : List CostReceipt) :
    List Cost → Play Board (List CostReceipt)
  | [] => answer paid.reverse
  | cost :: rest => do
    match ← attempt (cost.pay x) with
    | .ok receipt => payFrom ability x (receipt :: paid) rest
    | .error cause =>
      revertAll paid
      fail (.paymentFailed ability cause)

/-- Pay all costs, or none. -/
def payAll (ability : String) (x : Activation) (costs : List Cost) :
    Play Board (List CostReceipt) := do
  if !(canPayAll (← look) x costs) then fail (.refused (.costsUnaffordable ability))
  payFrom ability x [] costs

/-- Whether each payment can be taken back now. -/
def canUnpayAll (b : Board) (receipts : List CostReceipt) : Bool := receipts.all (·.canUnpay b)

/-- Take payments back in the order of the list. -/
def unpayEach : List CostReceipt → Play Board Unit
  | [] => answer ()
  | r :: rest => do
    r.unpay
    unpayEach rest

/-- Take payments back, the latest first. -/
def unpayAll (receipts : List CostReceipt) : Play Board Unit := unpayEach receipts.reverse

end Payment

end Doomtown
