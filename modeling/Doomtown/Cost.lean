import Doomtown.Id
import Doomtown.Location
import Doomtown.Text.Quoted

/-!
# Costs

What a player pays to use an ability, and the receipt that a payment leaves. A receipt names all
that is needed to undo the payment.
-/

namespace Doomtown

/-- A cost of an ability. -/
inductive Cost where
  /-- Boot the ability's card. -/
  | bootSelf
  /-- Boot a certain card in play. -/
  | bootCard (card : CardId)
  | payGhostRock (amount : Nat)
  | discardSelf
  /-- Move the ability's card to the dead pile. -/
  | aceSelf
  /-- Move the ability's card from hand to where it is being played. -/
  | playAction
deriving DecidableEq

namespace Cost

/-- The cost in words. -/
def describe : Cost → String
  | bootSelf => "boot self"
  | bootCard card => s!"boot card {card.text}"
  | payGhostRock amount => s!"pay {amount} ghost rock"
  | discardSelf => "discard self"
  | aceSelf => "ace self"
  | playAction => "play action"

/-- Whether a payment of the cost can be taken back. -/
def isReversible : Cost → Bool
  | bootSelf | bootCard _ => true
  | payGhostRock _ | discardSelf | aceSelf | playAction => false

/-- Where the cost moves the ability's card, if it moves it. -/
def destination : Cost → Option Location
  | discardSelf => some .discardPile
  | aceSelf => some .deadPile
  | playAction => some .beingPlayed
  | bootSelf | bootCard _ | payGhostRock _ => none

/-- The cost as traces show it. -/
def tag : Cost → String
  | bootSelf => "BootSelf"
  | bootCard card => s!"BootCard({card.tag})"
  | payGhostRock amount => s!"PayGhostRock({amount})"
  | discardSelf => "DiscardSelf"
  | aceSelf => "AceSelf"
  | playAction => "PlayAction"

end Cost

/-- What a payment did. -/
inductive CostReceipt where
  | booted (card : CardId)
  | ghostRockSpent (player : PlayerId) (amount : Nat)
  | moved (card : CardId) (origin destination : Location)
deriving DecidableEq

namespace CostReceipt

/-- Whether a player can take the payment back. -/
def isReversible : CostReceipt → Bool
  | booted _ => true
  | ghostRockSpent .. | moved .. => false

/-- The receipt as traces show it. -/
def tag : CostReceipt → String
  | booted card => Text.fields "Booted" [("card", card.tag)]
  | ghostRockSpent player amount =>
    Text.fields "GhostRockSpent" [("player", player.tag), ("amount", toString amount)]
  | moved card origin destination =>
    Text.fields "Moved" [("card", card.tag), ("from", origin.tag), ("to", destination.tag)]

end CostReceipt

end Doomtown
