/-!
# Identifiers

Players, cards, abilities, activations, steps and subscriptions are all told apart by a number.
`Id k` is the number of a thing of kind `k`, so that a card's number is never taken for a
player's. Players and cards draw their numbers from one counter of the board; the other kinds
count from zero, each on its own.
-/

namespace Doomtown

/-- The kinds of thing that have a number. -/
inductive Kind where
  | player | card | ability | activation | step | subscription
deriving DecidableEq

/-- The number of a thing of kind `k`. -/
structure Id (k : Kind) where
  number : Nat
deriving DecidableEq

/-- The number of a player. -/
abbrev PlayerId := Id .player

/-- The number of a card. -/
abbrev CardId := Id .card

/-- The number of an ability. -/
abbrev AbilityId := Id .ability

/-- The number of an activation. -/
abbrev ActivationId := Id .activation

/-- The number of a step. -/
abbrev StepId := Id .step

/-- The number of a subscription. -/
abbrev SubscriptionId := Id .subscription

namespace Id

variable {k : Kind}

/-- The number alone, as it stands in messages. -/
def text (i : Id k) : String := toString i.number

/-- The number behind a hash sign, as it stands in traces. -/
def tag (i : Id k) : String := "#" ++ i.text

/-- Numbers order things of one kind by age. -/
def compare (i j : Id k) : Ordering := Ord.compare i.number j.number

theorem number_injective {i j : Id k} (h : i.number = j.number) : i = j := by
  cases i; cases j; exact congrArg Id.mk h

/-- What is listed by ascending numbers is not listed twice. -/
theorem nodup_of_ascending {l : List (Id k)} (h : l.Pairwise fun i j => i.number < j.number) :
    l.Nodup :=
  h.imp fun hlt heq => Nat.ne_of_lt hlt (congrArg Id.number heq)

end Id

end Doomtown
