import Doomtown.Id

/-!
# Players

A player's ghost rock, draw hand and the effects that keep the player from using abilities.
-/

namespace Doomtown

/-- When and how an ability is used. -/
inductive AbilityKind where
  /-- Its player starts it from a menu. -/
  | action
  /-- Offered when its event fires, unless reactions are forbidden. -/
  | reaction
  /-- Resolves by itself whenever its event fires. -/
  | forced
  /-- Offered when its event fires. -/
  | prompted
deriving DecidableEq

namespace AbilityKind

/-- Whether an event sets the ability off. -/
def isTriggered : AbilityKind → Bool
  | action => false
  | reaction | forced | prompted => true

/-- Whether the ability resolves without being offered. -/
def isForced : AbilityKind → Bool
  | forced => true
  | action | reaction | prompted => false

/-- Whether the ability is offered to a player. -/
def isPrompted : AbilityKind → Bool
  | reaction | prompted => true
  | action | forced => false

/-- The kind as traces name it. -/
def tag : AbilityKind → String
  | action => "Action"
  | reaction => "Reaction"
  | forced => "ForcedTrigger"
  | prompted => "PromptedTrigger"

end AbilityKind

/-- An effect that keeps a player from using abilities. -/
inductive Restriction where
  /-- No card ability at all. -/
  | cardAbilities
  /-- No reaction. -/
  | reactions
  /-- No ability of this card. -/
  | abilitiesOf (card : CardId)
deriving DecidableEq

/-- Whether a restriction forbids abilities of a kind on a card. -/
def Restriction.forbids (kind : AbilityKind) (source : CardId) : Restriction → Bool
  | cardAbilities => true
  | reactions => kind = .reaction
  | abilitiesOf card => card = source

/-- A player of the game. -/
structure Player where
  id : PlayerId
  name : String
  ghostRock : Nat
  /-- Whether the current draw hand is cheatin'. -/
  cheatin : Bool
  /-- Rank of the current draw hand before modifiers. -/
  handRank : Int
  /-- Sum of the modifiers to the rank. -/
  rankModifier : Int
  restrictions : List Restriction
deriving DecidableEq

namespace Player

/-- A player at the start of a game. -/
def new (id : PlayerId) (name : String) (ghostRock : Nat) : Player where
  id := id
  name := name
  ghostRock := ghostRock
  cheatin := false
  handRank := 0
  rankModifier := 0
  restrictions := []

/-- Whether the player has this much ghost rock. -/
def canSpend (p : Player) (amount : Nat) : Bool := amount ≤ p.ghostRock

/-- Take ghost rock away. -/
def spend (p : Player) (amount : Nat) : Player := { p with ghostRock := p.ghostRock - amount }

/-- Add ghost rock. -/
def gain (p : Player) (amount : Nat) : Player := { p with ghostRock := p.ghostRock + amount }

/-- Add a modifier to the rank of the draw hand. -/
def modifyRank (p : Player) (amount : Int) : Player :=
  { p with rankModifier := p.rankModifier + amount }

/-- Add a restriction. -/
def restrict (p : Player) (r : Restriction) : Player :=
  { p with restrictions := p.restrictions ++ [r] }

/-- The rank of the draw hand with its modifiers, at least one. -/
def totalRank (p : Player) : Int := max (p.handRank + p.rankModifier) 1

/-- Whether no restriction forbids the player an ability of a kind on a card. -/
def canTrigger (p : Player) (kind : AbilityKind) (source : CardId) : Bool :=
  !p.restrictions.any (·.forbids kind source)

end Player

end Doomtown
