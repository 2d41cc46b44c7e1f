import Doomtown.Engine.Run

/-!
# Menus and clicks

How actions are shown to a player, and how a click on a card starts one.
-/

namespace Doomtown

/-- An entry of a menu. -/
structure MenuItem where
  text : String
  method : String
  arg : String
  anyPlayer : Bool
  disabled : Bool
deriving DecidableEq

namespace Engine

open Play

/-- The menu entry of an ability. It is disabled unless the player can start it now. -/
def menuItem (a : AbilityId) (arg : String) (p : PlayerId) : Play Engine MenuItem := do
  let ability ← getAbility a
  answer {
    text := ability.title
    method := "doAction"
    arg := arg
    anyPlayer := ability.anyPlayer
    disabled := !(← look).canActivate a p }

/-- The action that a click on a card starts: the first that clicks start and that the player can
start now. -/
def clickAction? (e : Engine) (c : CardId) (p : PlayerId) : Option AbilityId :=
  (e.abilitiesOf c).find? fun a => (e.ability? a).any (·.isClickable) && e.canActivate a p

/-- Click on a card: false if that starts nothing. -/
def click (fuel : Nat) (c : CardId) (p : PlayerId) : Play Engine (Option Bool) := do
  match (← look).clickAction? c p with
  | some a => playAction fuel a p
  | none => answer (some false)

end Engine

end Doomtown
