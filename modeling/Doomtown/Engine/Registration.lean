import Doomtown.Ability.Design
import Doomtown.Engine

/-!
# Registration

An ability is registered while its card is at one of the ability's locations: it then has its
subscriptions and, if it has a limit, a counter.
-/

namespace Doomtown

/-- Make subscriptions for an ability, in order. -/
def Registrar.registerAll (r : Registrar) (a : AbilityId) (l : List (EventName × Listener)) :
    Registrar :=
  l.foldl (fun r s => r.register a s.1 s.2) r

namespace Engine

open Play

/-- Register an ability, unless it is registered. -/
def register (a : AbilityId) : Play Engine Unit := do
  if (← look).registrar.isRegistered a then answer ()
  else
    let ability ← getAbility a
    change fun e => { e with
      usage := match ability.limit with
        | some limit => e.usage.track a limit
        | none => e.usage
      registrar := e.registrar.registerAll a ability.subscriptions }
    trace s!"registered events for ability {a.text}"

/-- End the registration of an ability: its subscriptions and its counter are gone, and none of
its activations can be retracted any more. -/
def unregister (a : AbilityId) : Play Engine Unit := do
  let dropped := ((← look).registrar.toRegistry.unregisterAll a).1
  change fun e => { e with
    registrar := e.registrar.unregisterAll a
    usage := e.usage.untrack a
    retractable := e.retractable.filter (·.1 ≠ a) }
  if dropped > 0 then trace s!"unregistered {dropped} listeners for ability {a.text}"

/-- Bring the registration of abilities in step with the location of their card. -/
def refreshEach (location : Location) : List AbilityId → Play Engine Unit
  | [] => answer ()
  | a :: rest => do
    let ability ← getAbility a
    if ability.listensIn location then register a else unregister a
    refreshEach location rest

/-- Bring the registration of a card's abilities in step with its location. -/
def refresh (c : CardId) : Play Engine Unit := do
  let card ← onBoard (Board.getCard c)
  refreshEach card.location ((← look).abilitiesOf c)

/-- Attach an ability to a card, and register it if the card is at one of its locations. -/
def addAbility (c : CardId) (d : Design) : Play Engine AbilityId := do
  let card ← onBoard (Board.getCard c)
  let ability ← ofExcept (d.build card)
  let a : AbilityId := ⟨(← look).abilities.length⟩
  trace s!"ability {a.text} '{ability.title}' added to card {c.text}"
  change fun e => { e with abilities := e.abilities ++ [ability] }
  if ability.listensIn card.location then register a
  answer a

end Engine

end Doomtown
