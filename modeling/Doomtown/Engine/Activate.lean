import Doomtown.Engine

/-!
# Activating and retracting

A player starts an action, and may retract the latest activation of it while its targets are
being chosen. Neither runs the queue.
-/

namespace Doomtown

namespace Engine

open Play

/-! ## Activating -/

/-- Start an action for a player: false if it is not legal now. The payment of its costs goes in
front of all that waits. -/
def activate (a : AbilityId) (p : PlayerId) : Play Engine Bool := do
  let ability ← getAbility a
  if !ability.isAction then
    trace s!"ability {a.text} '{ability.title}' is not an action and cannot be activated"
    answer false
  else
    let x ← takeActivationId
    let activation := Activation.new a ability.source p none
    let e ← look
    match Legality.check e.board e.usage ability activation with
    | .error reason =>
      trace s!"ability {a.text} '{ability.title}' not legal for player {p.text}: {reason.tag}"
      answer false
    | .ok () =>
      putActivation x { activation with stage := .legalityChecked }
      change fun e => { e with retractable := e.retractable ++ [(a, x)] }
      discard (postNext (.resolve x .payCosts))
      answer true

/-! ## Retracting -/

/-- The activation of an ability that its player can retract first. -/
def latestRetractable? (e : Engine) (a : AbilityId) : Option ActivationId :=
  ((e.retractable.filter (·.1 = a)).getLast?).map (·.2)

/-- Drop the last entry of an ability. -/
def dropLatest (a : AbilityId) (l : List (AbilityId × ActivationId)) :
    List (AbilityId × ActivationId) :=
  (l.reverse.eraseP (·.1 = a)).reverse

/-- Whether a player can retract an activation now: it is the player's own, its costs are paid
and can be taken back, and its targets are not all chosen. -/
def canRetract (b : Board) (p : PlayerId) (x : Activation) : Bool :=
  x.player = p && x.stage = .costsPaid && Payment.canUnpayAll b x.receipts

/-- Retract an activation that can be: take its payments back and withdraw its prompt. -/
def retractActivation (a : AbilityId) (x : ActivationId) (activation : Activation) :
    Play Engine Unit := do
  onBoard (Payment.unpayAll activation.receipts)
  modifyActivation x ({ · with stage := .deactivated, deactivated := true, prompt := none })
  match activation.prompt with
  | some step => change fun e => { e with queue := e.queue.withdraw step }
  | none => answer ()
  change fun e => { e with retractable := dropLatest a e.retractable }
  trace s!"context {x.text} of ability {a.text} deactivated"

/-- Retract the latest activation of an ability: false if it is not the player's or cannot be
retracted now. -/
def retract (a : AbilityId) (p : PlayerId) : Play Engine Bool := do
  let e ← look
  match e.latestRetractable? a with
  | none => answer false
  | some x =>
    match e.activations.get? x with
    | none => answer false
    | some activation =>
      if canRetract e.board p activation then
        retractActivation a x activation
        answer true
      else answer false

/-- Forget which activations of an ability can be retracted, and of these forget the ones that
have ended. -/
def clearRetractable (a : AbilityId) : Play Engine Unit :=
  change fun e =>
    let ended := fun (activations : IdMap .activation Activation) x =>
      if (activations.get? x).any (·.stage.isTerminal) then activations.erase x else activations
    { e with
      retractable := e.retractable.filter (·.1 ≠ a)
      activations := ((e.retractable.filter (·.1 = a)).map (·.2)).foldl ended e.activations }

end Engine

end Doomtown
