import Doomtown.Engine.Resolve

/-!
# Trigger windows

When an event fires, its change is applied and the abilities that it sets off are collected into
one window: those of the active player first, then those of the others in seat order, and within
a seat those that subscribed first. They are offered one by one, and each is checked again when
its turn comes.
-/

namespace Doomtown

namespace Engine

open Play

/-! ## Collecting -/

/-- What a subscription brings into the window of an event. -/
def candidate? (e : Engine) (event : GameEvent) (s : Subscription) : Option TriggerCandidate := do
  let ability ← e.ability? s.ability
  if s.listener = .trigger && ability.kind.isTriggered && ability.accepts e.board event then
    let player ← ability.responsibleFor e.board event
    some ⟨s.ability, player⟩
  else none

/-- Candidates seat by seat from the active player on, those without a seat last. -/
def bySeat (b : Board) (candidates : List TriggerCandidate) : List TriggerCandidate :=
  (List.range (max b.players.length 1 + 1)).flatMap fun distance =>
    candidates.filter fun c => b.seatDistance c.player = distance

/-- The window of an event. -/
def collect (e : Engine) (event : GameEvent) : TriggerWindow where
  event := event
  pending :=
    bySeat e.board ((e.registrar.listenersFor event.name).filterMap (candidate? e event))

/-! ## Firing -/

/-- Apply the change behind an event. -/
def applyChange : EventChange → Play Engine Unit
  | .script body => body.run
  | .emitted x => markEmitted x

/-- Tell a listener that its event has fired. -/
def notify (s : Subscription) : Play Engine Unit :=
  match s.listener with
  | .resetUsage => change fun e => { e with usage := e.usage.reset s.ability }
  | .clearActivations => clearRetractable s.ability
  | .trigger => answer ()

/-- Tell listeners that their event has fired, one after the other. -/
def notifyEach : List Subscription → Play Engine Unit
  | [] => answer ()
  | s :: rest => do
    notify s
    notifyEach rest

/-- Apply an event's change, tell its listeners and queue its window. -/
def fire (event : GameEvent) (c : EventChange) : Play Engine Unit := do
  applyChange c
  notifyEach ((← look).registrar.listenersFor event.name)
  let window := (← look).collect event
  if window.pending.isEmpty then answer ()
  else
    trace (s!"trigger window for {event.name.tag} opened with " ++
      s!"{window.pending.length} abilities")
    discard (post (.window window))

/-! ## Offering -/

/-- The buttons that offer an ability. -/
def offerButtons (a : Ability) : List String :=
  if a.alternatives.isEmpty then ["Yes", "No"] else a.alternatives.map (·.1) ++ ["Pass"]

/-- Enter an activation and start it. -/
def startForced (x : ActivationId) (activation : Activation) : Play Engine Unit := do
  putActivation x { activation with stage := .legalityChecked }
  discard (post (.resolve x .payCosts))

/-- Enter an activation and ask its player whether it shall start. -/
def startPrompted (a : Ability) (x : ActivationId) (activation : Activation) :
    Play Engine Unit := do
  let title := a.offerTitle (← look).board activation
  putActivation x activation
  discard (post (.prompt ⟨⟨title, offerButtons a, some a.source⟩, activation.player,
    .offer x a.alternatives.length⟩))

/-- Offer an ability for an event, unless it is not legal. -/
def offer (event : GameEvent) (c : TriggerCandidate) : Play Engine Unit := do
  match (← look).ability? c.ability with
  | none => answer ()
  | some a =>
    let x ← takeActivationId
    let activation := Activation.new c.ability a.source c.player (some event)
    let e ← look
    match Legality.check e.board e.usage a activation with
    | .error reason => trace s!"skipping '{a.title}' for {event.name.tag}: {reason.tag}"
    | .ok () =>
      if a.kind.isForced then startForced x activation else startPrompted a x activation

/-- Offer the next ability of a window and queue the rest behind it. -/
def advance (w : TriggerWindow) : Play Engine Unit := do
  let closed := s!"trigger window for {w.event.name.tag} closed"
  match w.pending with
  | [] => trace closed
  | c :: rest =>
    offer w.event c
    if rest.isEmpty then trace closed
    else discard (post (.window { w with pending := rest }))

/-! ## Answering -/

/-- Start an activation that was accepted, if it is still legal; otherwise forget it. -/
def accept (x : ActivationId) (choice : Option Nat) : Play Engine Unit := do
  let e ← look
  match e.activations.get? x with
  | none => answer ()
  | some activation =>
    let a ← getAbility activation.ability
    if Legality.isLegal e.board e.usage a activation then
      modifyActivation x ({ · with choice := choice, stage := .legalityChecked })
      discard (post (.resolve x .payCosts))
    else dropActivation x

/-- Take the target at a place of the list. -/
def chooseTarget (x : ActivationId) (slot : String) (choices : List ChosenTarget) (n : Nat) :
    Play Engine Unit :=
  match choices[n]? with
  | some target => do
    modifyActivation x fun activation => { activation.choose slot target with prompt := none }
    discard (post (.resolve x .chooseTargets))
  | none => answer ()

/-- Do what the button of a number stands for. -/
def answerWith (n : Nat) : Answer → Play Engine Unit
  | .script answers => (answers n).run
  | .target x slot choices => chooseTarget x slot choices n
  | .offer x alternatives =>
    if n = max alternatives 1 then dropActivation x
    else accept x (if alternatives = 0 then none else some n)

end Engine

end Doomtown
