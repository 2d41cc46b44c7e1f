import Doomtown.Engine.Obey

/-!
# Resolving activations

An activation pays its costs, chooses its targets and takes effect, one step each. After its
effect it announces that it has resolved, and it is complete once all that follows from the
announcement is done. An activation that was cancelled or retracted skips what is left.
-/

namespace Doomtown

namespace Engine

open Play

/-- The arguments that every message of an activation can name. -/
def baseArgs (x : Activation) : List (String × MessageArg) :=
  [("player", .player x.player), ("source", .card x.source)]

/-! ## Costs -/

/-- The move that a payment made, if it made one. -/
def movedBy? : CostReceipt → Option (CardId × Location × Location)
  | .moved c origin destination => some (c, origin, destination)
  | .booted _ | .ghostRockSpent .. => none

/-- What follows the moves of a payment, in the order of payment. -/
def afterMoves : List (CardId × Location × Location) → Play Engine Unit
  | [] => answer ()
  | (c, origin, destination) :: rest => do
    discard (afterMove c origin destination)
    afterMoves rest

/-- Pay the costs of an activation. If they are no longer affordable the activation is cancelled
and nothing is paid. -/
def payCosts (a : Ability) (x : ActivationId) (activation : Activation) : Play Engine Unit := do
  match ← attempt (onBoard (Payment.payAll a.title activation a.costs)) with
  | .ok receipts =>
    modifyActivation x ({ · with receipts := receipts, stage := .costsPaid })
    afterMoves (receipts.filterMap movedBy?)
    discard (post (.resolve x .chooseTargets))
  | .error (.paymentFailed ability cause) =>
    modifyActivation x ({ · with cancelled := true })
    fail (.paymentFailed ability cause)
  | .error e =>
    trace s!"context {x.text} cancelled: {e.message}"
    modifyActivation x ({ · with cancelled := true })

/-! ## Targets -/

/-- A target as a button shows it. -/
def targetLabel (b : Board) : ChosenTarget → String
  | .player p => b.playerName p
  | .card c => b.cardTitle c

/-- Let the player choose among several targets. -/
def promptTarget (a : Ability) (x : ActivationId) (activation : Activation) (slot : String)
    (choices : List ChosenTarget) : Play Engine Unit := do
  let buttons := choices.map (targetLabel (← look).board)
  let view : PromptView := ⟨s!"Select {slot} for {a.title}", buttons, some a.source⟩
  let step ← post (.prompt ⟨view, activation.player, .target x slot choices⟩)
  modifyActivation x ({ · with prompt := some step })

/-- Fill the slots that `activation`, as it was when this stage began, has no target for. A slot
with one choice takes it, a slot with several opens a prompt and ends the stage for now, and a
slot with none cancels the activation. -/
def fillSlots (a : Ability) (x : ActivationId) (activation : Activation) :
    List TargetSlot → Play Engine Unit
  | [] => do
    modifyActivation x ({ · with stage := .targetsResolved })
    discard (post (.resolve x .execute))
  | slot :: rest =>
    if activation.hasTarget slot.name then fillSlots a x activation rest
    else do
      match slot.choices (← look).board activation with
      | [] =>
        message "\x7bplayer\x7d uses \x7bsource\x7d but there is no legal target" []
          (baseArgs activation)
        modifyActivation x ({ · with cancelled := true })
      | [target] =>
        modifyActivation x (·.choose slot.name target)
        fillSlots a x activation rest
      | choices => promptTarget a x activation slot.name choices

/-! ## Effect -/

/-- A target as an argument of a message. -/
def targetArg : ChosenTarget → MessageArg
  | .player p => .player p
  | .card c => .card c

/-- The arguments that a message of an activation can name: the player, the source, the first
target, and each target by its slot. -/
def namedArgs (x : Activation) : List (String × MessageArg) :=
  baseArgs x ++ (x.targets.take 1).map (fun t => ("target", targetArg t.2)) ++
    x.targets.map fun t => (t.1, targetArg t.2)

/-- Log a message of an ability. -/
def abilityMessage (a : Ability) (x : Activation) (template : String) : Play Engine Unit := do
  message template (a.messageArgs (← look).board x) (namedArgs x)

/-- Whether an action's effect does not come about. -/
def fizzles (a : Ability) (b : Board) (x : Activation) : Bool :=
  a.isAction && !a.effectCondition b x

/-- Log the ability's message and run its script. -/
def takeEffect (a : Ability) (x : Activation) : Play Engine Unit := do
  match a.message with
  | some template => abilityMessage a x template
  | none => answer ()
  match a.effect? x with
  | some effect => (effect x).run
  | none => answer ()

/-- Note that a headline was used if the card is one. -/
def noteHeadline (c : CardId) : Play Engine Unit := do
  if (← look).board.cardIs c (·.hasKeyword .headline) then
    onBoard (change fun b => { b with round := { b.round with headlineUsed := true } })

/-- Whether a card is an action card that is being played. -/
def isBeingPlayed (b : Board) (c : CardId) : Bool :=
  b.cardIs c fun card => card.type = .action && card.location = .beingPlayed

/-- Discard an action card that was played. -/
def discardPlayed (c : CardId) : Play Engine Unit := do
  if isBeingPlayed (← look).board c then discard (moveCard c .discardPile)

/-- Run the effect, or say that it does not come about; count the use, and queue the announcement
and the end of the activation. -/
def execute (a : Ability) (x : ActivationId) (activation : Activation) : Play Engine Unit := do
  if fizzles a (← look).board activation then abilityMessage a activation a.failMessage
  else takeEffect a activation
  change fun e => { e with usage := e.usage.increment activation.ability }
  noteHeadline a.source
  modifyActivation x ({ · with stage := .executed })
  discardPlayed a.source
  raise (.abilityResolved activation.ability a.source activation.player) (.emitted x)
  discard (post (.complete x))

/-! ## Stages -/

/-- Take an activation through its next stage. -/
def resolve (x : ActivationId) (stage : ResolutionStage) : Play Engine Unit := do
  match (← look).activations.get? x with
  | none => answer ()
  | some activation =>
    if !activation.isLive then
      trace s!"context {x.text} no longer live, skipping {stage.tag}"
    else
      let a ← getAbility activation.ability
      match stage with
      | .payCosts => payCosts a x activation
      | .chooseTargets => fillSlots a x activation a.targets
      | .execute => execute a x activation

/-- Note that an activation has announced its resolution. -/
def markEmitted (x : ActivationId) : Play Engine Unit :=
  modifyActivation x ({ · with stage := .eventEmitted })

/-- End an activation. -/
def complete (x : ActivationId) : Play Engine Unit :=
  modifyActivation x ({ · with stage := .completed })

end Engine

end Doomtown
