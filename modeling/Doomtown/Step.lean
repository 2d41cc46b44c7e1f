import Doomtown.Script

/-!
# Steps

What can stand in the queue: a task of a card, a stage of an activation, an event, a trigger
window, a prompt.
-/

namespace Doomtown

/-- A stage of an activation that is still to come. -/
inductive ResolutionStage where
  | payCosts | chooseTargets | execute
deriving DecidableEq

/-- The stage as traces name it. -/
def ResolutionStage.tag : ResolutionStage → String
  | payCosts => "PayCosts"
  | chooseTargets => "ChooseTargets"
  | execute => "Execute"

/-! ## Trigger windows -/

/-- An ability that an event has set off, and who uses it. -/
structure TriggerCandidate where
  ability : AbilityId
  player : PlayerId
deriving DecidableEq

/-- The abilities that are still to be offered for an event, the next one first. -/
structure TriggerWindow where
  event : GameEvent
  pending : List TriggerCandidate
deriving DecidableEq

/-! ## Prompts -/

/-- What a player is shown of a prompt. -/
structure PromptView where
  title : String
  buttons : List String
  source : Option CardId
deriving DecidableEq

/-- What the answer to a prompt does. -/
inductive Answer where
  /-- Run a script that depends on the button. -/
  | script (answers : Nat → Script)
  /-- Choose the target at the button's place for a slot of an activation. -/
  | target (activation : ActivationId) (slot : String) (choices : List ChosenTarget)
  /-- Accept an offered activation, or decline it by the last button. With alternatives there is
  one button for each before the last, without them there is one for all. -/
  | offer (activation : ActivationId) (alternatives : Nat)

/-- A decision that waits for a player. -/
structure Prompt extends PromptView where
  player : PlayerId
  answer : Answer

/-- The prompt as traces show it. -/
def Prompt.tag (p : Prompt) : String :=
  Text.fields "Prompt" [
    ("player", p.player.tag),
    ("title", Text.quoted p.title),
    ("buttons", Text.listed (p.buttons.map Text.quoted)),
    ("source", Text.optional (p.source.map (·.tag)))]

/-! ## Steps -/

/-- The change behind an event. -/
inductive EventChange where
  | script (body : Script)
  /-- Note that the activation has announced its resolution. -/
  | emitted (activation : ActivationId)

/-- What a step does. -/
inductive StepKind where
  /-- Run a script. -/
  | task (label : String) (body : Script)
  /-- Take an activation through its next stage. -/
  | resolve (activation : ActivationId) (stage : ResolutionStage)
  /-- End an activation. -/
  | complete (activation : ActivationId)
  /-- Apply an event's change and open its trigger window. -/
  | event (event : GameEvent) (change : EventChange)
  /-- Offer the next ability of a trigger window. -/
  | window (window : TriggerWindow)
  /-- Wait for an answer. -/
  | prompt (prompt : Prompt)

/-- The step as traces show it. -/
def StepKind.tag : StepKind → String
  | task label _ => s!"Simple({label})"
  | resolve activation stage => s!"Resolve({activation.tag}, {stage.tag})"
  | complete _ => "Simple(complete activation)"
  | event e _ => s!"Event({e.name.tag})"
  | window w => s!"Window({w.event.name.tag}, {w.pending.length} left)"
  | prompt p => s!"Prompt({p.title})"

/-- A step with its number. -/
structure Step where
  id : StepId
  kind : StepKind

end Doomtown
