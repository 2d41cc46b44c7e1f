import Doomtown.Board.Move
import Doomtown.Legality
import Doomtown.StepQueue

/-!
# The engine

The board together with the abilities on it, their subscriptions and counters, the activations,
and the queue of steps.
-/

namespace Doomtown

/-- The state of the rules engine. -/
structure Engine where
  board : Board
  /-- The abilities in play, each at the place of its number. -/
  abilities : List Ability
  registrar : Registrar
  usage : UsageTracker
  activations : IdMap .activation Activation
  /-- The activations of actions that their players may still retract, latest last. -/
  retractable : List (AbilityId × ActivationId)
  queue : StepQueue
  nextActivation : Nat

namespace Engine

open Play

/-- An engine on a board on which no card has an ability yet. -/
def new (board : Board) : Engine where
  board := board
  abilities := []
  registrar := .empty
  usage := .empty
  activations := .empty
  retractable := []
  queue := .empty
  nextActivation := 0

/-! ## Looking up -/

/-- The ability of a number. -/
def ability? (e : Engine) (a : AbilityId) : Option Ability := e.abilities[a.number]?

/-- The abilities of a card, in the order in which they were attached. -/
def abilitiesOf (e : Engine) (c : CardId) : List AbilityId :=
  ((List.range e.abilities.length).map Id.mk).filter fun a => (e.ability? a).any (·.source = c)

/-- The latest activation of an ability. -/
def latestActivation? (e : Engine) (a : AbilityId) : Option ActivationId :=
  ((e.activations.entries.filter (·.2.ability = a)).getLast?).map (·.1)

/-- Where the queue stands. -/
def status (e : Engine) : QueueStatus :=
  match e.queue.frontPrompt? with
  | some p => .awaiting p.player
  | none => .idle

/-- What scripts see. -/
def sight (e : Engine) : View := ⟨e.board, e.activations, e.registrar, e.usage⟩

/-- Whether every check holds for a player who would start an action now. -/
def canActivate (e : Engine) (a : AbilityId) (p : PlayerId) : Bool :=
  (e.ability? a).any fun ability =>
    ability.isAction &&
      Legality.isLegal e.board e.usage ability (.new a ability.source p none)

/-! ## Elementary plays -/

/-- Play on the board. -/
def onBoard {α : Type} (p : Play Board α) : Play Engine α :=
  within (·.board) (fun b e => { e with board := b }) p

/-- An ability that has to exist. -/
def getAbility (a : AbilityId) : Play Engine Ability := do
  match (← look).ability? a with
  | some ability => answer ability
  | none => fail (.unknownId a.number)

/-- Change an activation, if it exists. -/
def modifyActivation (x : ActivationId) (f : Activation → Activation) : Play Engine Unit :=
  change fun e => { e with activations := e.activations.modify x f }

/-- Forget an activation. -/
def dropActivation (x : ActivationId) : Play Engine Unit :=
  change fun e => { e with activations := e.activations.erase x }

/-- Enter an activation. -/
def putActivation (x : ActivationId) (activation : Activation) : Play Engine Unit :=
  change fun e => { e with activations := e.activations.insert x activation }

/-- A number that no activation has yet. -/
def takeActivationId : Play Engine ActivationId := do
  let n ← view (·.nextActivation)
  change fun e => { e with nextActivation := n + 1 }
  answer ⟨n⟩

/-- Queue a step behind the running step's own, or behind all if none runs. -/
def post (kind : StepKind) : Play Engine StepId := do
  let i ← view (·.queue.nextStep)
  change fun e => { e with queue := e.queue.push kind }
  answer i

/-- Queue a step in front of all that has not started. -/
def postNext (kind : StepKind) : Play Engine StepId := do
  let i ← view (·.queue.nextStep)
  change fun e => { e with queue := e.queue.pushNext kind }
  answer i

/-- Log a message of a template. -/
def message (template : String) (args : List MessageArg) (named : List (String × MessageArg)) :
    Play Engine Unit := do
  log (.ofMessage (Message.render (← look).board template args named))

end Engine

end Doomtown
