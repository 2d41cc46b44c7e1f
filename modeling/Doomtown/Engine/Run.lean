import Doomtown.Engine.Window

/-!
# Running the queue

The queue runs step by step until it is empty or a prompt stops it. An endless chain of triggers
would run for ever, so a run is given the number of steps that it may take; it answers `none` if
these do not suffice. All else ends by itself.
-/

namespace Doomtown

namespace Engine

open Play

/-! ## One step -/

/-- Do what a step does. -/
def runStep (s : Step) : Play Engine Unit := do
  trace s!"step {s.id.text}: {s.kind.tag}"
  match s.kind with
  | .task _ body => body.run
  | .resolve x stage => resolve x stage
  | .complete x => complete x
  | .event event c => fire event c
  | .window w => advance w
  | .prompt _ => fail (.refused .promptUnanswered)

/-- Play as the step that runs: the queue is as `q` meanwhile, and what was queued meanwhile goes
in front, also if the play fails. -/
def asStep (q : StepQueue) (p : Play Engine Unit) : Play Engine Unit := do
  change fun e => { e with queue := q }
  let result ← attempt p
  change fun e => { e with queue := e.queue.finish }
  ofExcept result

/-- Run the step at the front, if there is one that is no prompt; otherwise the answer is where
the queue stands. -/
def turn : Play Engine (Option QueueStatus) := do
  let e ← look
  match e.queue.frontPrompt? with
  | some p => return some (← awaitPrompt p)
  | none =>
    match e.queue.begin? with
    | none => answer (some .idle)
    | some (s, q) =>
      asStep q (runStep s)
      answer none

/-! ## Many steps -/

/-- Run steps until the queue stops, `fuel` turns at most. -/
def settle (fuel : Nat) : Play Engine (Option QueueStatus) := repeatedly fuel turn

theorem settle_zero : settle 0 = answer none := rfl

theorem settle_succ (fuel : Nat) :
    settle (fuel + 1) = (do
      match ← turn with
      | some status => answer (some status)
      | none => settle fuel) := by
  rw [settle, repeatedly_succ]
  congr 1
  funext r
  cases r <;> rfl

/-- Play and then run the queue. -/
def andSettle {α : Type} (fuel : Nat) (p : Play Engine α) : Play Engine (Option α) := do
  let a ← p
  return (← settle fuel).map fun _ => a

/-- Play and then run the queue if the answer is true. -/
def settleIf (fuel : Nat) (p : Play Engine Bool) : Play Engine (Option Bool) := do
  if ← p then
    return (← settle fuel).map fun _ => true
  else
    return some false

/-! ## What players and the game do -/

/-- Start an action for a player: false if it is not legal now. -/
def playAction (fuel : Nat) (a : AbilityId) (p : PlayerId) : Play Engine (Option Bool) :=
  settleIf fuel (activate a p)

/-- Retract the latest activation of an ability for a player: false if that cannot be done. -/
def takeBack (fuel : Nat) (a : AbilityId) (p : PlayerId) : Play Engine (Option Bool) :=
  settleIf fuel (retract a p)

/-- Raise an event. -/
def raiseEvent (fuel : Nat) (data : EventData) (change : Script) : Play Engine (Option Unit) :=
  andSettle fuel (raise data (.script change))

/-- Begin the next round. -/
def startRound (fuel : Nat) : Play Engine (Option Unit) := andSettle fuel beginRound

/-- Move a card. -/
def relocate (fuel : Nat) (c : CardId) (destination : Location) : Play Engine (Option Bool) :=
  settleIf fuel (moveCard c destination)

/-- Open a prompt. -/
def ask (fuel : Nat) (p : Prompt) : Play Engine (Option StepId) :=
  andSettle fuel (post (.prompt p))

/-- Answer the prompt at the front with a button: false if it is not this player's, has no such
button, or cannot be answered because a step runs. -/
def answerPrompt (p : PlayerId) (n : Nat) : Play Engine Bool := do
  let e ← look
  match e.queue.beginAnswer? with
  | none => answer false
  | some (_, prompt, q) =>
    match prompt.buttons[n]? with
    | none => answer false
    | some button =>
      if prompt.player = p then
        log (.ofChoice (e.board.playerName p) button)
        asStep q (answerWith n prompt.answer)
        answer true
      else answer false

/-- Answer the prompt at the front with a button and run the queue. -/
def respond (fuel : Nat) (p : PlayerId) (n : Nat) : Play Engine (Option Bool) :=
  settleIf fuel (answerPrompt p n)

end Engine

end Doomtown
