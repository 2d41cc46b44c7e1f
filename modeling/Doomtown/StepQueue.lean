import Doomtown.Step

/-!
# The queue of steps

One step runs at a time. What is queued while a step runs is the step's own: when the step
finishes, its own steps go in front of all that was waiting, in the order in which they were
queued. A prompt at the front stops the queue until it is answered.
-/

namespace Doomtown

/-- Steps that wait, the next one first. -/
structure StepQueue where
  steps : List Step
  /-- While a step runs, the steps that were queued meanwhile. -/
  running : Option (List Step)
  nextId : Nat

namespace StepQueue

/-- Nothing waits and nothing runs. -/
def empty : StepQueue := ⟨[], none, 0⟩

/-- Whether a step runs. -/
def isRunning (q : StepQueue) : Bool := q.running.isSome

/-- The steps queued by the step that runs. -/
def children (q : StepQueue) : List Step := q.running.getD []

/-- The number of the next step. -/
def nextStep (q : StepQueue) : StepId := ⟨q.nextId⟩

/-- Queue a step behind the running step's own, or behind all if none runs. -/
def push (q : StepQueue) (kind : StepKind) : StepQueue :=
  let step : Step := ⟨q.nextStep, kind⟩
  match q.running with
  | some own => { q with running := some (own ++ [step]), nextId := q.nextId + 1 }
  | none => { q with steps := q.steps ++ [step], nextId := q.nextId + 1 }

/-- Queue a step in front of all that has not started. -/
def pushNext (q : StepQueue) (kind : StepKind) : StepQueue :=
  let step : Step := ⟨q.nextStep, kind⟩
  match q.running with
  | some own => { q with running := some (step :: own), nextId := q.nextId + 1 }
  | none => { q with steps := step :: q.steps, nextId := q.nextId + 1 }

/-- All steps that have not started. -/
def pending (q : StepQueue) : List Step := q.steps ++ q.children

/-- Whether a step has not started. -/
def contains (q : StepQueue) (i : StepId) : Bool := q.pending.any (·.id = i)

/-- How many steps have not started. -/
def size (q : StepQueue) : Nat := q.pending.length

/-- Take a step that has not started out of the queue. -/
def withdraw (q : StepQueue) (i : StepId) : StepQueue :=
  if q.steps.any (·.id = i) then { q with steps := q.steps.eraseP (·.id = i) }
  else { q with running := q.running.map (·.eraseP (·.id = i)) }

/-- The prompt at the front. -/
def frontPrompt? (q : StepQueue) : Option Prompt :=
  match q.steps with
  | ⟨_, .prompt p⟩ :: _ => some p
  | _ => none

/-- Start the step at the front, unless a step runs or the front is a prompt. -/
def begin? (q : StepQueue) : Option (Step × StepQueue) :=
  match q.running, q.steps with
  | none, step :: rest =>
    match step.kind with
    | .prompt _ => none
    | _ => some (step, { q with steps := rest, running := some [] })
  | _, _ => none

/-- Start answering the prompt at the front, unless a step runs. -/
def beginAnswer? (q : StepQueue) : Option (StepId × Prompt × StepQueue) :=
  match q.running, q.steps with
  | none, ⟨i, .prompt p⟩ :: rest => some (i, p, { q with steps := rest, running := some [] })
  | _, _ => none

/-- End the step that runs, and put its own steps in front. -/
def finish (q : StepQueue) : StepQueue :=
  { q with steps := q.children ++ q.steps, running := none }

/-- The waiting steps as traces show them. -/
def tags (q : StepQueue) : List String := q.steps.map (·.kind.tag)

end StepQueue

end Doomtown
