import Doomtown.Decision
import Doomtown.Engine.Run

/-!
# Playing a match

Every prompt goes to the decision maker of its player, until the queue is empty. How a decision
maker decides is a function of the board as its player sees it, the prompt, and what it keeps in
mind.
-/

namespace Doomtown

/-- A decision maker: the player it decides for, and what it keeps in mind. -/
structure Seat (μ : Type) where
  player : PlayerId
  mind : μ

/-- An engine with decision makers. -/
structure Match (μ : Type) where
  engine : Engine
  seats : List (Seat μ)

namespace Match

open Play

variable {μ : Type}

/-- How decisions are made. -/
abbrev Chooser (μ : Type) := BoardView → PromptView → μ → Nat × μ

/-- Play on the engine. -/
def onEngine {α : Type} (p : Play Engine α) : Play (Match μ) α :=
  within (·.engine) (fun e m => { m with engine := e }) p

/-- Let the first decision maker of a player choose a button. -/
def decide (choose : Chooser μ) (p : Prompt) : Play (Match μ) Nat := do
  let m ← look
  match m.seats.find? (·.player = p.player) with
  | none => fail (.refused (.noDecisionMaker p.player))
  | some seat =>
    let (n, mind) := choose ⟨m.engine.board, p.player⟩ p.toPromptView seat.mind
    change fun m => { m with
      seats := modifyFirst (·.player = p.player) ({ · with mind := mind }) m.seats }
    answer n

/-- Run the queue, `turns` turns at most, and have the prompt that stops it answered. The answer
is `none` if the queue goes on, and how it ended otherwise: `some none` if the turns did not
suffice, `some (some ())` if the queue is empty. -/
def exchange (choose : Chooser μ) (turns : Nat) : Play (Match μ) (Option (Option Unit)) := do
  match ← onEngine (Engine.settle turns) with
  | none => answer (some none)
  | some .idle => answer (some (some ()))
  | some (.awaiting player) =>
    match (← look).engine.queue.frontPrompt? with
    | none => answer (some (some ()))
    | some p =>
      let n ← decide choose p
      match ← onEngine (Engine.respond turns player n) with
      | none => answer (some none)
      | some false => fail (.refused (.invalidOption player n p.title))
      | some true => answer none

/-- Have prompts answered until the queue is empty: at most `fuel` prompts, with at most `turns`
turns of the queue in a row. -/
def runWith (choose : Chooser μ) (turns fuel : Nat) : Play (Match μ) (Option Unit) := do
  return (← repeatedly fuel (exchange choose turns)).join

theorem runWith_zero (choose : Chooser μ) (turns : Nat) : runWith choose turns 0 = answer none :=
  rfl

theorem runWith_succ (choose : Chooser μ) (turns fuel : Nat) :
    runWith choose turns (fuel + 1) = (do
      match ← exchange choose turns with
      | some ended => answer ended
      | none => runWith choose turns fuel) := by
  rw [runWith, repeatedly_succ, bind_assoc]
  congr 1
  funext r
  cases r <;> rfl

end Match

end Doomtown
