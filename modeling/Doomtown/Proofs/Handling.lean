import Doomtown.Proofs.Moment
import Doomtown.Proofs.Stirs

/-!
# Plays that handle activations

Activations are started, offered, accepted and retracted by plays that are made of a few changes:
records are entered without targets, changed in something else than their targets, and dropped;
steps that ask for no target are queued; a step is withdrawn; and no card is moved.
`Engine.Handles` says of a relation that all these changes keep to it. Then the plays keep to it as
well, each as a chain of its changes.
-/

namespace Doomtown

open Play

/-- Whether a step is a prompt for a target. -/
def StepKind.asksTarget : StepKind → Bool
  | .prompt ⟨_, _, .target ..⟩ => true
  | _ => false

namespace Engine

/-- What plays that handle activations need of a relation. -/
structure Handles (R : Engine → Engine → Prop) : Prop where
  /-- Nothing is moved on the board. -/
  board : ∀ {α : Type} {p : Play Board α}, p.Chains Board.Rests → (onBoard p).Chains R
  post : ∀ {kind : StepKind}, kind.asksTarget = false → (post kind).Chains R
  postNext : ∀ {kind : StepKind}, kind.asksTarget = false → (postNext kind).Chains R
  unqueue : ∀ i : StepId,
    (change fun e => { e with queue := e.queue.withdraw i } : Play Engine Unit).Chains R
  takeId : takeActivationId.Chains R
  /-- A new activation has no targets. -/
  put : ∀ (x : ActivationId) {activation : Activation}, activation.targets = [] →
    (putActivation x activation).Chains R
  /-- What is changed in an activation is not its targets. -/
  modify : ∀ (x : ActivationId) {f : Activation → Activation},
    (∀ activation, (f activation).targets = activation.targets) → (modifyActivation x f).Chains R
  drop : ∀ x : ActivationId, (dropActivation x).Chains R
  retractable : ∀ f : Engine → List (AbilityId × ActivationId),
    (change fun e => { e with retractable := f e } : Play Engine Unit).Chains R

namespace Handles

variable {R : Engine → Engine → Prop} (h : Handles R)

include h

/-- Steps of a resolution ask for no target themselves. -/
theorem postResolve (x : ActivationId) (stage : ResolutionStage) :
    (discard (Engine.post (.resolve x stage))).Chains R :=
  .discard (h.post rfl)

theorem raise (data : EventData) (change : EventChange) : (raise data change).Chains R :=
  .bind (h.board Board.rests_takeTimestamp) fun _ => .discard (h.post rfl)

theorem withdraw (i : StepId) : (withdraw i).Chains R :=
  .bind .look fun _ => .ite (.bind (h.unqueue i) fun _ => .bind (.trace _) fun _ => .answer _)
    (.answer _)

theorem activate (a : AbilityId) (p : PlayerId) : (activate a p).Chains R := by
  refine .bind (chains_getAbility a) fun ability => .ite (.bind (.trace _) fun _ => .answer _)
    (.bind h.takeId fun x => .bind .look fun e => ?_)
  cases Legality.check e.board e.usage ability (.new a ability.source p none) with
  | error reason => exact .bind (.trace _) fun _ => .answer _
  | ok _ =>
    exact .bind (h.put x rfl) fun _ => .bind (h.retractable _) fun _ =>
      .bind (.discard (h.postNext rfl)) fun _ => .answer _

/-- What is taken back of an activation is nothing that was moved. -/
theorem retractActivation (a : AbilityId) (x : ActivationId) (activation : Activation) :
    (retractActivation a x activation).Chains R := by
  refine .bind (h.board (Payment.rests_unpayAll _)) fun _ =>
    .bind (h.modify x fun _ => rfl) fun _ => ?_
  have hrest : (do
      change fun e => { e with retractable := dropLatest a e.retractable }
      trace s!"context {x.text} of ability {a.text} deactivated" : Play Engine Unit).Chains R :=
    .bind (h.retractable _) fun _ => .trace _
  cases activation.prompt with
  | some step => exact .bind (h.unqueue step) fun _ => hrest
  | none => exact .bind (.answer _) fun _ => hrest

theorem retract (a : AbilityId) (p : PlayerId) : (retract a p).Chains R := by
  refine .bind .look fun e => ?_
  cases e.latestRetractable? a with
  | none => exact .answer _
  | some x =>
    dsimp only
    cases e.activations.get? x with
    | none => exact .answer _
    | some activation =>
      exact .ite (.bind (h.retractActivation a x activation) fun _ => .answer _) (.answer _)

theorem offer (event : GameEvent) (c : TriggerCandidate) : (offer event c).Chains R := by
  refine .bind .look fun e => ?_
  cases e.ability? c.ability with
  | none => exact .answer _
  | some a =>
    refine .bind h.takeId fun x => .bind .look fun e' => ?_
    cases Legality.check e'.board e'.usage a (.new c.ability a.source c.player (some event)) with
    | error reason => exact .trace _
    | ok _ =>
      exact .ite (.bind (h.put x rfl) fun _ => h.postResolve x _)
        (.bind .look fun _ => .bind (h.put x rfl) fun _ => .discard (h.post rfl))

theorem advance (w : TriggerWindow) : (advance w).Chains R := by
  unfold Engine.advance
  cases w.pending with
  | nil => exact .trace _
  | cons c rest => exact .bind (h.offer w.event c) fun _ => .ite (.trace _) (.discard (h.post rfl))

theorem accept (x : ActivationId) (choice : Option Nat) : (accept x choice).Chains R := by
  refine .bind .look fun e => ?_
  cases e.activations.get? x with
  | none => exact .answer _
  | some activation =>
    exact .bind (chains_getAbility _) fun a =>
      .ite (.bind (h.modify x fun _ => rfl) fun _ => h.postResolve x _) (h.drop x)

end Handles

end Engine

end Doomtown
