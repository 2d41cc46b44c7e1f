import Doomtown.Proofs.Course
import Doomtown.Proofs.Handling

/-!
# Deeds that choose targets

Targets are chosen in two ways: a step fills the slots of an activation as far as it can, and an
answer tells an activation what was picked. All other deeds handle activations without a look at
their targets. So what holds of `Engine.Handles`, and of changes that take no activation on, holds
of every deed but these two (`Engine.Spectates.after`).
-/

namespace Doomtown

open Play

namespace Engine

/-- What deeds that choose no target need of a relation. -/
structure Spectates (R : Engine → Engine → Prop) : Prop where
  handles : Handles R
  /-- No activation is taken on. -/
  changes : ∀ {e e' : Engine}, e.Change (fun _ => false) e' → R e e'
  /-- Nothing new waits, and what is filed stays. -/
  frame : ∀ {e e' : Engine}, e'.activations = e.activations → e'.queue.order ⊆ e.queue.order →
    R e e'

namespace Spectates

variable {R : Engine → Engine → Prop} (h : Spectates R)

include h

theorem of_changes {α : Type} {p : Play Engine α} (hp : p.Chains (Change fun _ => false)) :
    p.Chains R :=
  hp.mono fun _ _ => h.changes

theorem order (o : Order) : o.carryOut.Chains R := by
  by_cases hactivate : ∃ a p, o = .activate a p
  · obtain ⟨a, p, rfl⟩ := hactivate
    exact h.handles.activate a p
  by_cases hretract : ∃ a p, o = .retract a p
  · obtain ⟨a, p, rfl⟩ := hretract
    exact h.handles.retract a p
  by_cases hwithdraw : ∃ i, o = .withdraw i
  · obtain ⟨i, rfl⟩ := hwithdraw
    exact h.handles.withdraw i
  · exact h.of_changes (changes_order o (fun a p ho => hactivate ⟨a, p, ho⟩)
      (fun a p ho => hretract ⟨a, p, ho⟩) fun i ho => hwithdraw ⟨i, ho⟩)

theorem payCosts (a : Ability) (x : ActivationId) (activation : Activation) :
    (payCosts a x activation).Chains R := by
  refine .bind (.attempt (h.of_changes (changes_onBoard _))) fun r => ?_
  rcases r with err | receipts
  · cases err with
    | paymentFailed => exact .bind (h.handles.modify x fun _ => rfl) fun _ => .fail _
    | _ => exact .bind (.trace _) fun _ => h.handles.modify x fun _ => rfl
  · exact .bind (h.handles.modify x fun _ => rfl) fun _ =>
      .bind (h.of_changes (changes_afterMoves _)) fun _ => h.handles.postResolve x _

theorem conclude (a : Ability) (x : ActivationId) (activation : Activation) :
    (conclude a x activation).Chains R :=
  .bind (.change fun _ => h.frame rfl fun _ hs => hs) fun _ =>
    .bind (h.of_changes (changes_noteHeadline _)) fun _ =>
    .bind (h.handles.modify x fun _ => rfl) fun _ =>
    .bind (h.of_changes (changes_discardPlayed _)) fun _ =>
    .bind (h.handles.raise _ _) fun _ =>
    .discard (h.handles.post rfl)

/-- The end of a script, whatever it was part of. -/
theorem close (task : Task) : task.close.Chains R := by
  cases task with
  | plain => exact .answer _
  | event event => exact h.of_changes (changes_openWindow event)
  | effect a x activation => exact h.conclude a x activation

theorem call (c : Call) : c.play.Chains R := by
  cases c with
  | order o => exact .discard (h.order o)
  | board f => exact .change fun _ => h.frame rfl fun _ hs => hs
  | attach card design => exact .discard (h.of_changes (changes_addAbility card design))
  | refresh card => exact h.of_changes (changes_refresh card)
  | clear ability => exact h.of_changes (changes_clearRetractable ability)
  | raise event change => exact h.handles.raise event _
  | queue label body | ask player title buttons source answers =>
    exact .discard (h.handles.post rfl)

/-- To take a step from the front is to let nothing new wait. -/
theorem front {e : Engine} {s : Step} {q : StepQueue} (htaken : e.queue.FrontTaken s q) :
    R e { e with queue := q } := by
  have horder : q.order ⊆ e.queue.order := by
    rw [htaken.order]
    exact List.subset_cons_self s q.order
  exact h.frame rfl horder

/-- When a step ends its own steps wait where they waited. -/
theorem finished (e : Engine) : R e e.finished := h.frame rfl fun _ hs => hs

/-- What a step does, from when it is taken from the front to its end. -/
theorem asStep {e e' : Engine} {s : Step} {q : StepQueue} (htaken : e.queue.FrontTaken s q)
    (hplay : Relation.ReflTransGen R { e with queue := q } e') :
    Relation.ReflTransGen R e e'.finished :=
  (Relation.ReflTransGen.head (h.front htaken) hplay).tail (h.finished e')

/-- A step that is done as a whole, unless it fills slots. -/
theorem runStep {e : Engine} {s : Step} (hopening : e.opening s.kind = none) :
    Relation.ReflTransGen R e ((runStep s).ends e).2 ∨
      ∃ x before a, s.kind = .resolve x .chooseTargets ∧ e.activations.get? x = some before ∧
        before.isLive ∧ e.ability? before.ability = some a ∧
        ((Engine.runStep s).ends e).2 = ((fillSlots a x before a.targets).ends e).2 := by
  rw [runStep_kind]
  obtain ⟨i, kind⟩ := s
  dsimp only at hopening ⊢
  cases kind with
  | task label body => simp [opening] at hopening
  | prompt p => exact .inl .refl
  | window w => exact .inl (h.handles.advance w e)
  | complete y =>
    have hcomplete : (complete y).Chains R := h.handles.modify y fun _ => rfl
    exact .inl (hcomplete e)
  | event event change =>
    cases change with
    | script body => simp [opening] at hopening
    | emitted y =>
      have hfire : (fire event (.emitted y)).Chains R :=
        .bind (h.handles.modify y fun _ => rfl) fun _ => h.of_changes (changes_openWindow event)
      exact .inl (hfire e)
  | resolve y stage =>
    by_cases hfound : ∃ activation a, e.activations.get? y = some activation ∧
        activation.isLive ∧ e.ability? activation.ability = some a
    · obtain ⟨activation, a, hget, hlive, hability⟩ := hfound
      rw [resolve_live stage hget hlive hability]
      cases stage with
      | payCosts => exact .inl (h.payCosts a y activation e)
      | chooseTargets => exact .inr ⟨y, activation, a, rfl, hget, hlive, hability, rfl⟩
      | execute => simp [opening, hget, hability, hlive] at hopening
    · -- It passes, for there is nothing that it could take on.
      rw [resolve_idle stage fun activation a hget hlive hability =>
        hfound ⟨activation, a, hget, hlive, hability⟩]
      exact .inl .refl

end Spectates

end Engine

namespace Moment

variable {m : Moment} {d : Deed} {R : Engine → Engine → Prop}

/-- A deed fills the slots of an activation, whose record and ability are given. -/
structure FillsSlots (m : Moment) (d : Deed) (x : ActivationId) (before : Activation)
    (a : Ability) : Prop where
  filed : m.engine.activations.get? x = some before
  live : before.isLive
  ability : m.engine.ability? before.ability = some a
  fills : ∃ i q, m.starts? d = some ⟨i, .resolve x .chooseTargets⟩ ∧
    m.engine.queue.FrontTaken ⟨i, .resolve x .chooseTargets⟩ q ∧
    m.after d = ⟨((Engine.fillSlots a x before a.targets).ends
      { m.engine with queue := q }).2.finished, none⟩

/-- An answer tells an activation which of some choices was picked for a slot. -/
structure TellsTarget (m : Moment) (d : Deed) (x : ActivationId) (slot : String)
    (choices : List ChosenTarget) (n : Nat) : Prop where
  answer : ∃ p, d = .answer p n
  tells : ∃ i view p q, m.starts? d = some ⟨i, .prompt ⟨view, p, .target x slot choices⟩⟩ ∧
    n < view.buttons.length ∧
    m.engine.queue.FrontTaken ⟨i, .prompt ⟨view, p, .target x slot choices⟩⟩ q ∧
    m.after d = ⟨((Engine.chooseTarget x slot choices n).ends
      { m.engine with queue := q }).2.finished, none⟩

/-- A deed chooses targets: it fills slots, or tells what was picked. -/
def Aims (m : Moment) (d : Deed) : Prop :=
  (∃ x before a, m.FillsSlots d x before a) ∨ ∃ x slot choices n, m.TellsTarget d x slot choices n

/-- What is kept by plays that choose no target is kept by a turn that fills no slots. -/
theorem turn_spectates (h : Engine.Spectates R) (hrunning : m.running = none) :
    Relation.ReflTransGen R m.engine (turn m.engine).engine ∨
      ∃ x before a, m.FillsSlots .turn x before a := by
  have hafter : m.after .turn = turn m.engine := by
    unfold after
    rw [hrunning]
  unfold turn at hafter ⊢
  cases hbegin : m.engine.queue.begin? with
  | none => exact .inl .refl
  | some sq =>
    obtain ⟨s, q⟩ := sq
    have htaken := StepQueue.frontTaken_begin hbegin
    rw [hbegin] at hafter
    dsimp only at hafter ⊢
    cases hopening : m.engine.opening s.kind with
    | some r => exact .inl (.single (h.front htaken))
    | none =>
      rw [hopening] at hafter
      dsimp only at hafter ⊢
      rw [Engine.asStep_ends] at hafter ⊢
      rcases h.runStep (e := { m.engine with queue := q }) hopening with
        hchain | ⟨x, before, a, hkind, hget, hlive, hability, hends⟩
      · exact .inl (h.asStep htaken hchain)
      · rw [hends] at hafter
        obtain ⟨i, kind⟩ := s
        obtain rfl : kind = .resolve x .chooseTargets := hkind
        refine .inr ⟨x, before, a, hget, hlive, hability, i, q, ?_, htaken, hafter⟩
        simp only [starts?, hrunning, hbegin, Option.map_some]

/-- What is kept by plays that choose no target is kept by an answer that tells none. -/
theorem respond_spectates (h : Engine.Spectates R) (hrunning : m.running = none) (p : PlayerId)
    (n : Nat) :
    Relation.ReflTransGen R m.engine (respond m.engine p n).engine ∨
      ∃ x slot choices, m.TellsTarget (.answer p n) x slot choices n := by
  have hafter : m.after (.answer p n) = respond m.engine p n := by
    unfold after
    rw [hrunning]
  unfold respond at hafter ⊢
  cases hbegin : m.engine.queue.beginAnswer? with
  | none => exact .inl .refl
  | some ipq =>
    obtain ⟨i, ⟨view, player, reply⟩, q⟩ := ipq
    have htaken := StepQueue.frontTaken_beginAnswer hbegin
    rw [hbegin] at hafter
    dsimp only at hafter ⊢
    split
    · rename_i hvalid
      rw [if_pos hvalid] at hafter
      cases reply with
      | script answers => exact .inl (.single (h.front htaken))
      | offer y alternatives =>
        dsimp only
        rw [Engine.asStep_ends]
        have hanswer : (Engine.answerWith n (.offer y alternatives)).Chains R :=
          .ite (h.handles.drop y) (h.handles.accept y _)
        exact .inl (h.asStep htaken (hanswer _))
      | target y slot choices =>
        dsimp only at hafter
        rw [Engine.asStep_ends] at hafter
        refine .inr ⟨y, slot, choices, ⟨p, rfl⟩, i, view, player, q, ?_, hvalid.1, htaken, hafter⟩
        simp only [starts?, hrunning, hbegin, if_pos hvalid]
    · exact .inl .refl

/-- What is kept by plays that choose no target is kept by every deed that chooses none. -/
theorem after_spectates (h : Engine.Spectates R) (m : Moment) (d : Deed) :
    Relation.ReflTransGen R m.engine (m.after d).engine ∨ m.Aims d := by
  obtain ⟨e, running⟩ := m
  cases running with
  | none =>
    cases d with
    | call c => exact .inl (h.call c e)
    | turn => exact (turn_spectates (m := ⟨e, none⟩) h rfl).imp_right .inl
    | answer p n =>
      refine (respond_spectates (m := ⟨e, none⟩) h rfl p n).imp_right fun htells => .inr ?_
      obtain ⟨x, slot, choices, htells⟩ := htells
      exact ⟨x, slot, choices, n, htells⟩
    | go => exact .inl .refl
  | some r =>
    obtain ⟨task, script⟩ := r
    refine .inl ?_
    cases d with
    | go =>
      cases script with
      | done => exact (h.close task e).tail (h.finished _)
      | fail err => exact .single (h.finished e)
      | look next => exact .refl
      | order o next => exact h.order o e
      | raise event change next => exact h.handles.raise event _ e
      | queue label body next =>
        have hpost : (Engine.post (.task label body)).Chains R := h.handles.post rfl
        exact hpost e
      | prompt player title buttons source answers next =>
        have hpost : (Engine.post (.prompt ⟨⟨title, buttons, source⟩, player,
          .script answers⟩)).Chains R := h.handles.post rfl
        exact hpost e
    | _ => exact .refl

end Moment

end Doomtown
