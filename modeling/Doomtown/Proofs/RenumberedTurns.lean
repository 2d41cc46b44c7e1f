import Doomtown.Proofs.NotedPrompts
import Doomtown.Proofs.Renumbering
import Doomtown.Proofs.Requests

/-!
# Turns of engines that mirror each other

A turn of the queue ends alike on engines that mirror each other, unless it offers the ability of
which they have different kinds (`Engine.Mirrors.turn`). So do any number of turns, as long as none
of them offers it (`Engine.Mirrors.settle`).
-/

namespace Doomtown

open Play

namespace Engine

variable {ρ : StepId ↪ StepId} {t : AbilityId} {e e' : Engine}

/-! ## Stages -/

theorem uniform_afterMoves :
    ∀ l : List (CardId × Location × Location), Uniform ρ t (afterMoves l)
  | [] => .answer rfl
  | (c, origin, destination) :: rest =>
    (uniform_afterMove c origin destination).discard.bind_eq fun _ => uniform_afterMoves rest

theorem uniform_payCosts (a : Ability) (x : ActivationId) (activation : Activation) :
    Uniform ρ t (payCosts a x activation) := by
  refine .bind_eq (uniform_onBoard _).attempt fun r => ?_
  rcases r with err | receipts
  · cases err with
    | paymentFailed => exact .bind_eq (uniform_modifyActivation x fun _ => rfl) fun _ => .fail _
    | _ => exact .bind_eq (.trace _ _) fun _ => uniform_modifyActivation x fun _ => rfl
  · exact .bind_eq (uniform_modifyActivation x fun _ => rfl) fun _ =>
      .bind_eq (uniform_afterMoves _) fun _ => .discard (agree_post trivial)

/-- The prompts for a target have numbers that correspond, and so have the notes of them. -/
theorem uniform_promptTarget (a : Ability) (x : ActivationId) (activation : Activation)
    (slot : String) (choices : List ChosenTarget) :
    Uniform ρ t (promptTarget a x activation slot choices) := .bind_seen fun {s s'} h => by
  rw [h.board]
  refine .bind (agree_post trivial) fun {i j} hij => ?_
  subst hij
  exact agree_modifyActivation x fun _ => rfl

theorem uniform_fillSlots (a : Ability) (x : ActivationId) (activation : Activation) :
    ∀ slots : List TargetSlot, Uniform ρ t (fillSlots a x activation slots)
  | [] => .bind_eq (uniform_modifyActivation x fun _ => rfl) fun _ => .discard (agree_post trivial)
  | slot :: rest => by
    unfold fillSlots
    refine .ite (uniform_fillSlots a x activation rest) (.bind_seen fun {s s'} h => ?_)
    rw [h.board]
    split
    · exact .bind_eq (uniform_message _ _ _) fun _ => uniform_modifyActivation x fun _ => rfl
    · exact .bind_eq (uniform_modifyActivation x fun _ => rfl) fun _ =>
        uniform_fillSlots a x activation rest
    · exact uniform_promptTarget a x activation slot.name _

/-- Slots are filled for either kind of an ability. -/
theorem fillSlots_forced (a : Ability) (x : ActivationId) (activation : Activation) :
    ∀ slots : List TargetSlot,
      fillSlots a.forced x activation slots = fillSlots a x activation slots
  | [] => rfl
  | slot :: rest => by
    unfold fillSlots
    rw [fillSlots_forced a x activation rest]
    rfl

theorem uniform_noteHeadline (c : CardId) : Uniform ρ t (noteHeadline c) := .bind_seen fun h => by
  rw [h.board]
  exact .ite (uniform_onBoard _) (.answer rfl)

theorem uniform_discardPlayed (c : CardId) : Uniform ρ t (discardPlayed c) := .bind_seen fun h => by
  rw [h.board]
  exact .ite (uniform_moveCard c _).discard (.answer rfl)

theorem uniform_conclude (a : Ability) (x : ActivationId) (activation : Activation) :
    Uniform ρ t (conclude a x activation) :=
  .bind_eq (.change fun h => { h with usage := by rw [h.usage] }) fun _ =>
    .bind_eq (uniform_noteHeadline a.source) fun _ =>
    .bind_eq (uniform_modifyActivation x fun _ => rfl) fun _ =>
    .bind_eq (uniform_discardPlayed a.source) fun _ =>
    .bind_eq (uniform_raise _ fun _ => trivial) fun _ => .discard (agree_post trivial)

/-- Twins have the same effect. -/
theorem effectScript_twin {a a' : Ability} (h : a.Twin a') (b : Board) (x : Activation) :
    effectScript a b x = effectScript a' b x := by
  have haction := h.isAction
  cases h with
  | same => rfl
  | forced =>
    unfold effectScript fizzles
    rw [haction]
    rfl

/-- An effect refers to no step numbers if the handlers of its ability do not. -/
theorem effectScript_numberless {a : Ability} (h : a.Numberless) (b : Board) (x : Activation) :
    (effectScript a b x).Numberless := by
  unfold effectScript
  split
  · trivial
  · split
    · rename_i effect heffect
      refine h effect ?_ x
      unfold Ability.effect? at heffect
      split at heffect
      · obtain ⟨alternative, halternative, rfl⟩ := Option.map_eq_some_iff.mp heffect
        exact .inr (List.mem_map.mpr ⟨alternative, List.mem_of_getElem? halternative, rfl⟩)
      · exact .inl heffect
    · trivial

/-- Effects of twins end alike. -/
theorem agree_execute {a a' : Ability} (htwin : a.Twin a') (hplain : a'.Numberless)
    (x : ActivationId) (activation : Activation) :
    Agree (Mirrors ρ t) Eq (execute a x activation) (execute a' x activation) := fun s s' h => by
  have hconclude : conclude a x activation = conclude a' x activation := by
    cases htwin <;> rfl
  rw [execute_ends, execute_ends, effectScript_twin htwin, hconclude, h.board]
  exact (uniform_run (effectScript_numberless hplain _ _)).bind_eq
    (fun _ => uniform_conclude a' x activation) _ _ h

/-- A stage goes alike for an activation that notes no prompt. -/
theorem Mirrors.resolve (h : e.Mirrors ρ t e') (x : ActivationId) (stage : ResolutionStage)
    (hprompt : ∀ activation, e'.activations.get? x = some activation → activation.prompt = none) :
    Tally (Mirrors ρ t) Eq ((resolve x stage).ends e) ((resolve x stage).ends e') := by
  have hsame : e'.activations.get? x = e.activations.get? x := by
    rw [h.activations] at hprompt ⊢
    cases hget : e.activations.get? x with
    | none => rfl
    | some activation =>
      have hnone := hprompt (activation.renumbered ρ) (by rw [hget]; rfl)
      rw [Option.map_some, Activation.renumbered_eq (Option.map_eq_none_iff.mp hnone)]
  unfold Engine.resolve
  rw [ends_bind_ok (ends_look _), ends_bind_ok (ends_look _), hsame]
  cases e.activations.get? x with
  | none => exact .ok rfl h
  | some activation =>
    refine Agree.ite (.trace _ _) ((agree_getAbility _).bind fun {a a'} ha => ?_) _ _ h
    obtain ⟨htwin, hplain⟩ := ha
    cases stage with
    | payCosts =>
      have hpay : Engine.payCosts a x activation = Engine.payCosts a' x activation := by
        cases htwin <;> rfl
      rw [hpay]
      exact uniform_payCosts a' x activation
    | chooseTargets =>
      have hfill : Engine.fillSlots a x activation a.targets =
          Engine.fillSlots a' x activation a'.targets := by
        cases htwin with
        | same => rfl
        | forced => exact fillSlots_forced a' x activation a'.targets
      rw [hfill]
      exact uniform_fillSlots a' x activation a'.targets
    | execute => exact agree_execute htwin hplain x activation

/-! ## Windows -/

/-- Candidates are the same, whichever kind of trigger an ability is. -/
theorem Mirrors.collect (h : e.Mirrors ρ t e') (event : GameEvent) :
    e'.collect event = e.collect event := by
  have hcandidate : e'.candidate? event = e.candidate? event := by
    funext s
    unfold candidate?
    rcases h.lookup s.ability with ⟨hnone, hnone'⟩ | ⟨b, b', hability, hability', htwin, -⟩
    · rw [hnone, hnone']
      rfl
    · have htriggered := htwin.isTriggered
      have hrest : b.accepts = b'.accepts ∧ b.responsibleFor = b'.responsibleFor := by
        cases htwin <;> exact ⟨rfl, rfl⟩
      rw [hability, hability', h.board]
      simp only [Option.bind_eq_bind, Option.bind_some, htriggered, hrest.1, hrest.2]
  unfold Engine.collect
  rw [hcandidate, h.board, h.registrar]

theorem uniform_notifyEach : ∀ l : List Subscription, Uniform ρ t (notifyEach l)
  | [] => .answer rfl
  | s :: rest => by
    refine Agree.bind_eq ?_ fun _ => uniform_notifyEach rest
    show Uniform ρ t (notify s)
    unfold notify
    cases s.listener with
    | resetUsage => exact .change fun h => { h with usage := by rw [h.usage] }
    | clearActivations => exact uniform_clearRetractable s.ability
    | trigger => exact .answer rfl

theorem uniform_openWindow (event : GameEvent) : Uniform ρ t (openWindow event) :=
  .bind_seen fun {s s'} h => by
    rw [h.registrar]
    refine .bind_eq (uniform_notifyEach _) fun _ => .bind_seen fun h => ?_
    rw [h.collect]
    exact .ite (.answer rfl) (.bind_eq (.trace _ _) fun _ => .discard (agree_post trivial))

theorem uniform_fire (event : GameEvent) (change : EventChange)
    (h : (StepKind.event event change).Numberless) : Uniform ρ t (fire event change) := by
  have hchange : Uniform ρ t (applyChange change) := by
    cases change with
    | script body => exact uniform_run h
    | emitted x => exact uniform_modifyActivation x fun _ => rfl
  exact hchange.bind_eq fun _ => uniform_openWindow event

/-! ## Offers -/

/-- The ability is legal for the player of a candidate, for an event. -/
def isLegalFor (e : Engine) (t : AbilityId) (event : GameEvent) (c : TriggerCandidate) : Bool :=
  (e.ability? t).any fun a =>
    Legality.isLegal e.board e.usage a (.new t a.source c.player (some event))

/-- The next turn of the queue offers the ability: a window is at the front of which it is the next
candidate, and it is legal. -/
def offersNext (e : Engine) (t : AbilityId) : Bool :=
  match e.queue.steps with
  | ⟨_, .window w⟩ :: _ => w.pending.head?.any fun c =>
      c.ability = t && e.isLegalFor t w.event c
  | _ => false

theorem uniform_startForced (x : ActivationId) {activation : Activation}
    (h : activation.prompt = none) : Uniform ρ t (startForced x activation) :=
  .bind_eq (uniform_putActivation x h) fun _ => .discard (agree_post trivial)

theorem uniform_startPrompted (a : Ability) (x : ActivationId) {activation : Activation}
    (hprompt : activation.prompt = none) : Uniform ρ t (startPrompted a x activation) :=
  .bind_seen fun {s s'} h => by
    rw [h.board]
    exact .bind_eq (uniform_putActivation x hprompt) fun _ => .discard (agree_post trivial)

/-- An ability is offered alike, unless it is the one of which the engines have different kinds. -/
theorem Mirrors.offer (h : e.Mirrors ρ t e') (event : GameEvent) (c : TriggerCandidate)
    (hnot : c.ability = t → e'.isLegalFor t event c = false) :
    Tally (Mirrors ρ t) Eq ((offer event c).ends e) ((offer event c).ends e') := by
  have htake : ∀ e : Engine, takeActivationId.ends e =
      (.ok ⟨e.nextActivation⟩, { e with nextActivation := e.nextActivation + 1 }) := fun _ => rfl
  have htaken : Mirrors ρ t { e with nextActivation := e.nextActivation + 1 }
      { e' with nextActivation := e'.nextActivation + 1 } :=
    { h with nextActivation := congrArg (· + 1) h.nextActivation }
  have hx : (⟨e'.nextActivation⟩ : ActivationId) = ⟨e.nextActivation⟩ := by rw [h.nextActivation]
  unfold Engine.offer
  rw [ends_bind_ok (ends_look _), ends_bind_ok (ends_look _), h.ability?]
  cases hability : e'.ability? c.ability with
  | none => exact .ok rfl h
  | some a =>
    have hsource : a.forced.source = a.source := rfl
    have hcheck : ∀ x, Legality.check e.board e.usage a x =
        Legality.check e'.board e'.usage a x := by
      simp only [h.board, h.usage, implies_true]
    dsimp only [Option.map_some]
    rw [ends_bind_ok (htake e), ends_bind_ok (htake e'), ends_bind_ok (ends_look _),
      ends_bind_ok (ends_look _), hx]
    dsimp only
    by_cases hc : c.ability = t
    · -- It is not legal as either kind.
      have htwin : a.forced.Twin a := .forced a (h.prompted a (hc ▸ hability))
      have hillegal := hnot hc
      unfold isLegalFor Legality.isLegal at hillegal
      rw [← hc, hability, Option.any_some] at hillegal
      rw [if_pos hc, htwin.check, hsource, hcheck]
      cases hlegal : Legality.check e'.board e'.usage a
        (.new c.ability a.source c.player (some event)) with
      | error reason => exact Agree.trace _ _ _ _ htaken
      | ok => simp [hlegal, Except.isOk, Except.toBool] at hillegal
    · rw [if_neg hc, hcheck]
      cases Legality.check e'.board e'.usage a (.new c.ability a.source c.player (some event)) with
      | error reason => exact Agree.trace _ _ _ _ htaken
      | ok =>
        exact Agree.ite (uniform_startForced _ rfl) (uniform_startPrompted a _ rfl) _ _ htaken

theorem Mirrors.advance (h : e.Mirrors ρ t e') (w : TriggerWindow)
    (hnot : ∀ c ∈ w.pending.head?, c.ability = t → e'.isLegalFor t w.event c = false) :
    Tally (Mirrors ρ t) Eq ((advance w).ends e) ((advance w).ends e') := by
  obtain ⟨event, pending⟩ := w
  cases pending with
  | nil => exact Agree.trace _ _ _ _ h
  | cons c rest =>
    refine (h.offer event c (hnot c rfl)).bind fun _ h => ?_
    split
    · exact Agree.trace _ _ _ _ h
    · exact Agree.discard (agree_post (by trivial)) _ _ h

/-! ## Turns -/

/-- A step is done alike, whatever its number, if no prompt is noted where it begins a stage, and
unless it offers the ability of which the engines have different kinds. -/
theorem Mirrors.runStep (h : e.Mirrors ρ t e') (s : Step) (hplain : s.kind.Numberless)
    (hprompt : ∀ x stage, s.kind = .resolve x stage → ∀ activation,
      e'.activations.get? x = some activation → activation.prompt = none)
    (hnot : ∀ w, s.kind = .window w → ∀ c ∈ w.pending.head?, c.ability = t →
      e'.isLegalFor t w.event c = false) :
    Tally (Mirrors ρ t) Eq ((runStep s).ends e) ((runStep (s.renumbered ρ)).ends e') := by
  rw [runStep_kind, runStep_kind]
  obtain ⟨i, kind⟩ := s
  unfold Step.renumbered
  cases kind with
  | task label body => exact uniform_run hplain _ _ h
  | resolve x stage => exact h.resolve x stage (hprompt x stage rfl)
  | complete x =>
    have hcomplete : Uniform ρ t (complete x) := uniform_modifyActivation x fun _ => rfl
    exact hcomplete _ _ h
  | event event change => exact uniform_fire event change hplain _ _ h
  | window w => exact h.advance w (hnot w rfl)
  | prompt p => exact .error _ h

/-- What is played as a step ends alike if it does while the step runs. -/
theorem tally_asStep {q q' : StepQueue} {p p' : Play Engine Unit}
    (h : Tally (Mirrors ρ t) Eq (p.ends { e with queue := q }) (p'.ends { e' with queue := q' })) :
    Tally (Mirrors ρ t) Eq ((asStep q p).ends e) ((asStep q' p').ends e') := by
  rw [asStep_ends, asStep_ends]
  exact .of_eq h.result_eq h.state.finished

/-- A turn of the queue ends alike, unless it offers the ability. -/
theorem Mirrors.turn (h : e.Mirrors ρ t e') (hreached : Moment.Reached ⟨e', none⟩)
    (hnot : e'.offersNext t = false) :
    Tally (Mirrors ρ t) Eq (turn.ends e) (turn.ends e') := by
  unfold Engine.turn
  rw [ends_bind_ok (ends_look _), ends_bind_ok (ends_look _), h.queue.frontPrompt?]
  cases e.queue.frontPrompt? with
  | some p => exact (uniform_awaitPrompt p).bind_eq (fun _ => .answer rfl) _ _ h
  | none =>
    rcases h.queue.begin? with ⟨hnone, hnone'⟩ | ⟨s, q, q', hbegin, hbegin', hq⟩
    · rw [hnone, hnone']
      exact .ok rfl h
    rw [hbegin, hbegin']
    have htaken := StepQueue.frontTaken_begin hbegin'
    have hstarts : Moment.starts? ⟨e', none⟩ .turn = some (s.renumbered ρ) := by
      simp [Moment.starts?, hbegin']
    have hbegun : Mirrors ρ t { e with queue := q } { e' with queue := q' } :=
      h.withQueue hq fun s' hs' => h.scripts s' (by rw [htaken.order]; exact .tail _ hs')
    have hplain : s.kind.Numberless :=
      h.scripts (s.renumbered ρ) (by rw [htaken.order]; exact .head _)
    refine (tally_asStep (hbegun.runStep s hplain (fun x stage hkind activation => ?_)
      fun w hkind c hc ht => ?_)).bind fun _ h => .ok rfl h
    · obtain ⟨i, kind⟩ := s
      obtain rfl : kind = .resolve x stage := hkind
      exact hreached.prompt_none hstarts
    · obtain ⟨rest, -, hfront, -⟩ := StepQueue.begin?_eq_some hbegin'
      obtain ⟨i, kind⟩ := s
      obtain rfl : kind = .window w := hkind
      show e'.isLegalFor t w.event c = false
      simpa [offersNext, hfront, Step.renumbered, Option.mem_def.mp hc, ht] using hnot

/-- Turns of the queue end alike, as long as none of them offers the ability. -/
theorem Mirrors.settle (h : e.Mirrors ρ t e') (hreached : Moment.Reached ⟨e', none⟩) (fuel : Nat)
    (hnot : ∀ k < fuel, ∀ e₁, (settle k).ends e' = (.ok none, e₁) → e₁.offersNext t = false) :
    Tally (Mirrors ρ t) Eq ((settle fuel).ends e) ((settle fuel).ends e') := by
  induction fuel generalizing e e' with
  | zero => exact .ok rfl h
  | succ fuel ih =>
    have hturn := h.turn hreached (hnot 0 (Nat.succ_pos fuel) e' rfl)
    have hleads := leads_of_chain (turn_leads e')
    rw [settle_succ, ends_bind, ends_bind]
    generalize hends : Engine.turn.ends e = r at hturn
    generalize hends' : Engine.turn.ends e' = r' at hturn hleads
    cases hturn with
    | error err hstate => exact .error err hstate
    | @ok status status' _ e₁ hstatus hstate =>
      subst hstatus
      cases status with
      | some status => exact .ok rfl hstate
      | none =>
        refine ih hstate (hreached.leads hleads) fun k hk e₂ hsettle => ?_
        refine hnot (k + 1) (Nat.succ_lt_succ hk) e₂ ?_
        rw [settle_succ, ends_bind_ok hends']
        exact hsettle

end Engine

end Doomtown
