import Doomtown.Proofs.AskedTargets
import Doomtown.Proofs.DrivenRuns
import Doomtown.Proofs.OwnLatest

/-!
# One step in flight

An activation and its steps know of each other by numbers only, and each of the plays that take an
activation on changes the one and then the other. Still they keep in step: in a driven run in which
no step fails and nobody withdraws the steps of activations, a live activation has those steps
waiting that its stage calls for whenever no step runs, and nothing else has any
(`Moment.one_step_in_flight`).

Only to retract an activation could break this, for it withdraws no step but the prompt that is
noted. But what can be retracted has paid nothing that sets off an event, so the choice of its
targets starts at once when its costs are paid (`Moment.FillsNext`), and while it can be retracted
the only step that waits for it is its prompt.
-/

namespace Doomtown

open Play

/-! ## The steps of an activation -/

namespace StepQueue

variable {q : StepQueue} {x : ActivationId}

/-- The steps that wait for an activation, the next one first. -/
def stepsOf (q : StepQueue) (x : ActivationId) : List Step :=
  q.order.filter fun s => (part x s).isSome

theorem map_part_stepsOf (q : StepQueue) (x : ActivationId) :
    (q.stepsOf x).map (part x) = (q.partsOf x).map some := by
  rw [partsOf_eq, stepsOf]
  induction q.order with
  | nil => rfl
  | cons s rest ih => cases hpart : part x s <;> simp [hpart, ih]

theorem stepsOf_of_nil (h : q.partsOf x = []) : q.stepsOf x = [] := by
  have hmap := q.map_part_stepsOf x
  rw [h] at hmap
  exact List.map_eq_nil_iff.mp hmap

/-- Where one part waits, one step does. -/
theorem stepsOf_of_one {p : Part} (h : q.partsOf x = [p]) :
    ∃ i kind, q.stepsOf x = [⟨i, kind⟩] ∧ kind.part? = some (x, p) := by
  have hmap := q.map_part_stepsOf x
  rw [h, List.map_singleton] at hmap
  obtain ⟨⟨i, kind⟩, hsteps, hpart⟩ := List.map_eq_singleton_iff.mp hmap
  exact ⟨i, kind, hsteps, part_eq_some_iff.mp hpart⟩

theorem stepsOf_of_two {p p' : Part} (h : q.partsOf x = [p, p']) :
    ∃ i kind j kind', q.stepsOf x = [⟨i, kind⟩, ⟨j, kind'⟩] ∧ kind.part? = some (x, p) ∧
      kind'.part? = some (x, p') := by
  have hmap := q.map_part_stepsOf x
  rw [h, List.map_cons, List.map_singleton] at hmap
  obtain ⟨⟨i, kind⟩, rest, hsteps, hpart, hrest⟩ := List.map_eq_cons_iff.mp hmap
  obtain ⟨⟨j, kind'⟩, rfl, hpart'⟩ := List.map_eq_singleton_iff.mp hrest
  exact ⟨i, kind, j, kind', hsteps, part_eq_some_iff.mp hpart, part_eq_some_iff.mp hpart'⟩

theorem stepsOf_of_empty (h : q.pending = []) : q.stepsOf x = [] :=
  List.filter_eq_nil_iff.mpr fun s hs => by
    have hwaits := mem_pending_iff.mpr hs
    simp [h] at hwaits

/-- What is pushed first by a step is the next to start when the step has ended. -/
theorem begin?_push (kind : StepKind) (hrunning : q.running = some [])
    (hkind : ∀ p, kind ≠ .prompt p) :
    ∃ q', (q.push kind).finish.begin? = some (⟨q.nextStep, kind⟩, q') := by
  obtain ⟨rest, hfront⟩ := List.head?_eq_some_iff.mp (head?_push hrunning kind).1
  exact ⟨_, begin?_front rfl hfront hkind⟩

end StepQueue

/-- The steps that play a part of an activation. -/
def Part.PlayedBy (x : ActivationId) (kind : StepKind) : Part → Prop
  | .offer => ∃ view p alternatives, kind = .prompt ⟨view, p, .offer x alternatives⟩
  | .pay => kind = .resolve x .payCosts
  | .choose => kind = .resolve x .chooseTargets ∨
      ∃ view p slot choices, kind = .prompt ⟨view, p, .target x slot choices⟩
  | .execute => kind = .resolve x .execute
  | .effect => False
  | .announce => ∃ event, kind = .event event (.emitted x)
  | .complete => kind = .complete x

theorem StepKind.playedBy {kind : StepKind} {x : ActivationId} {p : Part}
    (h : kind.part? = some (x, p)) : p.PlayedBy x kind := by
  unfold part? at h
  split at h
  all_goals first
    | obtain ⟨rfl, rfl⟩ := Prod.mk.inj (Option.some.inj h)
      simp [Part.PlayedBy]
    | simp at h

/-- The steps that the stage of an activation calls for. -/
inductive Activation.CallsFor (x : ActivationId) (activation : Activation) : List Step → Prop where
  | offer (hstage : activation.stage = .idle) (i : StepId) (view : PromptView) (p : PlayerId)
      (alternatives : Nat) : CallsFor x activation [⟨i, .prompt ⟨view, p, .offer x alternatives⟩⟩]
  | pay (hstage : activation.stage = .legalityChecked) (i : StepId) :
    CallsFor x activation [⟨i, .resolve x .payCosts⟩]
  | choose (hstage : activation.stage = .costsPaid) (hprompt : activation.prompt = none)
      (i : StepId) : CallsFor x activation [⟨i, .resolve x .chooseTargets⟩]
  | answer (hstage : activation.stage = .costsPaid) {i : StepId}
      (hprompt : activation.prompt = some i) (view : PromptView) (p : PlayerId) (slot : String)
      (choices : List ChosenTarget) :
    CallsFor x activation [⟨i, .prompt ⟨view, p, .target x slot choices⟩⟩]
  | execute (hstage : activation.stage = .targetsResolved) (i : StepId) :
    CallsFor x activation [⟨i, .resolve x .execute⟩]
  | announce (hstage : activation.stage = .executed) (i j timestamp : Nat) :
    CallsFor x activation [activation.announcement x i timestamp, completion x j]
  | complete (hstage : activation.stage = .eventEmitted) (i : Nat) :
    CallsFor x activation [completion x i]

/-- At every stage of a live activation some step is called for. -/
theorem Activation.CallsFor.ne_nil {x : ActivationId} {activation : Activation} {steps : List Step}
    (h : activation.CallsFor x steps) : steps ≠ [] := by
  cases h <;> simp

/-! ## What an activation has ahead -/

/-- What is entered has everything ahead of it. -/
theorem Advance.onTrack_entered {admits : AbilityId → Prop} {a' : Option Activation}
    {ps' : List Part} {o : Option Occurrence} (h : Advance admits none [] o a' ps') :
    OnTrack a' ps' := by
  cases h with
  | start hstage hlive | offer hstage hlive =>
    exact ⟨(Activation.isLive_iff.mp hlive).2.1, .inr (.inl (by rw [hstage]; rfl))⟩

/-- The choice of targets comes to wait from another choice or when the costs are paid. -/
theorem Advance.chooses {admits : AbilityId → Prop} {a a' : Option Activation} {ps ps' : List Part}
    {o : Option Occurrence} (h : Advance admits a ps o a' ps') (hp : .choose ∈ ps') :
    .choose ∈ ps ∨ ps = [.pay] := by
  cases h with
  | pay => exact .inr rfl
  | ask | answer => exact .inl List.mem_cons_self
  | retract _ hps => exact .inl (hps.subset hp)
  | conclude _ hps => rcases hps with rfl | rfl <;> simp at hp
  | announce _ hps => exact .inl (List.mem_cons_of_mem _ hp)
  | _ => simp at hp

namespace Engine

variable {e : Engine} {x : ActivationId} {activation activation' : Activation}

/-- A payment that can be taken back moves no card. -/
theorem movedBy?_of_isReversible {r : CostReceipt} (h : r.isReversible) : movedBy? r = none := by
  cases r with
  | moved => simp [CostReceipt.isReversible] at h
  | _ => rfl

/-- If all that was paid can be taken back, the choice of targets is the one step that is queued. -/
theorem queue_of_reversible (hget : e.activations.get? x = some activation)
    (hlive : activation.isLive) (hnone : e.queue.partsOf x = [])
    (hget' : ((resolve x .payCosts).ends e).2.activations.get? x = some activation')
    (hreversible : ∀ r ∈ activation'.receipts, r.isReversible) :
    ((resolve x .payCosts).ends e).2.queue = e.queue ∨
      ((resolve x .payCosts).ends e).2.queue = e.queue.push (.resolve x .chooseTargets) := by
  cases hability : e.ability? activation.ability with
  | none =>
    left
    rw [resolve_idle]
    intro before a hbefore _ hability'
    obtain rfl := Option.some.inj (hget.symm.trans hbefore)
    simp [hability] at hability'
  | some a =>
    rw [resolve_live .payCosts hget hlive hability] at hget' ⊢
    dsimp only at hget' ⊢
    rcases hpay : (Payment.payAll a.title activation a.costs).ends e.board with
      ⟨err | receipts, b⟩
    · left
      rw [payCosts_refused hpay]
    · right
      obtain rfl := Option.some.inj ((payCosts_filed hget hnone hpay).symm.trans hget')
      have hmoves : receipts.filterMap movedBy? = [] :=
        List.filterMap_eq_nil_iff.mpr fun r hr => movedBy?_of_isReversible (hreversible r hr)
      rw [payCosts_paid hpay, hmoves]
      rfl

end Engine

namespace Moment

variable {m : Moment} {d : Deed} {x : ActivationId} {activation activation' : Activation} {s : Step}

/-- No step fails by a deed, and no step of an activation is withdrawn by order. -/
def Unbroken (m : Moment) (d : Deed) : Prop := m.fails d = false ∧ m.Undisturbed d

instance (m : Moment) (d : Deed) : Decidable (m.Unbroken d) :=
  inferInstanceAs (Decidable (_ ∧ _))

/-- An activation has everything ahead of it that it should have, or it was retracted and has
nothing ahead. -/
def Stands (m : Moment) (x : ActivationId) : Prop :=
  m.OnTrack x ∨ m.partsOf x = [] ∧
    ∃ activation, m.engine.activations.get? x = some activation ∧ activation.deactivated

theorem Stands.parts_of_none (h : m.Stands x) (hnone : m.engine.activations.get? x = none) :
    m.partsOf x = [] := by
  rcases h with hon | ⟨hnil, -⟩
  · unfold OnTrack at hon
    rw [hnone] at hon
    exact hon
  · exact hnil

/-- What a deed spares or enters stands as it should. -/
theorem Sound.onTrack_entered (h : m.Sound) (hnone : m.engine.activations.get? x = none)
    (hnil : m.partsOf x = []) (d : Deed) : (m.after d).OnTrack x := by
  unfold OnTrack
  rcases (Moment.passage h d).spared_or_taken x with ⟨usage, mine, hspares, hmine, heffect, -⟩ |
    ⟨o, hadvance, -, -, -⟩
  · have hsub := partsOf_sublist (e := { m.engine with usage := usage }) rfl hspares hmine heffect
    rw [hnil] at hsub
    have hgone : (m.after d).engine.activations.get? x = none := by
      rcases hspares.activations x hmine with heq | ⟨_, -, -, hgone⟩
      · exact heq.trans hnone
      · exact hgone
    rw [hgone]
    exact List.sublist_nil.mp hsub
  · rw [hnone, hnil] at hadvance
    exact hadvance.onTrack_entered

/-- Nothing more happens to what was retracted but that it is forgotten. -/
theorem Sound.stands_retracted (h : m.Sound) (hnil : m.partsOf x = [])
    (hget : m.engine.activations.get? x = some activation) (hretracted : activation.deactivated)
    (d : Deed) : (m.after d).Stands x := by
  rcases (Moment.passage h d).spared_or_taken x with ⟨usage, mine, hspares, hmine, heffect, -⟩ |
    ⟨o, hadvance, -, -, -⟩
  · have hsub := partsOf_sublist (e := { m.engine with usage := usage }) rfl hspares hmine heffect
    rw [hnil] at hsub
    rcases hspares.activations x hmine with heq | ⟨_, -, -, hgone⟩
    · exact .inr ⟨List.sublist_nil.mp hsub, activation, heq.trans hget, hretracted⟩
    · left
      unfold OnTrack
      rw [hgone]
      exact List.sublist_nil.mp hsub
  · -- It is at its last stage, so nothing takes it on.
    have hfits := h.fits x
    rw [hget] at hfits hadvance
    have hstage := hfits.deactivated.mp hretracted
    rw [hnil] at hadvance
    simp [stage_of_advance_nil hadvance] at hstage

/-- When an activation is retracted while no step waits that would fill its slots, its prompt is
withdrawn and nothing is left of it. -/
theorem Reached.stands_of_retract (h : m.Reached) (hon : m.OnTrack x)
    (hget : m.engine.activations.get? x = some activation) {a : AbilityId} {p : PlayerId}
    (hgives : m.gives d = some (.retract a p)) (ho : m.engine.latestRetractable? a = some x)
    (hfills : Engine.canRetract m.engine.board p activation →
      ∀ s ∈ m.engine.queue.order, s.kind ≠ .resolve x .chooseTargets) : (m.after d).Stands x := by
  have heffect := (after_gives hgives).2
  rcases after_retract hgives ho hget with ⟨hqueue, hactivations⟩ | ⟨hcan, hqueue, hretracted⟩
  · left
    unfold OnTrack partsOf
    rw [hqueue, hactivations, heffect]
    exact hon
  · have hstage := Engine.stage_of_canRetract hcan
    refine .inr ⟨?_, _, hretracted, rfl⟩
    -- No effect of it is running, for it has not got all its targets yet.
    have hidle : ∀ t, (m.after d).effect? = some t → t.2.1 ≠ x := by
      rintro ⟨a', _, running⟩ ht rfl
      rw [heffect] at ht
      have hruns := h.sound.part_of_paid hget hstage (p := .effect) (by simp [partsOf_of_effect ht])
      simp at hruns
    rw [partsOf_of_no_effect hidle, hqueue]
    -- A step that waits for it still would have waited before, so it would choose targets.
    refine List.eq_nil_iff_forall_not_mem.mpr fun p hp => ?_
    obtain ⟨s, hs, hpart⟩ := StepQueue.mem_partsOf_iff.mp hp
    have hwaited := (Engine.order_withdrawPrompt_sublist _ _).subset hs
    obtain rfl := h.sound.part_of_paid hget hstage (mem_partsOf_of_order hwaited hpart)
    obtain ⟨i, kind⟩ := s
    rcases choose_forms hpart with rfl | ⟨view, asked, slot, choices, rfl⟩
    · exact hfills hcan _ hwaited rfl
    · -- It is the prompt that was noted.
      have hnoted := h.asksNoted x activation hget _ hwaited hpart rfl
      rw [hnoted] at hs
      exact StepQueue.id_ne_of_mem_withdraw h.distinct hs rfl

/-- Whatever is done to an activation that is on track, it stands as it should afterwards. -/
theorem Reached.stands_of_onTrack (h : m.Reached) (hon : m.OnTrack x)
    (hget : m.engine.activations.get? x = some activation) (hd : m.Unbroken d)
    (hfills : ∀ a p, m.gives d = some (.retract a p) →
      Engine.canRetract m.engine.board p activation →
      ∀ s ∈ m.engine.queue.order, s.kind ≠ .resolve x .chooseTargets) : (m.after d).Stands x := by
  have hforeign : ∀ i ∈ m.withdraws d, ∀ s ∈ m.engine.queue.order, s.id = i →
      ∀ t ∈ s.kind.part?, t.1 ≠ x := by
    intro i hi s hs hsi t ht
    have hnone := hd.2 i hi s (StepQueue.mem_pending_iff.mpr hs) hsi
    simp [hnone] at ht
  rcases h.sound.onTrack_or_retracts h.ready hon hget hd.1 hforeign with
    hstays | ⟨a, p, hgives, ho⟩
  · exact .inl hstays
  · exact h.stands_of_retract hon hget hgives ho (hfills a p hgives)

/-! ## The choice of targets -/

/-- Where all that was paid can be taken back, a step that fills slots waits only if it is the next
to start, and a step has just ended. -/
def FillsNext (m : Moment) (ended : Bool) : Prop :=
  ∀ x activation, m.engine.activations.get? x = some activation →
    (∀ r ∈ activation.receipts, r.isReversible) → ∀ s ∈ m.engine.queue.order,
    s.kind = .resolve x .chooseTargets →
    ended ∧ m.running = none ∧ ∃ q, m.engine.queue.begin? = some (s, q)

variable {ended : Bool}

/-- While an activation can be retracted, no step waits that would fill its slots. -/
theorem FillsNext.not_fills (h : m.FillsNext ended)
    (hdriven : ended → m.engine.queue.begin?.isSome → d.isTurn) {a : AbilityId} {p : PlayerId}
    (hgives : m.gives d = some (.retract a p))
    (hget : m.engine.activations.get? x = some activation)
    (hcan : Engine.canRetract m.engine.board p activation) :
    ∀ s ∈ m.engine.queue.order, s.kind ≠ .resolve x .chooseTargets := by
  intro s hs hkind
  have hunpayable : Payment.canUnpayAll m.engine.board activation.receipts :=
    (Engine.canRetract_iff.mp hcan).2.2
  have hreversible : ∀ r ∈ activation.receipts, r.isReversible := fun r hr =>
    CostReceipt.isReversible_of_canUnpay (List.all_eq_true.mp hunpayable r hr)
  obtain ⟨hended, hidle, q, hbegin⟩ := h x activation hget hreversible s hs hkind
  -- The step would start now.
  obtain rfl := Deed.eq_turn (hdriven hended (by rw [hbegin]; rfl))
  simp [gives, hidle] at hgives

/-- Once a step that fills slots has started, no other waits for the activation. -/
theorem Sound.not_fills_after (h : m.Sound) {i : StepId}
    (hstarts : m.starts? d = some ⟨i, .resolve x .chooseTargets⟩) :
    ∀ s ∈ (m.after d).engine.queue.order, s.kind ≠ .resolve x .chooseTargets := by
  have hnone : ∀ {q : StepQueue}, m.engine.queue.FrontTaken ⟨i, .resolve x .chooseTargets⟩ q →
      ∀ s ∈ q.order, s.kind ≠ .resolve x .chooseTargets := fun htaken => by
    obtain ⟨_, hrunning, -⟩ := frontTaken_of_starts hstarts
    exact not_fills_of_partsOf (h.partsOf_front hrunning rfl htaken)
  rcases fillsSlots_of_starts hstarts with ⟨before, a, hfills⟩ | ⟨q, htaken, hafter⟩
  · obtain ⟨j, q, hstarts', htaken, hafter⟩ := hfills.fills
    obtain ⟨rfl, -⟩ := Step.mk.inj (Option.some.inj (hstarts.symm.trans hstarts'))
    obtain ⟨e', hend, hends⟩ :=
      Engine.fillSlots_ends { m.engine with queue := q } a x before a.targets
    rw [hafter, hend]
    intro s hs
    cases hends with
    | missed chosen => exact hnone htaken s hs
    | resolved chosen | asked chosen =>
      rcases StepQueue.mem_order_push.mp hs with hold | rfl
      · exact hnone htaken s hold
      · simp
  · intro s hs
    rw [hafter] at hs
    exact hnone htaken s hs

/-- If the choice of targets comes to wait by a deed, it waited before or costs were to be paid. -/
theorem Sound.chooses_before (h : m.Sound) (hs : s ∈ (m.after d).engine.queue.order)
    (hpart : s.kind.part? = some (x, .choose)) :
    m.partsOf x = [.choose] ∨ m.partsOf x = [.pay] := by
  have hmem : .choose ∈ (m.after d).partsOf x := mem_partsOf_of_order hs hpart
  rcases (Moment.passage h d).spared_or_taken x with ⟨usage, mine, hspares, hmine, heffect, -⟩ |
    ⟨o, hadvance, -, -, -⟩
  · have hsub := partsOf_sublist (e := { m.engine with usage := usage }) rfl hspares hmine heffect
    exact .inl ((h.fits x).eq_of_choose (hsub.subset hmem))
  · exact (hadvance.chooses hmem).imp_left (h.fits x).eq_of_choose

/-- A step that fills slots is queued when the costs are paid or a target is told. -/
theorem Sound.starts_of_fills (h : m.Sound) (hget : m.engine.activations.get? x = some activation)
    (hs : s ∈ (m.after d).engine.queue.order) (hnew : s ∉ m.engine.queue.order)
    (hkind : s.kind = .resolve x .chooseTargets) :
    (∃ i, m.starts? d = some ⟨i, .resolve x .payCosts⟩) ∨
      ∃ slot choices n, m.TellsTarget d x slot choices n := by
  have hpart : s.kind.part? = some (x, .choose) := by rw [hkind]; rfl
  have habout : m.isAbout d x := (h.waited_or_about hs hpart).resolve_left hnew
  rcases h.about_filed hget habout with ⟨a, p, hgives, ho⟩ | ⟨⟨i, kind⟩, p, hstarts, ht⟩ |
    ⟨a, running, script, -, hrunning, -⟩
  · rcases after_retract hgives ho hget with ⟨hqueue, -⟩ | ⟨-, hqueue, -⟩
    · exact absurd (hqueue ▸ hs) hnew
    · rw [hqueue] at hs
      exact absurd ((Engine.order_withdrawPrompt_sublist _ _).subset hs) hnew
  · obtain ⟨ps, hfront⟩ := partsOf_of_starts hstarts ht
    rcases h.chooses_before hs hpart with hparts | hparts
    · obtain ⟨rfl, -⟩ := List.cons.inj (hfront.symm.trans hparts)
      rcases choose_forms ht with rfl | ⟨view, asked, slot, choices, rfl⟩
      · exact absurd hkind (h.not_fills_after hstarts s hs)
      · obtain ⟨n, htells⟩ := tellsTarget_of_starts hstarts
        exact .inr ⟨slot, choices, n, htells⟩
    · obtain ⟨rfl, -⟩ := List.cons.inj (hfront.symm.trans hparts)
      obtain rfl : kind = .resolve x .payCosts := StepKind.playedBy ht
      exact .inl ⟨i, hstarts⟩
  · obtain ⟨ps, hfront⟩ := partsOf_of_running hrunning
    rcases h.chooses_before hs hpart with hparts | hparts <;> simp [hfront] at hparts

/-- The step that fills slots after a payment that can be taken back is the next to start. -/
theorem Sound.first_after_pay (h : m.Sound) {i : StepId}
    (hstarts : m.starts? d = some ⟨i, .resolve x .payCosts⟩)
    (hget : m.engine.activations.get? x = some activation)
    (hget' : (m.after d).engine.activations.get? x = some activation')
    (hreversible : ∀ r ∈ activation'.receipts, r.isReversible)
    (hs : s ∈ (m.after d).engine.queue.order) (hnew : s ∉ m.engine.queue.order) :
    (m.after d).running = none ∧ ∃ q, (m.after d).engine.queue.begin? = some (s, q) := by
  cases d with
  | turn =>
    obtain ⟨q, hidle, hbegin, hafter⟩ := begin?_of_starts hstarts
    have htaken := StepQueue.frontTaken_begin hbegin
    have hrunning : q.running = some [] := by
      obtain ⟨_, -, -, rfl⟩ := StepQueue.begin?_eq_some hbegin
      rfl
    have hunqueued : s ∉ q.order := fun hold =>
      hnew (by rw [htaken.order]; exact List.mem_cons_of_mem _ hold)
    obtain ⟨-, hfits⟩ := h.fits_front (x := x) (p := .pay) hidle rfl htaken
    obtain ⟨_, hget₀, hlive, -, hnone⟩ := follows_of_fits hfits (by decide)
    obtain rfl := Option.some.inj (hget.symm.trans hget₀)
    simp only [turn, hbegin, Engine.opening, Engine.asStep_ends, Engine.runStep_kind] at hafter
    rw [hafter] at hs hget' ⊢
    refine ⟨rfl, ?_⟩
    change s ∈ ((Engine.resolve x .payCosts).ends { m.engine with queue := q }).2.queue.order at hs
    -- What is pushed first by a step is the first to start after it.
    rcases Engine.queue_of_reversible (e := { m.engine with queue := q }) hget hlive hnone hget'
      hreversible with hsame | hpushed
    · rw [hsame] at hs
      exact absurd hs hunqueued
    · rw [hpushed] at hs
      obtain rfl := (StepQueue.mem_order_push.mp hs).resolve_left hunqueued
      obtain ⟨q', hq'⟩ := StepQueue.begin?_push (.resolve x .chooseTargets) hrunning (by simp)
      exact ⟨q', (congrArg (·.finish.begin?) hpushed).trans hq'⟩
  | answer =>
    obtain ⟨_, _, _, -, -, hstep, -⟩ := beginAnswer?_of_starts hstarts
    simp at hstep
  | _ => cases hr : m.running <;> simp [starts?, hr] at hstarts

/-- So is the one that fills the other slots after an answer. -/
theorem TellsTarget.first_after {slot : String} {choices : List ChosenTarget} {n : Nat}
    (h : m.TellsTarget d x slot choices n) (hs : s ∈ (m.after d).engine.queue.order)
    (hnew : s ∉ m.engine.queue.order) :
    (m.after d).running = none ∧ ∃ q, (m.after d).engine.queue.begin? = some (s, q) := by
  obtain ⟨p, rfl⟩ := h.answer
  obtain ⟨i, view, asked, _, hstarts, -, -, -⟩ := h.tells
  obtain ⟨_, prompt, q, -, hbegin, hstep, -, hafter⟩ := beginAnswer?_of_starts hstarts
  obtain ⟨rfl, hprompt⟩ := Step.mk.inj hstep
  obtain rfl := StepKind.prompt.inj hprompt
  have htaken := StepQueue.frontTaken_beginAnswer hbegin
  have hrunning : q.running = some [] := by
    obtain ⟨_, -, -, rfl⟩ := StepQueue.beginAnswer?_eq_some hbegin
    rfl
  have hunqueued : s ∉ q.order := fun hold =>
    hnew (by rw [htaken.order]; exact List.mem_cons_of_mem _ hold)
  dsimp only at hafter
  rw [Engine.asStep_ends, Engine.answerWith, Engine.chooseTarget] at hafter
  cases hpick : choices[n]? with
  | none =>
    rw [hpick] at hafter
    rw [hafter] at hs
    exact absurd hs hunqueued
  | some t =>
    rw [hpick] at hafter
    rw [hafter] at hs ⊢
    obtain rfl := (StepQueue.mem_order_push.mp hs).resolve_left hunqueued
    exact ⟨rfl, StepQueue.begin?_push _ hrunning (by simp)⟩

/-- Where the choice of targets waits, a deed that goes on with the activation notes no payment. -/
theorem Sound.receipts_kept (h : m.Sound) (hready : m.Ready) (hparts : m.partsOf x = [.choose])
    (hget : m.engine.activations.get? x = some activation)
    (hget' : (m.after d).engine.activations.get? x = some activation') :
    activation'.receipts = activation.receipts := by
  have hold : x ≠ ⟨m.engine.nextActivation⟩ := by
    rintro rfl
    simp [(h.fresh ⟨m.engine.nextActivation⟩ (Nat.le_refl _)).1] at hget
  cases h.files hready hget' with
  | played _ hx | offered _ hx => exact absurd hx hold
  | accepted _ _ _ _ hbefore =>
    obtain rfl := Option.some.inj (hget.symm.trans hbefore)
    rfl
  | paid hstarts =>
    -- The costs are paid by a part that does not wait here.
    obtain ⟨ps, hfront⟩ := partsOf_of_starts (x := x) (p := .pay) hstarts rfl
    simp [hparts] at hfront
  | goes hbefore hcarries =>
    obtain rfl := Option.some.inj (hget.symm.trans hbefore)
    exact hcarries.receipts

/-- By a deed such a step starts, or comes to wait as the next. -/
theorem FillsNext.after (h : m.FillsNext ended) (hstands : ∀ x, m.Stands x) (hreached : m.Reached)
    (hdriven : ended → m.engine.queue.begin?.isSome → d.isTurn) :
    (m.after d).FillsNext (m.endsStep d) := by
  intro x activation' hget' hreversible s hs hkind
  have hsound := hreached.sound
  have hpart : s.kind.part? = some (x, .choose) := by rw [hkind]; rfl
  cases hget : m.engine.activations.get? x with
  | none =>
    -- Nothing has waited for what is entered only now.
    have hnil := (hstands x).parts_of_none hget
    rcases hsound.chooses_before hs hpart with hparts | hparts <;> simp [hnil] at hparts
  | some activation =>
    by_cases hold : s ∈ m.engine.queue.order
    · have hsame := hsound.receipts_kept hreached.ready (hsound.partsOf_of_choose hold hpart) hget
        hget'
      obtain ⟨hended, hidle, q, hbegin⟩ := h x activation hget (hsame ▸ hreversible) s hold hkind
      -- It starts by this deed, so it does not wait any more.
      obtain rfl := Deed.eq_turn (hdriven hended (by rw [hbegin]; rfl))
      obtain ⟨i, kind⟩ := s
      obtain rfl : kind = .resolve x .chooseTargets := hkind
      have hstarts : m.starts? .turn = some ⟨i, .resolve x .chooseTargets⟩ := by
        simp [starts?, hidle, hbegin]
      exact absurd rfl (hsound.not_fills_after hstarts _ hs)
    · rcases hsound.starts_of_fills hget hs hold hkind with
        ⟨i, hstarts⟩ | ⟨slot, choices, n, htells⟩
      · obtain ⟨hidle, hfirst⟩ := hsound.first_after_pay hstarts hget hget' hreversible hs hold
        exact ⟨endsStep_of_starts hstarts hidle, hidle, hfirst⟩
      · obtain ⟨hidle, hfirst⟩ := htells.first_after hs hold
        obtain ⟨_, _, _, _, hstarts, -⟩ := htells.tells
        exact ⟨endsStep_of_starts hstarts hidle, hidle, hfirst⟩

/-! ## The event of a resolution -/

/-- Whatever is done to an activation that is filed, it stays one of the same ability, the same card
and the same player. -/
theorem Sound.identity_kept (h : m.Sound) (hready : m.Ready)
    (hget : m.engine.activations.get? x = some activation)
    (hget' : (m.after d).engine.activations.get? x = some activation') :
    activation'.ability = activation.ability ∧ activation'.source = activation.source ∧
      activation'.player = activation.player := by
  obtain ⟨hability, hplayer, -⟩ := h.files_of_filed hget (h.files hready hget')
  refine ⟨hability, ?_, hplayer⟩
  rcases (Moment.passage h d).spared_or_taken x with ⟨usage, mine, hspares, hmine, -, -⟩ |
    ⟨o, hadvance, -, -, -⟩
  · have hsame := get?_spared (e := { m.engine with usage := usage }) rfl hspares hmine hget'
    obtain rfl := Option.some.inj (hget.symm.trans hsame)
    rfl
  · rw [hget, hget'] at hadvance
    exact hadvance.same.2

/-- The events of resolutions that wait tell of their activations. -/
def Announces (m : Moment) : Prop :=
  ∀ x activation, m.engine.activations.get? x = some activation → ∀ s ∈ m.engine.queue.order,
    ∀ event, s.kind = .event event (.emitted x) →
      event.data = .abilityResolved activation.ability activation.source activation.player

/-- The event that is queued with the end of an effect tells of its activation. -/
theorem Reached.announced (h : m.Reached) (hsucceeds : m.fails d = false) {event : GameEvent}
    (hs : s ∈ (m.after d).engine.queue.order) (hnew : s ∉ m.engine.queue.order)
    (hkind : s.kind = .event event (.emitted x)) :
    ∃ activation, m.engine.activations.get? x = some activation ∧
      event.data = .abilityResolved activation.ability activation.source activation.player := by
  have hsound := h.sound
  have hnumber : m.engine.queue.nextId ≤ s.id.number :=
    ((pending_run m [d]).2 s hs).resolve_left hnew
  have hfollows : s.kind.follows x := by
    rw [hkind]
    simp [StepKind.follows, StepKind.part?, Part.follows]
  obtain ⟨a, activation, rfl, hrunning⟩ :=
    running_of_counted (hsound.counted_of_follows hs hnumber hfollows)
  have heffect : m.effect? = some (a, x, activation) := by
    unfold effect?
    rw [hrunning]
  have hget := hsound.running a x activation heffect
  obtain ⟨own, hown⟩ := InStep.busy h.ready.running hrunning
  have hconcluding : Concluding m m x a activation own :=
    ⟨hrunning, hget, h.sourced.source_of_effect hsound heffect, hown,
      fun t ht => hsound.ids t (StepQueue.mem_order_of_mem_steps ht)⟩
  obtain ⟨timestamp, hqueue⟩ := hconcluding.queue_after hsucceeds
  have harrives : s ∈ m.arrivals .go := List.mem_filter.mpr ⟨hs, by simpa using hnumber⟩
  rw [hconcluding.arrivals hsound hqueue] at harrives
  refine ⟨activation, hget, ?_⟩
  simp only [List.mem_cons, List.not_mem_nil, or_false] at harrives
  rcases harrives with rfl | rfl
  · obtain ⟨rfl, -⟩ := StepKind.event.inj hkind
    rfl
  · simp [completion] at hkind

theorem Announces.after (h : m.Announces) (hreached : m.Reached) (hsucceeds : m.fails d = false) :
    (m.after d).Announces := by
  intro x activation' hget' s hs event hkind
  have hsound := hreached.sound
  have hbefore : ∃ activation, m.engine.activations.get? x = some activation ∧
      event.data = .abilityResolved activation.ability activation.source activation.player := by
    by_cases hold : s ∈ m.engine.queue.order
    · have hpart : s.kind.part? = some (x, .announce) := by rw [hkind]; rfl
      obtain ⟨activation, hget, -, -⟩ :=
        (hsound.fits x).executed (mem_partsOf_of_order hold hpart) rfl
      exact ⟨activation, hget, h x activation hget s hold event hkind⟩
    · exact hreached.announced hsucceeds hs hold hkind
  obtain ⟨activation, hget, htells⟩ := hbefore
  obtain ⟨hability, hsource, hplayer⟩ := hsound.identity_kept hreached.ready hget hget'
  rw [htells, hability, hsource, hplayer]

/-! ## Every deed -/

/-- What holds of records and steps together as long as the queue is driven, no step fails and
nobody withdraws the steps of activations. -/
structure InConcert (m : Moment) (ended : Bool) : Prop where
  reached : m.Reached
  stands : ∀ x, m.Stands x
  fillsNext : m.FillsNext ended
  announces : m.Announces

theorem inConcert_start (b : Board) : (start b).InConcert false where
  reached := ⟨b, [], rfl⟩
  stands x := by
    left
    have hnil : (start b).partsOf x = [] := rfl
    unfold OnTrack
    rw [hnil]
    simp [start, Engine.new, IdMap.get?_empty, Doomtown.OnTrack]
  fillsNext x activation hget := by simp [start, Engine.new, IdMap.get?_empty] at hget
  announces x activation hget := by simp [start, Engine.new, IdMap.get?_empty] at hget

theorem InConcert.stands_after (h : m.InConcert ended) (hd : m.Unbroken d)
    (hdriven : ended → m.engine.queue.begin?.isSome → d.isTurn) (x : ActivationId) :
    (m.after d).Stands x := by
  have hsound := h.reached.sound
  cases hget : m.engine.activations.get? x with
  | none => exact .inl (hsound.onTrack_entered hget ((h.stands x).parts_of_none hget) d)
  | some activation =>
    rcases h.stands x with hon | ⟨hnil, activation', hget', hretracted⟩
    · exact h.reached.stands_of_onTrack hon hget hd fun a p hgives hcan =>
        h.fillsNext.not_fills hdriven hgives hget hcan
    · exact hsound.stands_retracted hnil hget' hretracted d

theorem InConcert.after (h : m.InConcert ended) (hd : m.Unbroken d)
    (hdriven : ended → m.engine.queue.begin?.isSome → d.isTurn) :
    (m.after d).InConcert (m.endsStep d) where
  reached := h.reached.after d
  stands := h.stands_after hd hdriven
  fillsNext := h.fillsNext.after h.stands h.reached hdriven
  announces := h.announces.after h.reached hd.1

theorem InConcert.run {ds : List Deed} (h : m.InConcert ended) (hdriven : DrivenFrom ended m ds)
    (hcalm : Along Unbroken m ds) : (m.run ds).InConcert (hasEnded ended m ds) := by
  induction ds generalizing m ended with
  | nil => exact h
  | cons d ds ih => exact ih (h.after hcalm.1 hdriven.1) hdriven.2 hcalm.2

/-! ## While no step runs -/

/-- Of a live activation all that is ahead waits. -/
theorem InConcert.parts_of_live (h : m.InConcert ended) (hidle : m.running = none)
    (hget : m.engine.activations.get? x = some activation) (hlive : activation.isLive) :
    m.engine.queue.partsOf x = activation.stage.ahead := by
  obtain ⟨hcancelled, hactive, -⟩ := Activation.isLive_iff.mp hlive
  rw [← partsOf_idle hidle]
  rcases h.stands x with hon | ⟨-, activation', hget', hretracted⟩
  · unfold OnTrack at hon
    rw [hget] at hon
    rcases hon.parts with hdead | hahead | ⟨-, heffect⟩
    · simp [hdead] at hcancelled
    · exact hahead
    · -- No effect is running.
      rw [partsOf_idle hidle] at heffect
      obtain ⟨s, -, hpart⟩ := StepQueue.mem_partsOf_iff.mp (heffect ▸ List.mem_singleton_self _)
      exact (StepKind.playedBy hpart).elim
  · obtain rfl := Option.some.inj (hget.symm.trans hget')
    simp [hretracted] at hactive

/-- While no step runs, a live activation has those steps waiting that its stage calls for. -/
theorem InConcert.callsFor (h : m.InConcert ended) (hidle : m.running = none)
    (hget : m.engine.activations.get? x = some activation) (hlive : activation.isLive) :
    activation.CallsFor x (m.engine.queue.stepsOf x) := by
  have hparts := h.parts_of_live hidle hget hlive
  cases hstage : activation.stage with
  | idle =>
    rw [hstage] at hparts
    obtain ⟨i, kind, hsteps, hpart⟩ := StepQueue.stepsOf_of_one hparts
    obtain ⟨view, p, alternatives, rfl⟩ := StepKind.playedBy hpart
    rw [hsteps]
    exact .offer hstage i view p alternatives
  | legalityChecked =>
    rw [hstage] at hparts
    obtain ⟨i, kind, hsteps, hpart⟩ := StepQueue.stepsOf_of_one hparts
    obtain rfl := StepKind.playedBy hpart
    rw [hsteps]
    exact .pay hstage i
  | costsPaid =>
    rw [hstage] at hparts
    obtain ⟨i, kind, hsteps, hpart⟩ := StepQueue.stepsOf_of_one hparts
    have hwaits : (⟨i, kind⟩ : Step) ∈ m.engine.queue.order :=
      List.mem_of_mem_filter (hsteps ▸ List.mem_singleton_self _)
    rw [hsteps]
    rcases StepKind.playedBy hpart with rfl | ⟨view, p, slot, choices, rfl⟩
    · refine .choose hstage (Option.eq_none_iff_forall_ne_some.mpr fun j hj => ?_) i
      exact (h.reached.notesPrompts x activation j hget hj).2 _ hwaits rfl
    · exact .answer hstage (h.reached.asksNoted x activation hget _ hwaits hpart rfl) view p slot
        choices
  | targetsResolved =>
    rw [hstage] at hparts
    obtain ⟨i, kind, hsteps, hpart⟩ := StepQueue.stepsOf_of_one hparts
    obtain rfl := StepKind.playedBy hpart
    rw [hsteps]
    exact .execute hstage i
  | executed =>
    rw [hstage] at hparts
    obtain ⟨i, kind, j, kind', hsteps, hpart, hpart'⟩ := StepQueue.stepsOf_of_two hparts
    obtain ⟨event, rfl⟩ := StepKind.playedBy hpart
    obtain rfl := StepKind.playedBy hpart'
    have hwaits : (⟨i, .event event (.emitted x)⟩ : Step) ∈ m.engine.queue.order :=
      List.mem_of_mem_filter (hsteps ▸ List.mem_cons_self)
    obtain ⟨timestamp, data⟩ := event
    obtain rfl := h.announces x activation hget _ hwaits _ rfl
    rw [hsteps]
    exact .announce hstage i.number j.number timestamp
  | eventEmitted =>
    rw [hstage] at hparts
    obtain ⟨i, kind, hsteps, hpart⟩ := StepQueue.stepsOf_of_one hparts
    obtain rfl := StepKind.playedBy hpart
    rw [hsteps]
    exact .complete hstage i.number
  | completed | deactivated =>
    have hgoing := (Activation.isLive_iff.mp hlive).2.2
    simp [hstage, ActivationStage.isTerminal] at hgoing

/-- What is not live has nothing waiting. -/
theorem InConcert.stepsOf_of_not_live (h : m.InConcert ended)
    (hdead : ∀ activation, m.engine.activations.get? x = some activation →
      activation.isLive = false) : m.engine.queue.stepsOf x = [] := by
  have hsound := h.reached.sound
  have hnil : m.partsOf x = [] := by
    cases hget : m.engine.activations.get? x with
    | none => exact (h.stands x).parts_of_none hget
    | some activation =>
      rcases h.stands x with hon | ⟨hnil, -⟩
      · have hactive : activation.deactivated = false := by
          unfold OnTrack at hon
          rw [hget] at hon
          exact hon.kept
        cases hcancelled : activation.cancelled with
        | true =>
          have hfits := hsound.fits x
          rw [hget] at hfits
          exact (hfits.cancelled hcancelled).1
        | false =>
          refine hsound.parts_of_ended hon hget ?_
          simpa [Activation.isLive, hcancelled, hactive] using hdead activation hget
      · exact hnil
  refine StepQueue.stepsOf_of_nil (List.eq_nil_iff_forall_not_mem.mpr fun p hp => ?_)
  obtain ⟨s, hs, hpart⟩ := StepQueue.mem_partsOf_iff.mp hp
  have hmem := mem_partsOf_of_order hs hpart
  simp [hnil] at hmem

/-- The activations and the steps that wait belong to each other, one step to each live activation
or the two that end it. -/
structure OneInFlight (m : Moment) : Prop where
  /-- A live activation has exactly those steps waiting that its stage calls for. -/
  live : ∀ x activation, m.engine.activations.get? x = some activation → activation.isLive →
    activation.CallsFor x (m.engine.queue.stepsOf x)
  /-- What is not live, or not filed at all, has no step waiting. -/
  others : ∀ x, (∀ activation, m.engine.activations.get? x = some activation →
    activation.isLive = false) → m.engine.queue.stepsOf x = []
  /-- Once the queue is empty no activation is live. -/
  empty : m.engine.queue.pending = [] → ∀ x activation,
    m.engine.activations.get? x = some activation → activation.isLive = false

theorem InConcert.oneInFlight (h : m.InConcert ended) (hidle : m.running = none) :
    m.OneInFlight where
  live _ _ hget hlive := h.callsFor hidle hget hlive
  others _ hdead := h.stepsOf_of_not_live hdead
  empty hempty x activation hget := by
    by_contra hlive
    have hcalls := h.callsFor hidle hget (by simpa using hlive)
    rw [StepQueue.stepsOf_of_empty hempty] at hcalls
    exact hcalls.ne_nil rfl

/-- In a driven run in which no step fails and nobody withdraws the steps of activations, at every
moment at which no step runs each live activation has exactly those steps waiting that its stage
calls for, and nothing else has any. Requests that come one after the other are a driven run, if
each that runs the queue runs it until it rests. -/
theorem one_step_in_flight (b : Board) :
    (∀ ds, (start b).Driven ds → Along Unbroken (start b) ds →
      ((start b).run ds).running = none → ((start b).run ds).OneInFlight) ∧
    ∀ rs, Request.Settled (.new b) rs →
      ∃ ds, (start b).run ds = ⟨Request.playAll (.new b) rs, none⟩ ∧ (start b).Driven ds :=
  ⟨fun _ hdriven hcalm hidle => ((inConcert_start b).run hdriven hcalm).oneInFlight hidle,
    Request.exists_driven b⟩

/-- While the first player is asked for the target of an action, the second player starts it too and
retracts it. -/
def oneOfTwoRetracted : List Deed := actionForAll ++ firstStarts :: secondRetracts

/-- What the players ask for then, each time with as many turns of the queue as it takes. -/
def retractingRequests : List (Request × Nat) :=
  [(.call (.attach ⟨3⟩ {
      kind := .action
      anyPlayer := true
      targets := [⟨"target", .players fun _ _ _ => true⟩]
      handler := some fun _ => .done }), 0),
    (.activate ⟨0⟩ ⟨0⟩, 3), (.activate ⟨0⟩ ⟨1⟩, 3), (.retract ⟨0⟩ ⟨1⟩, 1)]

theorem settled_retractingRequests : Request.Settled (.new deedInPlay) retractingRequests := by
  refine ⟨.inl ⟨rfl, ?_⟩, .inr ?_, .inr ?_, .inr ?_, trivial⟩
  · rintro _ ⟨⟩
    rfl
  · decide +kernel
  · decide +kernel
  · decide +kernel

/-- The first activation goes on waiting for its target, and nothing is left of the second. -/
theorem one_step_in_flight_oneOfTwoRetracted :
    (start deedInPlay).Driven oneOfTwoRetracted ∧
      Along Unbroken (start deedInPlay) oneOfTwoRetracted ∧
      ((start deedInPlay).run oneOfTwoRetracted).running = none ∧
      (∃ activation,
        ((start deedInPlay).run oneOfTwoRetracted).engine.activations.get? ⟨0⟩ = some activation ∧
        activation.stage = .costsPaid ∧ activation.CallsFor ⟨0⟩
          (((start deedInPlay).run oneOfTwoRetracted).engine.queue.stepsOf ⟨0⟩)) ∧
      ((start deedInPlay).run oneOfTwoRetracted).engine.queue.stepsOf ⟨1⟩ = [] ∧
      ∃ ds, (start deedInPlay).run ds =
        ⟨Request.playAll (.new deedInPlay) retractingRequests, none⟩ ∧
          (start deedInPlay).Driven ds := by
  have hdriven : (start deedInPlay).Driven oneOfTwoRetracted := by decide +kernel
  have hcalm : Along Unbroken (start deedInPlay) oneOfTwoRetracted := by decide +kernel
  have hidle : ((start deedInPlay).run oneOfTwoRetracted).running = none := by decide +kernel
  obtain ⟨hruns, hrequests⟩ := one_step_in_flight deedInPlay
  have hflight := hruns oneOfTwoRetracted hdriven hcalm hidle
  have hfirst : (((start deedInPlay).run oneOfTwoRetracted).engine.activations.get? ⟨0⟩).any
      (fun activation => activation.isLive && activation.stage = .costsPaid) := by
    decide +kernel
  have hsecond : (((start deedInPlay).run oneOfTwoRetracted).engine.activations.get? ⟨1⟩).all
      (fun activation => !activation.isLive) := by
    decide +kernel
  obtain ⟨activation, hget, hstands⟩ := (Option.any_eq_true _ _).mp hfirst
  rw [Bool.and_eq_true, decide_eq_true_eq] at hstands
  refine ⟨hdriven, hcalm, hidle, ⟨activation, hget, hstands.2, hflight.live _ _ hget hstands.1⟩,
    hflight.others _ fun activation' hget' => ?_, hrequests _ settled_retractingRequests⟩
  rw [hget', Option.all_some] at hsecond
  simpa using hsecond

end Moment

end Doomtown
