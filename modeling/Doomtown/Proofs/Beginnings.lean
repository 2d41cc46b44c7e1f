import Doomtown.Proofs.Sources

/-!
# How activations start

An activation starts when an action is played, when a forced trigger is offered, or when an offer is
accepted. In each case it is found legal and filed as such, and the payment of its costs is queued
in front of all that the step that runs leaves to be done (`Moment.Sound.begins`). Neither the board
nor the counts of uses change by this.
-/

namespace Doomtown

open Play

namespace Legality

variable {b : Board} {usage : UsageTracker} {a : Ability} {x : Activation}

/-- The card of what is legal exists, is no headline if one was used, and its costs can be paid. -/
theorem card_of_check (h : check b usage a x = .ok ()) :
    ∃ card, b.card? a.source = some card ∧
      (card.hasKeyword .headline = false ∨ b.round.headlineUsed = false) ∧
      Payment.canPayAll b x a.costs = true := by
  unfold check at h
  split at h
  · simp at h
  · rename_i card hcard
    refine ⟨card, hcard, ?_⟩
    obtain ⟨-, h⟩ := holds_of_require h
    obtain ⟨-, h⟩ := holds_of_require h
    obtain ⟨hheadline, h⟩ := holds_of_require h
    refine ⟨by simpa using hheadline, ?_⟩
    split at h
    · simp at h
    · obtain ⟨-, h⟩ := holds_of_require h
      obtain ⟨-, h⟩ := holds_of_require h
      obtain ⟨-, h⟩ := holds_of_require h
      obtain ⟨-, h⟩ := holds_of_require h
      obtain ⟨-, h⟩ := holds_of_require h
      obtain ⟨-, h⟩ := holds_of_require h
      obtain ⟨-, h⟩ := holds_of_require h
      exact (holds_of_require h).1

end Legality

namespace StepQueue

/-- What a step queues first comes first once it has ended. -/
theorem head?_push {q : StepQueue} (hrunning : q.running = some []) (kind : StepKind) :
    (q.push kind).finish.steps.head? = some ⟨q.nextStep, kind⟩ ∧
      ∀ kind', ((q.push kind).push kind').finish.steps.head? = some ⟨q.nextStep, kind⟩ := by
  simp [push, finish, children, nextStep, hrunning]

theorem head?_pushNext (q : StepQueue) (kind : StepKind) :
    (q.pushNext kind).finish.steps.head? = some ⟨q.nextStep, kind⟩ := by
  unfold pushNext finish children
  cases q.running <;> rfl

end StepQueue

namespace Engine

variable {e e' : Engine} {x : ActivationId} {a : Ability} {judged activation : Activation}

/-- An activation of an ability starts, and is legal as it was judged. -/
structure Begins (e : Engine) (x : ActivationId) (a : Ability) (judged : Activation)
    (e' : Engine) : Prop where
  ability : e.ability? judged.ability = some a
  legal : Legality.check e.board e.usage a judged = .ok ()
  filed : ∃ choice, e'.activations.get? x =
    some { judged with choice := choice, stage := .legalityChecked }
  board : e'.board = e.board
  usage : e'.usage = e.usage
  /-- Once the step that runs has ended, the costs are paid before all else is done. -/
  first : e'.queue.finish.steps.head? = some ⟨e.queue.nextStep, .resolve x .payCosts⟩

/-- An action that is entered starts. -/
theorem activate_begins (a : AbilityId) (p : PlayerId)
    (hnone : e.activations.get? ⟨e.nextActivation⟩ = none)
    (hget : ((activate a p).ends e).2.activations.get? ⟨e.nextActivation⟩ = some activation) :
    ∃ ability judged, e.Begins ⟨e.nextActivation⟩ ability judged ((activate a p).ends e).2 := by
  have hunfiled : ∀ {P : Prop}, e.activations.get? ⟨e.nextActivation⟩ = some activation → P :=
    fun h => by simp [hnone] at h
  unfold activate at hget ⊢
  cases hability : e.ability? a with
  | none =>
    rw [ends_bind_error (getAbility_missing hability)] at hget
    exact hunfiled hget
  | some ability =>
    rw [ends_bind_ok (getAbility_ends hability)] at hget ⊢
    by_cases haction : ability.isAction
    · simp only [haction, Bool.not_true, Bool.false_eq_true, if_false] at hget ⊢
      have htake : (takeActivationId).ends e =
          (.ok ⟨e.nextActivation⟩, { e with nextActivation := e.nextActivation + 1 }) := rfl
      rw [ends_bind_ok htake, ends_bind_ok (ends_look _)] at hget ⊢
      dsimp only at hget ⊢
      split at hget
      · exact hunfiled hget
      · rename_i hcheck
        refine ⟨ability, .new a ability.source p none, hability, hcheck, ⟨none, ?_⟩, rfl, rfl,
          StepQueue.head?_pushNext _ _⟩
        show (e.activations.insert _ _).get? _ = _
        rw [IdMap.get?_insert, if_pos rfl]
        rfl
    · simp only [haction, Bool.not_false, if_true] at hget
      exact hunfiled hget

/-- A trigger that is offered and at once past the check of its legality starts. -/
theorem offer_begins (hrunning : e.queue.running = some []) (event : GameEvent)
    (c : TriggerCandidate) (hnone : e.activations.get? ⟨e.nextActivation⟩ = none)
    (hget : ((offer event c).ends e).2.activations.get? ⟨e.nextActivation⟩ = some activation)
    (hstage : activation.stage = .legalityChecked) :
    ∃ ability judged, e.Begins ⟨e.nextActivation⟩ ability judged ((offer event c).ends e).2 ∧
      ((offer event c).ends e).2.queue =
        e.queue.push (.resolve ⟨e.nextActivation⟩ .payCosts) := by
  have hunfiled : ∀ {P : Prop}, e.activations.get? ⟨e.nextActivation⟩ = some activation → P :=
    fun h => by simp [hnone] at h
  unfold offer at hget ⊢
  rw [ends_bind_ok (ends_look e)] at hget ⊢
  cases hability : e.ability? c.ability with
  | none =>
    rw [hability] at hget
    exact hunfiled hget
  | some a =>
    rw [hability] at hget
    dsimp only at hget ⊢
    have htake : (takeActivationId).ends e =
        (.ok ⟨e.nextActivation⟩, { e with nextActivation := e.nextActivation + 1 }) := rfl
    rw [ends_bind_ok htake, ends_bind_ok (ends_look _)] at hget ⊢
    dsimp only at hget ⊢
    split at hget
    · exact hunfiled hget
    · rename_i hcheck
      have hfiled : ∀ record : Activation, (e.activations.insert ⟨e.nextActivation⟩ record).get?
          ⟨e.nextActivation⟩ = some record := fun record => by rw [IdMap.get?_insert, if_pos rfl]
      by_cases hforced : a.kind.isForced
      · rw [if_pos hforced] at hget ⊢
        exact ⟨a, .new c.ability a.source c.player (some event),
          ⟨hability, hcheck, ⟨none, hfiled _⟩, rfl, rfl, (StepQueue.head?_push hrunning _).1⟩, rfl⟩
      · -- Any other is entered as it was judged, to wait for its player.
        rw [if_neg hforced] at hget
        obtain rfl := Option.some.inj ((hfiled _).symm.trans hget)
        simp [Activation.new] at hstage

/-- The rest of the window waits behind the payment. -/
theorem advance_begins (hrunning : e.queue.running = some []) (w : TriggerWindow)
    (hnone : e.activations.get? ⟨e.nextActivation⟩ = none)
    (hget : ((advance w).ends e).2.activations.get? ⟨e.nextActivation⟩ = some activation)
    (hstage : activation.stage = .legalityChecked) :
    ∃ ability judged, e.Begins ⟨e.nextActivation⟩ ability judged ((advance w).ends e).2 := by
  obtain ⟨event, pending⟩ := w
  unfold advance at hget ⊢
  cases pending with
  | nil =>
    rw [show e.activations.get? _ = some activation from hget] at hnone
    simp at hnone
  | cons c rest =>
    dsimp only at hget ⊢
    obtain ⟨e₁, hoffer, -⟩ := offer_ends e event c
    have hbegins := @offer_begins e activation hrunning event c hnone
    rw [ends_bind_ok hoffer] at hget ⊢
    rw [hoffer] at hbegins
    have hget₁ : e₁.activations.get? ⟨e.nextActivation⟩ = some activation := by
      cases rest <;> exact hget
    obtain ⟨ability, judged, h, hqueue⟩ := hbegins hget₁ hstage
    refine ⟨ability, judged, ?_⟩
    cases rest with
    | nil => exact h
    | cons c' rest =>
      refine ⟨h.ability, h.legal, h.filed, h.board, h.usage, ?_⟩
      show (e₁.queue.push _).finish.steps.head? = _
      rw [show e₁.queue = _ from hqueue]
      exact (StepQueue.head?_push hrunning _).2 _

/-- An offer that is accepted and then past the check of its legality starts. -/
theorem accept_begins (hrunning : e.queue.running = some []) (choice : Option Nat)
    (hget : e.activations.get? x = some judged) (hidle : judged.stage = .idle)
    (hget' : ((accept x choice).ends e).2.activations.get? x = some activation)
    (hstage : activation.stage = .legalityChecked) :
    ∃ ability, e.Begins x ability judged ((accept x choice).ends e).2 := by
  unfold accept at hget' ⊢
  rw [ends_bind_ok (ends_look e)] at hget' ⊢
  simp only [hget] at hget' ⊢
  cases hability : e.ability? judged.ability with
  | none =>
    rw [ends_bind_error (getAbility_missing hability)] at hget'
    obtain rfl := Option.some.inj (hget.symm.trans hget')
    simp [hidle] at hstage
  | some a =>
    rw [ends_bind_ok (getAbility_ends hability)] at hget' ⊢
    by_cases hlegal : Legality.isLegal e.board e.usage a judged
    · rw [if_pos hlegal]
      exact ⟨a, hability, Legality.check_of_isLegal hlegal,
        ⟨choice, IdMap.get?_modify_self hget _⟩, rfl, rfl, (StepQueue.head?_push hrunning _).1⟩
    · rw [if_neg hlegal] at hget'
      change (e.activations.erase x).get? x = _ at hget'
      rw [IdMap.get?_erase, if_pos rfl] at hget'
      simp at hget'

end Engine

/-- An activation starts when it is entered, or when its offer is answered. -/
theorem Advance.begins {admits : AbilityId → Prop} {x x' : Option Activation} {ps ps' : List Part}
    {o : Option Occurrence} (h : Advance admits x ps o x' ps')
    (hreached : .reached .legalityChecked ∈ stepHappenings x o x') :
    x = none ∧ ps = [] ∨ ∃ judged, x = some judged ∧ judged.stage = .idle ∧ ps = [.offer] := by
  obtain ⟨hafter, hbefore⟩ := reached_mem_stepHappenings.mp hreached
  cases h with
  | start => exact .inl ⟨rfl, rfl⟩
  | accept hstage => exact .inr ⟨_, rfl, hstage, rfl⟩
  | offer hstage => simp [hstage] at hafter
  | answer =>
    rw [Option.map_map] at hafter
    exact absurd hafter hbefore
  | skip | refuse | miss | ask | execute => exact absurd hafter hbefore
  | _ => simp at hafter

namespace Moment

variable {m : Moment} {d : Deed} {x : ActivationId}

/-- An activation of an ability starts by a deed; if no script runs, the payment of its costs is the
next step. -/
structure Begins (m : Moment) (d : Deed) (x : ActivationId) (a : Ability) (judged : Activation) :
    Prop where
  ability : m.engine.ability? judged.ability = some a
  legal : Legality.check m.engine.board m.engine.usage a judged = .ok ()
  filed : ∃ choice, (m.after d).engine.activations.get? x =
    some { judged with choice := choice, stage := .legalityChecked }
  board : (m.after d).engine.board = m.engine.board
  usage : (m.after d).engine.usage = m.engine.usage
  first : m.running = none → (m.after d).running = none ∧
    (m.after d).engine.queue.running = none ∧
    ∃ rest, (m.after d).engine.queue.steps =
      ⟨m.engine.queue.nextStep, .resolve x .payCosts⟩ :: rest

/-- What starts while a step is done as a whole. -/
theorem begins_of_whole {s : Step} {q : StepQueue} {p : Play Engine Unit} {a : Ability}
    {judged : Activation} (htaken : m.engine.queue.FrontTaken s q)
    (hafter : m.after d = ⟨((Engine.asStep q p).ends m.engine).2, none⟩)
    (h : ({ m.engine with queue := q } : Engine).Begins x a judged
      (p.ends { m.engine with queue := q }).2) : m.Begins d x a judged := by
  rw [Engine.asStep_ends] at hafter
  refine ⟨h.ability, h.legal, ?_, ?_, ?_, fun _ => ?_⟩
  · rw [hafter]
    exact h.filed
  · rw [hafter]
    exact h.board
  · rw [hafter]
    exact h.usage
  · rw [hafter]
    refine ⟨rfl, rfl, ?_⟩
    obtain ⟨rest, hsteps⟩ := List.head?_eq_some_iff.mp h.first
    refine ⟨rest, hsteps.trans ?_⟩
    rw [StepQueue.nextStep, StepQueue.nextStep, htaken.nextId]

/-- What starts by an order. -/
theorem begins_of_order {o : Order} {a : Ability} {judged : Activation}
    (hready : (m.after d).Ready) (hgives : m.gives d = some o)
    (h : m.engine.Begins x a judged (o.carryOut.ends m.engine).2) : m.Begins d x a judged := by
  obtain ⟨hengine, -⟩ := after_gives hgives
  rw [← hengine] at h
  refine ⟨h.ability, h.legal, h.filed, h.board, h.usage, fun hidle => ?_⟩
  have hrunning : (m.after d).running = none := by
    obtain ⟨e, running⟩ := m
    obtain rfl : running = none := hidle
    cases d with
    | call c => rfl
    | _ => simp [gives] at hgives
  have hqueue : (m.after d).engine.queue.running = none := by
    have hboth := hready.running
    rw [hrunning] at hboth
    simpa using hboth
  -- While nothing runs the step in front is the next one.
  refine ⟨hrunning, hqueue, List.head?_eq_some_iff.mp ?_⟩
  have hfirst := h.first
  simpa [StepQueue.finish, StepQueue.children, hqueue] using hfirst

/-- What starts by an answer. -/
theorem begins_of_answer {p : PlayerId} {n : Nat} {s : Step} {judged activation : Activation}
    (hstarts : m.starts? (.answer p n) = some s) (hpart : s.kind.part? = some (x, .offer))
    (hget : m.engine.activations.get? x = some judged) (hidle : judged.stage = .idle)
    (hget' : (m.after (.answer p n)).engine.activations.get? x = some activation)
    (hstage : activation.stage = .legalityChecked) :
    ∃ a, m.Begins (.answer p n) x a judged := by
  obtain ⟨i, ⟨view, player, reply⟩, q, -, hbegin, rfl, -, hafter⟩ := beginAnswer?_of_starts hstarts
  have htaken := StepQueue.frontTaken_beginAnswer hbegin
  obtain ⟨rest, -, -, rfl⟩ := StepQueue.beginAnswer?_eq_some hbegin
  cases reply with
  | script answers => simp [StepKind.part?] at hpart
  | target y slot choices => simp [StepKind.part?] at hpart
  | offer y alternatives =>
    obtain rfl : y = x := by simpa [StepKind.part?] using hpart
    dsimp only at hafter
    let e : Engine := { m.engine with queue := m.engine.queue.started rest }
    have hends := hget'
    rw [hafter, Engine.asStep_ends] at hends
    change ((Engine.answerWith n (.offer y alternatives)).ends e).2.activations.get? y = _ at hends
    by_cases hn : n = max alternatives 1
    · -- The offer is declined, and nothing of it is left.
      rw [Engine.answerWith, if_pos hn] at hends
      change (m.engine.activations.erase y).get? y = _ at hends
      rw [IdMap.get?_erase, if_pos rfl] at hends
      simp at hends
    · have haccept : Engine.answerWith n (.offer y alternatives) =
          Engine.accept y (if alternatives = 0 then none else some n) := if_neg hn
      rw [haccept] at hends
      obtain ⟨a, hbegins⟩ := Engine.accept_begins (e := e) rfl _ hget hidle hends hstage
      rw [← haccept] at hbegins
      exact ⟨a, begins_of_whole htaken hafter hbegins⟩

/-- What an order enters starts by it, if it gets past the check of its legality. -/
theorem begins_of_entered (h : m.Sound) (hready : m.Ready) {o : Order} {activation : Activation}
    (hgives : m.gives d = some o) (hentered : m.engine.entered? o = some x)
    (hget : (m.after d).engine.activations.get? x = some activation)
    (hstage : activation.stage = .legalityChecked)
    (hchanged : (m.engine.activations.get? x).map (·.stage) ≠ some .legalityChecked) :
    ∃ a judged, m.Begins d x a judged := by
  have hnew : m.engine.activations.get? ⟨m.engine.nextActivation⟩ = none :=
    (h.fresh _ (Nat.le_refl _)).1
  obtain ⟨hengine, -⟩ := after_gives hgives
  rw [hengine] at hget
  unfold Engine.entered? at hentered
  split at hentered
  · rename_i a p
    obtain rfl := Option.some.inj hentered
    obtain ⟨ability, judged, hbegins⟩ := Engine.activate_begins a p hnew hget
    exact ⟨ability, judged, begins_of_order (hready.after h d) hgives hbegins⟩
  · -- What is retracted is deactivated, or stays at its stage.
    rename_i a p
    have hretracts := Engine.retract_ends m.engine a p
    change ((Engine.retract a p).ends m.engine).2.activations.get? x = _ at hget
    generalize (Engine.retract a p).ends m.engine = ending at hretracts hget
    cases hretracts with
    | refused => exact absurd (by rw [hget, Option.map_some, hstage]) hchanged
    | failed => exact absurd (by rw [hget, Option.map_some, hstage]) hchanged
    | retracted hlatest hbefore =>
      obtain rfl := Option.some.inj (hlatest.symm.trans hentered)
      have hdeactivated := (IdMap.get?_modify_self hbefore _).symm.trans hget
      obtain rfl := Option.some.inj hdeactivated
      simp at hstage
  · simp at hentered

/-- What a window offers starts with it, if it gets past the check of its legality. -/
theorem begins_of_window (h : m.Sound) {i : StepId} {w : TriggerWindow} {activation : Activation}
    (hstarts : m.starts? d = some ⟨i, .window w⟩)
    (hget : (m.after d).engine.activations.get? ⟨m.engine.nextActivation⟩ = some activation)
    (hstage : activation.stage = .legalityChecked) :
    ∃ a judged, m.Begins d ⟨m.engine.nextActivation⟩ a judged := by
  have hnew : m.engine.activations.get? ⟨m.engine.nextActivation⟩ = none :=
    (h.fresh _ (Nat.le_refl _)).1
  cases d with
  | turn =>
    obtain ⟨q, -, hbegin, hturn⟩ := begin?_of_starts hstarts
    obtain ⟨rest, -, -, rfl⟩ := StepQueue.begin?_eq_some hbegin
    simp only [turn, hbegin, Engine.opening] at hturn
    rw [hturn, Engine.asStep_ends, Engine.runStep_kind] at hget
    obtain ⟨a, judged, hbegins⟩ := Engine.advance_begins
      (e := { m.engine with queue := m.engine.queue.started rest }) rfl w hnew hget hstage
    refine ⟨a, judged, begins_of_whole (StepQueue.frontTaken_begin hbegin) hturn ?_⟩
    rw [Engine.runStep_kind]
    exact hbegins
  | answer p n =>
    obtain ⟨_, _, _, -, -, hstep, -⟩ := beginAnswer?_of_starts hstarts
    simp at hstep
  | _ => cases hr : m.running <;> simp [starts?, hr] at hstarts

/-- An offer is started by an answer. -/
theorem answer_of_starts_offer {s : Step} (hstarts : m.starts? d = some s)
    (hpart : s.kind.part? = some (x, .offer)) : ∃ p n, d = .answer p n := by
  cases d with
  | answer p n => exact ⟨p, n, rfl⟩
  | turn =>
    obtain ⟨q, -, hbegin, -⟩ := begin?_of_starts hstarts
    obtain ⟨i, kind⟩ := s
    cases kind with
    | prompt prompt => exact absurd hbegin StepQueue.begin?_ne_prompt
    | resolve _ stage => cases stage <;> simp [StepKind.part?] at hpart
    | event _ change => cases change <;> simp [StepKind.part?] at hpart
    | _ => simp [StepKind.part?] at hpart
  | _ => cases hr : m.running <;> simp [starts?, hr] at hstarts

/-- Whatever starts was found legal, on the board and with the counts of uses that there are then,
and if no script runs its costs are paid next. -/
theorem Sound.begins (h : m.Sound) (hready : m.Ready)
    (hreached : .reached .legalityChecked ∈ happenings x m d) :
    ∃ a judged, m.Begins d x a judged := by
  rcases (Moment.passage h d).spared_or_taken x with ⟨_, _, -, -, -, hbetween⟩ |
    ⟨o, hadvance, hentry, -, hbetween⟩
  · simp [happenings, hbetween] at hreached
  rw [happenings, hbetween] at hreached
  have hbefore := hadvance.begins hreached
  obtain ⟨hafter, hchanged⟩ := reached_mem_stepHappenings.mp hreached
  obtain ⟨activation, hget', hstage⟩ := Option.map_eq_some_iff.mp hafter
  -- What a deed is not about keeps its stage or is gone.
  have habout : m.isAbout d x := by
    by_contra hx
    rcases h.record_of_not_about (by simpa using hx) with heq | ⟨_, -, -, hgone⟩
    · rw [heq] at hafter
      exact hchanged hafter
    · simp [hgone] at hget'
  rcases about_forms habout with ⟨o, hgives, ho⟩ | ⟨s, hstarts, hs⟩ |
    ⟨a, running, script, -, hrunning, -⟩
  · exact begins_of_entered h hready hgives ho hget' hstage hchanged
  · unfold Engine.takenOn? at hs
    split at hs
    · rename_i w hkind
      obtain rfl := Option.some.inj hs
      obtain ⟨i, kind⟩ := s
      obtain rfl : kind = .window w := hkind
      exact begins_of_window h hstarts hget' hstage
    · -- Of its own steps only the offer can be taken.
      obtain ⟨⟨y, p⟩, hpart, rfl⟩ := Option.map_eq_some_iff.mp hs
      obtain ⟨q, hrunning, htaken⟩ := frontTaken_of_starts hstarts
      have hparts : m.partsOf y = p :: q.partsOf y := by
        rw [partsOf_idle hrunning]
        exact StepQueue.partsOf_begin htaken.order hpart
      rcases hbefore with ⟨-, hnil⟩ | ⟨judged, hget, hidle, hoffer⟩
      · simp [hparts] at hnil
      obtain ⟨rfl, -⟩ := List.cons.inj (hparts.symm.trans hoffer)
      obtain ⟨p, n, rfl⟩ := answer_of_starts_offer hstarts hpart
      obtain ⟨a, hbegins⟩ := begins_of_answer hstarts hpart hget hidle hget' hstage
      exact ⟨a, judged, hbegins⟩
  · have heffect : m.effect? = some (a, x, running) := by
      unfold effect?
      rw [hrunning]
    rw [partsOf_of_effect heffect] at hbefore
    simp at hbefore

end Moment

end Doomtown
