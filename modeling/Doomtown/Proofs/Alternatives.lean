import Doomtown.Proofs.Filings
import Doomtown.Proofs.TriggerWindow

/-!
# Which alternative an activation runs

An ability that has alternatives runs one of them if it is offered, for then its player picks one.
An action and a forced trigger are not offered, so nothing is picked for them and their alternatives
are never run. What was picked is known of every record (`Ability.Picked`), because what waits to be
offered is a trigger and an offer has a button for each alternative (`Moment.Picks`). With this
`Moment.has_effect_iff` says of which abilities an activation has an effect to run.
-/

namespace Doomtown

open Play

/-! ## Effects -/

namespace Ability

variable {a : Ability} {x : Activation}

/-- What was picked of an ability's alternatives: one of them if it was offered with alternatives
and accepted, nothing otherwise. -/
structure Picked (a : Ability) (x : Activation) : Prop where
  offered : x.stage = .idle → a.kind.isPrompted
  none : x.stage = .idle ∨ a.kind.isPrompted = false ∨ a.alternatives = [] → x.choice = none
  some : x.stage ≠ .idle → a.kind.isPrompted → a.alternatives ≠ [] →
    ∃ n < a.alternatives.length, x.choice = some n

/-- An activation that has started runs the alternative that was picked, or the handler. -/
theorem Picked.effect?_isSome_iff (h : a.Picked x) (hstarted : x.stage ≠ .idle) :
    (a.effect? x).isSome ↔ a.kind.isPrompted ∧ a.alternatives ≠ [] ∨ a.handler.isSome := by
  unfold effect?
  by_cases hpicked : a.kind.isPrompted ∧ a.alternatives ≠ []
  · obtain ⟨n, hn, hchoice⟩ := h.some hstarted hpicked.1 hpicked.2
    simp [hchoice, hpicked, hn]
  · have hchoice : x.choice = Option.none := by
      apply h.none
      by_cases hprompted : a.kind.isPrompted
      · exact .inr (.inr (by simpa [hprompted] using hpicked))
      · exact .inr (.inl (by simpa using hprompted))
    simp [hchoice, hpicked]

/-- What goes on keeps what was picked. -/
theorem Picked.carries {x' : Activation} (h : a.Picked x) (hcarries : x.Carries x') :
    a.Picked x' where
  offered hidle := h.offered (hcarries.idle.mp hidle)
  none hnone := hcarries.choice.trans (h.none (hnone.imp_left hcarries.idle.mp))
  some hstarted hprompted halternatives := by
    rw [hcarries.choice]
    exact h.some (fun hidle => hstarted (hcarries.idle.mpr hidle)) hprompted halternatives

/-- For what starts without an offer nothing is picked. -/
theorem picked_of_unprompted (hstarted : x.stage ≠ .idle) (hkind : a.kind.isPrompted = false)
    (hchoice : x.choice = Option.none) : a.Picked x where
  offered hidle := absurd hidle hstarted
  none _ := hchoice
  some _ hprompted := by simp [hkind] at hprompted

/-- An offer that is accepted picks the alternative of its button. -/
theorem Picked.accept (h : a.Picked x) (hidle : x.stage = .idle) {n : Nat}
    (hn : n < max a.alternatives.length 1) :
    a.Picked { x with
      choice := if a.alternatives.length = 0 then Option.none else .some n
      stage := .legalityChecked } where
  offered hstage := by simp at hstage
  none hnone := by
    have hprompted := h.offered hidle
    have hnil : a.alternatives = [] := by simpa [hprompted] using hnone
    simp [hnil]
  some _ _ halternatives := by
    have hpos : 0 < a.alternatives.length := List.length_pos_iff.mpr halternatives
    refine ⟨n, by omega, ?_⟩
    simp [halternatives]

end Ability

/-- Of what is attached those have an effect without an alternative that have a handler of their
own, or need none, having no alternatives. -/
theorem Design.runs_iff {design : Design} {card : Card} {a : Ability}
    (h : design.build card = .ok a) :
    a.kind.isPrompted ∧ a.alternatives ≠ [] ∨ a.handler.isSome ↔
      design.kind.isPrompted ∨ design.handler.isSome ∨ design.alternatives = [] := by
  unfold build at h
  dsimp only at h
  split at h
  · simp at h
  · split at h
    · simp at h
    · rename_i hrun
      rw [← Except.ok.inj h]
      dsimp only
      unfold handlerOn at hrun ⊢
      cases hhandler : design.handler with
      | some effect => simp
      | none =>
        cases halternatives : design.alternatives with
        | nil => simpa [hhandler, halternatives] using hrun
        | cons => simp

namespace Engine

/-- What comes into the window of an event is a trigger. -/
theorem isTriggered_of_collect {e : Engine} {event : GameEvent} {c : TriggerCandidate}
    (hc : c ∈ (e.collect event).pending) :
    ∃ a, e.ability? c.ability = some a ∧ a.kind.isTriggered := by
  obtain ⟨distance, -, hseat⟩ := List.mem_flatMap.mp hc
  obtain ⟨s, hs, hcandidate⟩ := List.mem_filterMap.mp (List.mem_filter.mp hseat).1
  obtain ⟨hability, hqualifies⟩ := (candidate?_eq_some_iff hs).mp hcandidate
  obtain ⟨a, hfound, htriggered, -⟩ := hqualifies.ability
  exact ⟨a, hability ▸ hfound, htriggered⟩

end Engine

namespace Moment

variable {m : Moment} {d : Deed} {x : ActivationId} {activation : Activation} {a : Ability}

/-! ## What is offered -/

/-- How a step that offers abilities comes to wait. -/
inductive Puts (m : Moment) (d : Deed) : StepKind → Prop where
  /-- An event fires. -/
  | opens (event : GameEvent) {e₁ : Engine} (habilities : e₁.abilities = m.engine.abilities) :
    Puts m d (.window (e₁.collect event))
  | rest {i : StepId} {event : GameEvent} {c : TriggerCandidate} {rest : List TriggerCandidate}
      (hstarts : m.starts? d = some ⟨i, .window ⟨event, c :: rest⟩⟩) :
    Puts m d (.window ⟨event, rest⟩)
  | proposes {i : StepId} {event : GameEvent} {c : TriggerCandidate} {rest : List TriggerCandidate}
      {a : Ability} (hstarts : m.starts? d = some ⟨i, .window ⟨event, c :: rest⟩⟩)
      (hability : m.engine.ability? c.ability = some a) :
    Puts m d (m.engine.proposal event c a)

/-- The rest of a window is one more step, if it is any. -/
theorem mem_order_requeued {e : Engine} {event : GameEvent} {pending : List TriggerCandidate}
    {s : Step} (hs : s ∈ (e.requeued event pending).finished.queue.order) :
    s ∈ e.queue.order ∨ s.kind = .window ⟨event, pending⟩ := by
  cases pending with
  | nil => exact .inl hs
  | cons c rest =>
    rcases StepQueue.mem_order_push.mp hs with hs | rfl
    · exact .inl hs
    · exact .inr rfl

/-- A window puts its rest back and asks whether the first ability of it shall be used. -/
theorem puts_of_window {i : StepId} {w : TriggerWindow}
    (hstarts : m.starts? d = some ⟨i, .window w⟩) {s : Step}
    (hs : s ∈ (m.after d).engine.queue.order) :
    s ∈ m.engine.queue.order ∨ m.Puts d s.kind := by
  obtain ⟨event, pending⟩ := w
  cases pending with
  | nil =>
    obtain ⟨q, htaken, hafter⟩ := after_window_nil hstarts
    rw [hafter] at hs
    rw [htaken.order]
    exact .inl (List.mem_cons_of_mem _ hs)
  | cons c rest =>
    obtain ⟨q, htaken, hafter⟩ := after_window_offer hstarts
    have hwaited : s ∈ q.order → s ∈ m.engine.queue.order := fun hs => by
      rw [htaken.order]
      exact List.mem_cons_of_mem _ hs
    rw [hafter] at hs
    rcases mem_order_requeued hs with hs | hkind
    · rcases Engine.offer_proposes { m.engine with queue := q } event c with
        ⟨hqueue, -⟩ | ⟨a, hability, hqueue, -⟩
      · rw [hqueue] at hs
        exact .inl (hwaited hs)
      · rw [hqueue] at hs
        rcases StepQueue.mem_order_push.mp hs with hs | rfl
        · exact .inl (hwaited hs)
        · exact .inr (.proposes hstarts hability)
    · rw [hkind]
      exact .inr (.rest hstarts)

/-- A step that offers abilities waited before a deed, or has come to wait in one of these ways. -/
theorem puts (m : Moment) (d : Deed) {s : Step} (hs : s ∈ (m.after d).engine.queue.order)
    (hoffers : s.kind.offers) : s ∈ m.engine.queue.order ∨ m.Puts d s.kind := by
  cases m.curates d with
  | sheds h => exact .inl (h.offers s hs hoffers)
  | starts a p hgives hability haction hlegal hafter =>
    rw [hafter] at hs
    -- The payment of costs is queued, which offers nothing.
    change s ∈ (m.engine.queue.pushNext _).order at hs
    rw [StepQueue.order_pushNext] at hs
    rcases List.mem_cons.mp hs with rfl | hs
    · simp [StepKind.offers] at hoffers
    · exact .inl hs
  | @retracts a p x activation b hgives hlatest hget hcan hpay hafter =>
    rw [hafter] at hs
    exact .inl ((Engine.order_withdrawPrompt_sublist _ _).subset hs)
  | unregisters a hgives hafter =>
    rw [hafter] at hs
    exact .inl hs
  | clears a hd hafter =>
    rw [hafter] at hs
    exact .inl hs
  | attaches c design hd hafter =>
    rw [hafter, (Engine.addAbility_enrolls c design m.engine).queue] at hs
    exact .inl hs
  | sets f hd hafter =>
    rw [hafter] at hs
    exact .inl hs
  | offers i w hstarts => exact puts_of_window hstarts hs
  | answers i view p x alternatives hstarts hafter =>
    obtain ⟨activations, q, hafter, -, hkept⟩ := hafter
    rw [hafter] at hs
    exact .inl (hkept s hs hoffers)
  | fires event hfires =>
    obtain ⟨e, hafter, hopens⟩ := opens_of_fires hfires
    rw [hafter] at hs
    rcases mem_order_requeued hs with hs | hkind
    · exact .inl (hopens.queue s hs)
    · rw [hkind]
      exact .inr (.opens event hopens.abilities)

/-! ## A run -/

/-- What waits in windows are triggers, an offer that waits has a button for each alternative and
one more, and of every record it is known what was picked. -/
structure Picks (m : Moment) : Prop where
  triggers : ∀ s ∈ m.engine.queue.order, ∀ w, s.kind = .window w → ∀ c ∈ w.pending,
    ∃ a, m.engine.ability? c.ability = some a ∧ a.kind.isTriggered
  offers : ∀ s ∈ m.engine.queue.order, ∀ view p x alternatives,
    s.kind = .prompt ⟨view, p, .offer x alternatives⟩ → ∀ activation a,
      m.engine.activations.get? x = some activation →
      m.engine.ability? activation.ability = some a →
      alternatives = a.alternatives.length ∧ view.buttons.length = max alternatives 1 + 1
  picked : ∀ x activation a, m.engine.activations.get? x = some activation →
    m.engine.ability? activation.ability = some a → a.Picked activation

/-- While a step is started no order is given. -/
theorem gives_of_starts {s : Step} (hstarts : m.starts? d = some s) : m.gives d = none := by
  obtain ⟨q, hrunning, -⟩ := frontTaken_of_starts hstarts
  cases d with
  | call c => simp [starts?, hrunning] at hstarts
  | _ => simp [gives, hrunning]

/-- An offer has a button for each alternative and one to decline. -/
theorem length_offerButtons (a : Ability) :
    (Engine.offerButtons a).length = max a.alternatives.length 1 + 1 := by
  unfold Engine.offerButtons
  cases a.alternatives <;> simp

theorem Picks.triggers_after (h : m.Picks) (hsound : m.Sound) (d : Deed) :
    ∀ s ∈ (m.after d).engine.queue.order, ∀ w, s.kind = .window w → ∀ c ∈ w.pending,
      ∃ a, (m.after d).engine.ability? c.ability = some a ∧ a.kind.isTriggered := by
  intro s hs w hkind c hc
  have hfound : ∃ a, m.engine.ability? c.ability = some a ∧ a.kind.isTriggered := by
    rcases m.puts d hs (by rw [hkind]; rfl) with hold | hputs
    · exact h.triggers s hold w hkind c hc
    · rw [hkind] at hputs
      generalize hwindow : StepKind.window w = kind at hputs
      cases hputs with
      | opens event habilities =>
        obtain rfl := StepKind.window.inj hwindow
        obtain ⟨a, hability, htriggered⟩ := Engine.isTriggered_of_collect hc
        exact ⟨a, (Engine.ability?_congr habilities _).symm.trans hability, htriggered⟩
      | rest hstarts =>
        obtain rfl := StepKind.window.inj hwindow
        exact h.triggers _ (mem_order_of_starts hstarts) _ rfl c (List.mem_cons_of_mem _ hc)
      | proposes =>
        unfold Engine.proposal at hwindow
        split at hwindow <;> simp at hwindow
  obtain ⟨a, hability, htriggered⟩ := hfound
  exact ⟨a, (Moment.passage hsound d).ability? hability, htriggered⟩

theorem Picks.offers_after (h : m.Picks) (hsound : m.Sound) (hready : m.Ready)
    (hsourced : m.Sourced) (d : Deed) :
    ∀ s ∈ (m.after d).engine.queue.order, ∀ view p x alternatives,
      s.kind = .prompt ⟨view, p, .offer x alternatives⟩ → ∀ activation a,
        (m.after d).engine.activations.get? x = some activation →
        (m.after d).engine.ability? activation.ability = some a →
        alternatives = a.alternatives.length ∧ view.buttons.length = max alternatives 1 + 1 := by
  intro s hs view p x alternatives hkind activation' a hget' hability'
  have hfiles := hsound.files hready hget'
  have hnone : m.engine.activations.get? ⟨m.engine.nextActivation⟩ = none :=
    (hsound.fresh _ (Nat.le_refl _)).1
  rcases m.puts d hs (by rw [hkind]; rfl) with hold | hputs
  · -- It was entered before, for this step waits for it.
    have hold' : x ≠ ⟨m.engine.nextActivation⟩ := by
      rintro rfl
      have hparts := (hsound.fresh_queue ⟨m.engine.nextActivation⟩ (Nat.le_refl _)).2
      have hmem : Part.offer ∈ m.engine.queue.partsOf ⟨m.engine.nextActivation⟩ :=
        StepQueue.mem_partsOf_iff.mpr ⟨s, hold, by rw [hkind]; rfl⟩
      simp [hparts] at hmem
    have hsame : ∀ {activation}, m.engine.activations.get? x = some activation →
        activation'.ability = activation.ability →
        alternatives = a.alternatives.length ∧ view.buttons.length = max alternatives 1 + 1 := by
      intro activation hget hof
      rw [hof] at hability'
      exact h.offers s hold view p x alternatives hkind activation a hget
        (hsourced.ability_after hsound hget hability')
    cases hfiles with
    | played _ hx => exact absurd hx hold'
    | offered _ hx => exact absurd hx hold'
    | accepted _ _ _ _ hget => exact hsame hget rfl
    | paid _ hget => exact hsame hget rfl
    | goes hget hcarries => exact hsame hget hcarries.ability
  · -- It has just been offered, and the prompt was made for its ability.
    rw [hkind] at hputs
    generalize hprompt : StepKind.prompt ⟨view, p, .offer x alternatives⟩ = kind at hputs
    cases hputs with
    | opens | rest => simp at hprompt
    | @proposes i event c rest a₀ hstarts hability₀ =>
      unfold Engine.proposal at hprompt
      split at hprompt
      · simp at hprompt
      · simp only [StepKind.prompt.injEq, Prompt.mk.injEq, Answer.offer.injEq] at hprompt
        obtain ⟨rfl, -, rfl, rfl⟩ := hprompt
        have hkept := (Moment.passage hsound d).ability? hability₀
        cases hfiles with
        | played hgives => simp [gives_of_starts hstarts] at hgives
        | accepted _ _ _ _ hget => simp [hnone] at hget
        | paid _ hget => simp [hnone] at hget
        | goes hget => simp [hnone] at hget
        | offered hstarts' =>
          obtain ⟨-, hwindow⟩ := Step.mk.inj (Option.some.inj (hstarts.symm.trans hstarts'))
          obtain ⟨-, hcons⟩ := TriggerWindow.mk.inj (StepKind.window.inj hwindow)
          obtain ⟨rfl, -⟩ := List.cons.inj hcons
          obtain rfl := Option.some.inj (hkept.symm.trans hability')
          exact ⟨rfl, length_offerButtons _⟩

theorem Picks.picked_after (h : m.Picks) (hsound : m.Sound) (hready : m.Ready)
    (hsourced : m.Sourced) (d : Deed) :
    ∀ x activation a, (m.after d).engine.activations.get? x = some activation →
      (m.after d).engine.ability? activation.ability = some a → a.Picked activation := by
  intro x activation' a hget' hability'
  cases hsound.files hready hget' with
  | @played a₀ ability p _ _ hability haction =>
    have hkept := (Moment.passage hsound d).ability? hability
    obtain rfl := Option.some.inj (hkept.symm.trans hability')
    have hkind : ability.kind = .action := of_decide_eq_true haction
    exact Ability.picked_of_unprompted (by simp [Engine.begun]) (by rw [hkind]; rfl) rfl
  | @offered i event c rest a₀ hstarts _ hability =>
    have hkept := (Moment.passage hsound d).ability? hability
    obtain rfl := Option.some.inj (hkept.symm.trans hability')
    obtain ⟨a₁, hability₁, htriggered⟩ :=
      h.triggers _ (mem_order_of_starts hstarts) _ rfl c List.mem_cons_self
    obtain rfl := Option.some.inj (hability.symm.trans hability₁)
    -- A trigger is prompted unless it is forced.
    by_cases hforced : a₀.kind.isForced
    · refine Ability.picked_of_unprompted (by simp [Engine.proposed, hforced]) ?_ rfl
      cases hkind : a₀.kind <;> simp_all [AbilityKind.isForced, AbilityKind.isPrompted]
    · refine ⟨fun _ => ?_, fun _ => rfl, fun hstarted => ?_⟩
      · cases hkind : a₀.kind <;>
          simp_all [AbilityKind.isForced, AbilityKind.isPrompted, AbilityKind.isTriggered]
      · simp [Engine.proposed, hforced] at hstarted
  | @accepted player p n alternatives i view judged hd hstarts hn hno hget hidle =>
    have hability := hsourced.ability_after hsound hget hability'
    obtain ⟨rfl, hbuttons⟩ :=
      h.offers _ (mem_order_of_starts hstarts) view p x alternatives rfl judged a hget hability
    -- The button is one of the prompt, and not the last.
    have hlt : n < max a.alternatives.length 1 := by omega
    exact (h.picked x judged a hget hability).accept hidle hlt
  | @paid i activation a₀ receipts b hstarts hget hstage _ hpay =>
    have hpicked := h.picked x activation a hget (hsourced.ability_after hsound hget hability')
    exact {
      offered := fun hidle => by simp at hidle
      none := fun hnone => hpicked.none (.inr (by simpa using hnone))
      some := fun _ => hpicked.some (by simp [hstage]) }
  | goes hget hcarries =>
    rw [hcarries.ability] at hability'
    exact (h.picked x _ a hget (hsourced.ability_after hsound hget hability')).carries hcarries

theorem picks_start (b : Board) : (start b).Picks where
  triggers s hs := by
    simp [start, Engine.new, StepQueue.order, StepQueue.children, StepQueue.empty] at hs
  offers s hs := by
    simp [start, Engine.new, StepQueue.order, StepQueue.children, StepQueue.empty] at hs
  picked x activation a hget := by simp [start, Engine.new, IdMap.get?_empty] at hget

theorem Reached.picks (h : m.Reached) : m.Picks :=
  h.invariant picks_start fun hreached hpicks d =>
    ⟨hpicks.triggers_after hreached.sound d,
      hpicks.offers_after hreached.sound hreached.ready hreached.sourced d,
      hpicks.picked_after hreached.sound hreached.ready hreached.sourced d⟩

/-! ## Effects that run -/

/-- Of an ability that is attached, whatever its design, an activation that has come to its effect
has one to run if and only if it was offered, or has a handler, or was designed without
alternatives. -/
theorem has_effect_iff (b : Board) (ds : List Deed) {a : Ability} {x : ActivationId}
    {activation : Activation} (heffect : ((start b).run ds).effect? = some (a, x, activation)) :
    (∃ (design : Design) (card : Card), design.build card = .ok a) ∧
      ∀ (design : Design) (card : Card), design.build card = .ok a →
        ((a.effect? activation).isSome ↔
          design.kind.isPrompted ∨ design.handler.isSome ∨ design.alternatives = []) := by
  have hreached : ((start b).run ds).Reached := ⟨b, ds, rfl⟩
  have hget := hreached.sound.running a x activation heffect
  have hability := hreached.sourced.effect a x activation heffect
  refine ⟨hreached.built hability, fun design card hbuild => ?_⟩
  have hstarted : activation.stage ≠ .idle := by
    rw [(hreached.sound.effect_stage heffect).1]
    simp
  rw [(hreached.picks.picked x activation a hget hability).effect?_isSome_iff hstarted]
  exact Design.runs_iff hbuild

/-- A round begins that sets off a reaction with two alternatives, of which the second is picked. -/
def secondPicked : List Deed :=
  [.call (.attach ⟨3⟩ {
      kind := .reaction
      triggers := [(.beginRound, fun _ _ => true)]
      alternatives := [
        ("Take 1", fun x => .order (.gain x.player 1) fun _ => .done),
        ("Take 3", fun x => .order (.gain x.player 3) fun _ => .done)] }),
    .call (.order .beginRound), .turn, .go, .turn, .answer ⟨0⟩ 1, .turn, .turn, .turn]

theorem has_effect_iff_secondPicked :
    ∃ a x activation, ((start deedInPlay).run secondPicked).effect? = some (a, x, activation) ∧
      activation.choice = some 1 ∧
      (∃ (design : Design) (card : Card), design.build card = .ok a) ∧
      ∀ (design : Design) (card : Card), design.build card = .ok a →
        ((a.effect? activation).isSome ↔
          design.kind.isPrompted ∨ design.handler.isSome ∨ design.alternatives = []) := by
  have hrunning : ((start deedInPlay).run secondPicked).effect?.map (·.2.2.choice) =
      some (some 1) := by decide +kernel
  obtain ⟨⟨a, x, activation⟩, heffect, hchoice⟩ := Option.map_eq_some_iff.mp hrunning
  exact ⟨a, x, activation, heffect, hchoice, has_effect_iff deedInPlay secondPicked heffect⟩

/-- The deed has an action with one alternative and no handler, which is paid for by booting it and
played once a round. It has come to its effect. -/
def playedWithAlternative : List Deed :=
  [.call (.attach ⟨3⟩ {
      kind := .action
      costs := [.bootSelf]
      limit := some ⟨1, .round⟩
      alternatives := [("Gain", fun x => .order (.gain x.player 1) fun _ => .done)] }),
    .call (.order (.activate ⟨0⟩ ⟨0⟩)), .turn, .turn, .turn]

/-- The action has nothing to run, though it does not fail and its alternative was there when it was
built. It is paid for and counted all the same. -/
theorem no_effect_playedWithAlternative :
    ∃ (design : Design) (card : Card) (a : Ability) (x : ActivationId) (activation : Activation),
      design.build card = .ok a ∧
      ((start deedInPlay).run playedWithAlternative).effect? = some (a, x, activation) ∧
      Engine.fizzles a ((start deedInPlay).run playedWithAlternative).engine.board activation =
        false ∧
      (a.effect? activation).isNone ∧ activation.receipts = [.booted ⟨3⟩] ∧
      ((start deedInPlay).run (playedWithAlternative ++ [.go])).engine.usage.count? ⟨0⟩ =
        some 1 := by
  have hrunning : ((start deedInPlay).run playedWithAlternative).effect?.map (fun t =>
      (Engine.fizzles t.1 ((start deedInPlay).run playedWithAlternative).engine.board t.2.2,
        (t.1.effect? t.2.2).isNone, t.2.2.receipts)) = some (false, true, [.booted ⟨3⟩]) := by
    decide +kernel
  obtain ⟨⟨a, x, activation⟩, heffect, hfacts⟩ := Option.map_eq_some_iff.mp hrunning
  obtain ⟨hfizzles, hfacts⟩ := Prod.mk.inj hfacts
  obtain ⟨hnone, hreceipts⟩ := Prod.mk.inj hfacts
  have hreached : ((start deedInPlay).run playedWithAlternative).Reached := ⟨deedInPlay, _, rfl⟩
  obtain ⟨design, card, hbuild⟩ := hreached.built (hreached.sourced.effect a x activation heffect)
  exact ⟨design, card, a, x, activation, hbuild, heffect, hfizzles, hnone, hreceipts,
    by decide +kernel⟩

end Moment

end Doomtown
