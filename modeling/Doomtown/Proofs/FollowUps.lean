import Doomtown.Proofs.Offspring
import Doomtown.Proofs.StrandedCards
import Doomtown.Proofs.UsageCount

/-!
# What follows an effect

An effect that ends without an error is followed by two steps of its activation: the event that it
has resolved, and the end of the activation. They are queued then and at no other time
(`Moment.followUps_run`), behind all that the effect has queued. So the event does not fire before
all of that is done with, and the activation is not complete before all is done with that comes of
the event (`Moment.follows_in_order`).
-/

namespace Doomtown

open Play
open StepQueue (issued numbered)

/-! ## The parts that follow -/

/-- Whether a part of an activation follows its effect. -/
def Part.follows : Part → Bool
  | announce | complete => true
  | _ => false

/-- Whether a step follows the effect of an activation. -/
def StepKind.follows (x : ActivationId) (kind : StepKind) : Bool :=
  kind.part?.any fun t => t.1 = x && t.2.follows

namespace StepKind

variable {x : ActivationId} {kind : StepKind}

theorem follows_iff : kind.follows x ↔ ∃ p : Part, kind.part? = some (x, p) ∧ p.follows := by
  unfold follows
  cases kind.part? with
  | none => simp
  | some t =>
    obtain ⟨y, p⟩ := t
    simp only [Option.any_some, Bool.and_eq_true, decide_eq_true_eq, Option.some.injEq,
      Prod.mk.injEq]
    constructor
    · rintro ⟨rfl, hp⟩
      exact ⟨p, ⟨rfl, rfl⟩, hp⟩
    · rintro ⟨q, ⟨rfl, rfl⟩, hq⟩
      exact ⟨rfl, hq⟩

/-- What follows an effect is the event of the resolution or the end. -/
theorem follows_cases (h : kind.follows x) :
    (∃ event, kind = .event event (.emitted x)) ∨ kind = .complete x := by
  obtain ⟨p, hpart, hp⟩ := follows_iff.mp h
  unfold part? at hpart
  split at hpart
  all_goals first
    | obtain ⟨rfl, rfl⟩ := Prod.mk.inj (Option.some.inj hpart)
      simp [Part.follows] at hp
    | simp at hpart
  · exact .inr rfl
  · exact .inl ⟨_, rfl⟩

end StepKind

/-- Where a part waits that follows the effect, the effect has run, and no other parts wait. -/
theorem Fits.executed {a : Option Activation} {ps : List Part} {p : Part} (h : Fits a ps)
    (hp : p ∈ ps) (hfollows : p.follows) : ∃ activation, a = some activation ∧
      (activation.stage = .executed ∨ activation.stage = .eventEmitted) ∧
      ∀ q ∈ ps, q.follows := by
  cases a with
  | none =>
    obtain rfl := List.mem_singleton.mp (h.subset hp)
    simp [Part.follows] at hfollows
  | some activation =>
    rcases h.ahead with hahead | ⟨-, rfl⟩
    · have hmem := hahead.subset hp
      refine ⟨activation, rfl, ?_⟩
      cases hstage : activation.stage with
      | executed =>
        rw [hstage] at hahead
        refine ⟨.inl rfl, fun q hq => ?_⟩
        have hq' : q ∈ [Part.announce, Part.complete] := hahead.subset hq
        simp only [List.mem_cons, List.not_mem_nil, or_false] at hq'
        rcases hq' with rfl | rfl <;> rfl
      | eventEmitted =>
        rw [hstage] at hahead
        refine ⟨.inr rfl, fun q hq => ?_⟩
        obtain rfl := List.mem_singleton.mp (hahead.subset hq)
        rfl
      | completed => simp [hstage, ActivationStage.ahead] at hmem
      | _ =>
        rw [hstage] at hmem
        obtain rfl := List.mem_singleton.mp hmem
        simp [Part.follows] at hfollows
    · obtain rfl := List.mem_singleton.mp hp
      simp [Part.follows] at hfollows

/-- Parts that follow an effect come to wait when the use is counted. -/
theorem Advance.counts {admits : AbilityId → Prop} {a a' : Option Activation} {ps ps' : List Part}
    {o : Option Occurrence} {p : Part} (h : Advance admits a ps o a' ps') (hp : p ∈ ps')
    (hfollows : p.follows) (hnone : ∀ q ∈ ps, q.follows = false) : o = some .counted := by
  have hother : ∀ {q : Part}, q.follows = false → p ∉ [q] := by
    rintro q hq hmem
    obtain rfl := List.mem_singleton.mp hmem
    simp [hfollows] at hq
  cases h with
  | conclude => rfl
  | decline => simp at hp
  | skip => simp at hp
  | refuse => simp at hp
  | miss => simp at hp
  | complete => simp at hp
  | pay _ _ hps => exact absurd (hps.subset hp) (hother rfl)
  | retract _ hps => simp [hnone p (hps.subset hp)] at hfollows
  | announce =>
    have hfirst := hnone .announce List.mem_cons_self
    simp [Part.follows] at hfirst
  | _ => exact absurd hp (hother rfl)

/-- The last stage is reached from the one part that is then left. -/
theorem Advance.completes {admits : AbilityId → Prop} {a a' : Option Activation}
    {ps ps' : List Part} {o : Option Occurrence} (h : Advance admits a ps o a' ps')
    (hreached : .reached .completed ∈ stepHappenings a o a') : ps = [.complete] := by
  obtain ⟨hafter, hbefore⟩ := reached_mem_stepHappenings.mp hreached
  cases h with
  | complete => rfl
  | decline => simp at hafter
  | skip | refuse | miss | ask | execute => exact absurd hafter hbefore
  | answer a =>
    rw [Option.map_map] at hafter
    exact absurd hafter hbefore
  | start hstage | offer hstage => simp [hstage] at hafter
  | _ => simp at hafter

/-! ## The end of an effect -/

namespace Engine

variable {e e' : Engine} {c : CardId} {a : Ability} {x : ActivationId} {activation : Activation}

/-- A card that is being played does not leave play when it is discarded, so there is no event. -/
theorem stays_discardPlayed (c : CardId) : (discardPlayed c).Chains Stays := by
  refine .single fun e => ?_
  show ((discardPlayed c).ends e).2.queue = e.queue
  unfold discardPlayed
  rw [ends_bind_ok (ends_look e)]
  by_cases hplayed : isBeingPlayed e.board c
  · rw [if_pos hplayed, ends_discard]
    show ((moveCard c .discardPile).ends e).2.queue = e.queue
    unfold moveCard
    rcases Board.moveCard_cases c .discardPile e.board with ⟨err, hends⟩ | ⟨card, hcard, -, hends⟩
    · have hmove : (onBoard (Board.moveCard c .discardPile)).ends e = (.error err, e) := by
        rw [onBoard, ends_within, hends]
      rw [ends_bind_error hmove]
    · have hmove : (onBoard (Board.moveCard c .discardPile)).ends e =
          (.ok card.location, { e with board := e.board.moved c card .discardPile }) := by
        rw [onBoard, ends_within, hends]
      rw [ends_bind_ok hmove]
      have horigin : card.location = .beingPlayed := by
        simp only [isBeingPlayed, Board.cardIs, hcard, Option.any_some, Bool.and_eq_true,
          decide_eq_true_eq] at hplayed
        exact hplayed.2
      have hquiet : (afterMove c card.location .discardPile).Chains Stays := by
        rw [horigin]
        exact .bind (stays_refresh c) fun _ => .answer _
      have hstays := stays_of_chain (hquiet { e with board := e.board.moved c card .discardPile })
      exact hstays
  · rw [if_neg hplayed]
    rfl

/-- A conclusion that does not fail queues the event of the resolution and the end. -/
theorem conclude_posts (h : (conclude a x activation).ends e = (.ok (), e')) :
    ∃ timestamp, e'.queue = e.queue.pushAll
      [.event ⟨timestamp, .abilityResolved activation.ability a.source activation.player⟩
        (.emitted x), .complete x] := by
  unfold conclude at h
  obtain ⟨_, e₁, hcounted, h⟩ := ok_of_bind h
  obtain ⟨_, e₂, hheadline, h⟩ := ok_of_bind h
  obtain ⟨_, e₃, hexecuted, h⟩ := ok_of_bind h
  obtain ⟨_, e₄, hdiscard, h⟩ := ok_of_bind h
  have hnoted : e₂.queue = e₁.queue := by
    have hchain : (noteHeadline a.source).Chains Stays :=
      .bind .look fun _ => .ite (.within fun _ _ => rfl) (.pure _)
    have hstays := stays_of_chain (hchain e₁)
    rwa [hheadline] at hstays
  have hdiscarded : e₄.queue = e₃.queue := by
    have hstays := stays_of_chain (stays_discardPlayed a.source e₃)
    rwa [hdiscard] at hstays
  have hbefore : e₄.queue = e.queue :=
    calc e₄.queue = e₃.queue := hdiscarded
      _ = e₂.queue := (congrArg (·.2.queue) hexecuted).symm
      _ = e₁.queue := hnoted
      _ = e.queue := (congrArg (·.2.queue) hcounted).symm
  refine ⟨e₄.board.clock + 1, ?_⟩
  rw [← hbefore]
  exact (congrArg (·.2.queue) h).symm

end Engine

namespace Moment

variable {m : Moment} {d d' : Deed} {x : ActivationId} {s t : Step}

/-! ## Which deeds queue what follows -/

theorem mem_partsOf_of_order {p : Part} (ht : t ∈ m.engine.queue.order)
    (hpart : t.kind.part? = some (x, p)) : p ∈ m.partsOf x := by
  have hmem : p ∈ m.engine.queue.partsOf x := StepQueue.mem_partsOf_iff.mpr ⟨t, ht, hpart⟩
  unfold partsOf
  split
  · split
    · exact List.mem_cons_of_mem _ hmem
    · exact hmem
  · exact hmem

/-- A deed about an activation whose effect has run starts a step that follows the effect, or is an
attempt to retract it that changes nothing. -/
theorem Sound.about_follows (h : m.Sound) {p : Part} (hp : p ∈ m.partsOf x) (hfollows : p.follows)
    (hx : m.isAbout d x) : (∃ s, m.starts? d = some s ∧ s.kind.follows x) ∨
      ((m.after d).engine.queue = m.engine.queue ∧
        (m.after d).engine.activations = m.engine.activations) := by
  obtain ⟨activation, hget, hstage, hall⟩ := (h.fits x).executed hp hfollows
  rcases h.about_filed hget hx with ⟨a, player, hgives, ho⟩ | ⟨s, q, hstarts, hpart⟩ |
    ⟨a, running, _, -, hrunning, -⟩
  · -- Only what has not got all of its targets can be retracted.
    refine .inr ((after_retract hgives ho hget).resolve_right ?_)
    rintro ⟨hcan, -, -⟩
    have hpaid := Engine.stage_of_canRetract hcan
    rcases hstage with hstage | hstage <;> simp [hstage] at hpaid
  · have hq := mem_partsOf_of_order (mem_order_of_starts hstarts) hpart
    exact .inl ⟨s, hstarts, StepKind.follows_iff.mpr ⟨q, hpart, hall q hq⟩⟩
  · obtain ⟨ps, hparts⟩ := partsOf_of_running hrunning
    have hrun := hall .effect (by simp [hparts])
    simp [Part.follows] at hrun

/-- The steps that follow an effect queue no such steps themselves. -/
theorem Sound.not_follows_of_starts (h : m.Sound) (hstarts : m.starts? d = some s)
    (hs : s.kind.follows x) (ht : t ∈ (m.after d).engine.queue.order)
    (hnew : m.engine.queue.nextId ≤ t.id.number) : t.kind.part? = none := by
  obtain ⟨i, kind⟩ := s
  have hold : ∀ {rest : List Step}, m.engine.queue.steps = ⟨i, kind⟩ :: rest →
      ∀ t ∈ (m.engine.queue.started rest).order, t.id.number < m.engine.queue.nextId := by
    intro rest hfront t ht
    have ht' : t ∈ rest := ht
    exact h.ids t (StepQueue.mem_order_of_mem_steps (by simp [hfront, ht']))
  cases d with
  | turn =>
    obtain ⟨q, hrunning, hbegin, hafter⟩ := begin?_of_starts hstarts
    obtain ⟨rest, -, hfront, rfl⟩ := StepQueue.begin?_eq_some hbegin
    rw [hafter] at ht
    unfold turn at ht
    rcases StepKind.follows_cases hs with ⟨event, hkind⟩ | hkind
    · obtain rfl : kind = .event event (.emitted x) := hkind
      simp only [hbegin, Engine.opening, Engine.asStep_ends, Engine.runStep_kind] at ht
      -- The stage of the activation changes first, then a window opens, which is no part.
      let e₁ : Engine := { m.engine with
        queue := m.engine.queue.started rest
        activations := m.engine.activations.modify x ({ · with stage := .eventEmitted }) }
      have hkeeps : e₁.Keeps (fun _ => false) ((Engine.openWindow event).ends e₁).2 :=
        Engine.Changes.keeps (Engine.changes_openWindow event e₁)
      rcases hkeeps.steps t ht with hmem | ⟨-, honly⟩
      · exact absurd (hold hfront t hmem) (Nat.not_lt.mpr hnew)
      · exact Option.eq_none_iff_forall_not_mem.mpr fun y hy => by simpa using honly.part y hy
    · obtain rfl : kind = .complete x := hkind
      simp only [hbegin, Engine.opening, Engine.asStep_ends, Engine.runStep_kind] at ht
      exact absurd (hold hfront t ht) (Nat.not_lt.mpr hnew)
  | answer p n =>
    obtain ⟨_, prompt, _, -, -, hstep, -⟩ := beginAnswer?_of_starts hstarts
    obtain ⟨rfl, rfl⟩ := Step.mk.inj hstep
    rcases StepKind.follows_cases hs with ⟨_, hkind⟩ | hkind <;> simp at hkind
  | _ => cases hr : m.running <;> simp [starts?, hr] at hstarts

/-- What follows an effect is queued by the deed that counts the use. -/
theorem Sound.counted_of_follows (h : m.Sound) (ht : t ∈ (m.after d).engine.queue.order)
    (hnew : m.engine.queue.nextId ≤ t.id.number) (hfollows : t.kind.follows x) :
    m.occurrence d = some (x, .counted) := by
  have hfresh : t ∉ m.engine.queue.order := fun hold =>
    absurd (h.ids t hold) (Nat.not_lt.mpr hnew)
  obtain ⟨p, hpart, hp⟩ := StepKind.follows_iff.mp hfollows
  have hafter : p ∈ (m.after d).partsOf x := mem_partsOf_of_order ht hpart
  have hx : m.isAbout d x := (h.waited_or_about ht hpart).resolve_left hfresh
  by_cases hbefore : ∃ q ∈ m.partsOf x, q.follows
  · -- Then the deed starts such a step, which queues no other, or does nothing.
    obtain ⟨q, hq, hqfollows⟩ := hbefore
    rcases h.about_follows hq hqfollows hx with ⟨s, hstarts, hs⟩ | ⟨hqueue, -⟩
    · have hnone := h.not_follows_of_starts hstarts hs ht hnew
      simp [hpart] at hnone
    · exact absurd (hqueue ▸ ht) hfresh
  · have hnone : ∀ q ∈ m.partsOf x, q.follows = false := by simpa using hbefore
    rcases (passage h d).spared_or_taken x with ⟨usage, mine, hspares, hmine, heffect, -⟩ |
      ⟨o, hadvance, -, -, hbetween⟩
    · have hsub := partsOf_sublist (e := { m.engine with usage := usage }) rfl hspares hmine heffect
      simp [hnone p (hsub.subset hafter)] at hp
    · obtain rfl := hadvance.counts hafter hp hnone
      have hmem : .occurred .counted ∈ happenings x m d := by
        rw [happenings, hbetween]
        simp [stepHappenings]
      exact occurrence_of_mem_between hmem

/-- An activation announces its resolution when a step starts that follows its effect. -/
theorem starts_of_announced (h : .occurred .announced ∈ happenings x m d) :
    ∃ i event, m.starts? d = some ⟨i, .event event (.emitted x)⟩ := by
  have hoccurrence : m.occurrence d = some (x, .announced) := occurrence_of_mem_between h
  unfold occurrence at hoccurrence
  split at hoccurrence
  · rename_i hrunning
    obtain ⟨⟨⟨i, kind⟩, q⟩, hbegin, hkind⟩ := Option.bind_eq_some_iff.mp hoccurrence
    unfold Engine.occurrence at hkind
    split at hkind
    · split at hkind <;> simp at hkind
    · obtain ⟨_, -, heq⟩ := Option.map_eq_some_iff.mp hkind
      simp at heq
    · rename_i event y hevent
      obtain ⟨rfl, -⟩ := Prod.mk.inj (Option.some.inj hkind)
      obtain rfl : kind = .event event (.emitted y) := hevent
      exact ⟨i, event, by simp [starts?, hrunning, hbegin]⟩
    · simp at hkind
  · simp at hoccurrence
  · simp at hoccurrence

/-- An activation is complete when the last step starts that follows its effect. -/
theorem Sound.starts_of_completed (h : m.Sound) (hcompleted : .reached .completed ∈ happenings x m d) :
    ∃ i, m.starts? d = some ⟨i, .complete x⟩ := by
  rcases (passage h d).spared_or_taken x with ⟨_, _, -, -, -, hbetween⟩ |
    ⟨o, hadvance, -, -, hbetween⟩
  · rw [happenings, hbetween] at hcompleted
    simp at hcompleted
  · rw [happenings, hbetween] at hcompleted
    have hparts := hadvance.completes hcompleted
    obtain ⟨hafter, hbefore⟩ := reached_mem_stepHappenings.mp hcompleted
    have hx : m.isAbout d x := by
      by_contra hx
      rcases h.record_of_not_about (by simpa using hx) with heq | ⟨_, -, -, hnone⟩
      · rw [heq] at hafter
        exact hbefore hafter
      · simp [hnone] at hafter
    have hmem : Part.complete ∈ m.partsOf x := by simp [hparts]
    rcases h.about_follows hmem rfl hx with ⟨⟨i, kind⟩, hstarts, hs⟩ | ⟨-, hactivations⟩
    · rcases StepKind.follows_cases hs with ⟨event, hkind⟩ | hkind
      · obtain rfl : kind = .event event (.emitted x) := hkind
        -- The end would wait behind the event, and it is all that waits.
        have hannounce := mem_partsOf_of_order (x := x) (p := .announce)
          (mem_order_of_starts hstarts) rfl
        simp [hparts] at hannounce
      · obtain rfl : kind = .complete x := hkind
        exact ⟨i, hstarts⟩
    · rw [hactivations] at hafter
      exact absurd hafter hbefore

/-! ## What follows in a run -/

/-- The steps that some deeds queue to follow the effect of an activation. -/
def followUps (x : ActivationId) : Moment → List Deed → List Step
  | _, [] => []
  | m, d :: ds => (m.arrivals d).filter (·.kind.follows x) ++ followUps x (m.after d) ds

theorem followUps_append {ds' : List Deed} : ∀ {m : Moment} {ds : List Deed},
    followUps x m (ds ++ ds') = followUps x m ds ++ followUps x (m.run ds) ds'
  | _, [] => rfl
  | m, d :: ds => by
    rw [List.cons_append, followUps, followUps, followUps_append, run_cons, List.append_assoc]

/-- Where no use of an activation is counted, nothing is queued to follow its effect. -/
theorem followUps_of_not_counted (h : m.Sound) {ds : List Deed}
    (hnone : ∀ past d rest, ds = past ++ d :: rest →
      (m.run past).occurrence d ≠ some (x, .counted)) : followUps x m ds = [] := by
  induction ds generalizing m with
  | nil => rfl
  | cons d ds ih =>
    have hnow : (m.arrivals d).filter (·.kind.follows x) = [] := by
      rw [List.filter_eq_nil_iff]
      intro t ht hfollows
      obtain ⟨hpending, hnew⟩ := List.mem_filter.mp ht
      exact hnone [] d ds rfl (h.counted_of_follows hpending (of_decide_eq_true hnew) hfollows)
    have hlater := ih (h.after d) fun past d' rest hds => by
      have hnot := hnone (d :: past) d' rest (by rw [hds, List.cons_append])
      rwa [run_cons] at hnot
    rw [followUps, hnow, hlater, List.append_nil]

/-- A step that waits and follows an effect has waited before or was queued since. -/
theorem mem_followUps {ds : List Deed} (hs : s ∈ (m.run ds).engine.queue.order)
    (hfollows : s.kind.follows x) : s ∈ m.engine.queue.order ∨ s ∈ followUps x m ds := by
  induction ds generalizing m with
  | nil => exact .inl hs
  | cons d ds ih =>
    rcases ih hs with hwaits | hlater
    · rcases (m.serves d).pending.2 s hwaits with hold | hnew
      · exact .inl hold
      · refine .inr (List.mem_append_left _ (List.mem_filter.mpr ⟨?_, hfollows⟩))
        exact List.mem_filter.mpr ⟨hwaits, decide_eq_true hnew⟩
    · exact .inr (List.mem_append_right _ hlater)

/-! ## While a script runs -/

theorem task_after {r r' : Running} (hr : m.running = some r)
    (hr' : (m.after d).running = some r') : r'.task = r.task := by
  obtain ⟨e, running⟩ := m
  obtain rfl : running = some r := hr
  obtain ⟨task, script⟩ := r
  cases d with
  | go =>
    cases script with
    | done | fail => simp [after, go] at hr'
    | _ =>
      obtain rfl := Option.some.inj hr'
      rfl
  | _ =>
    obtain rfl := Option.some.inj hr'
    rfl

/-- While a script runs, what waits outside of its step stays or is withdrawn. -/
theorem steps_after (hm : m.InStep) (hbusy : m.running.isSome) (hruns : (m.after d).running.isSome) :
    (m.after d).engine.queue.steps ⊆ m.engine.queue.steps := by
  obtain ⟨r, hrunning⟩ := Option.isSome_iff_exists.mp hbusy
  obtain ⟨own, hown⟩ := hm.busy hrunning
  cases m.serves d with
  | posts kinds hqueue =>
    rw [hqueue, StepQueue.pushAll_running hown]
    exact List.Subset.refl _
  | enters kind hqueue =>
    have hsteps : (m.engine.queue.pushNext kind).steps = m.engine.queue.steps := by
      simp [StepQueue.pushNext, hown]
    rw [hqueue, hsteps]
    exact List.Subset.refl _
  | withdraws i hqueue =>
    obtain ⟨hsub, -⟩ := m.engine.queue.withdraw_sublist i
    rw [hqueue]
    exact hsub.subset
  | whole _ _ _ hidle => simp [hidle] at hbusy
  | opens _ _ hidle => simp [hidle] at hbusy
  | closes _ _ _ hends => simp [hends] at hruns

/-- A script runs on for some deeds. -/
def RunsOn : Moment → List Deed → Prop
  | m, [] => m.running.isSome
  | m, d :: ds => m.running.isSome ∧ RunsOn (m.after d) ds

theorem RunsOn.busy {ds : List Deed} (h : m.RunsOn ds) : m.running.isSome := by
  cases ds with
  | nil => exact h
  | cons d ds => exact h.1

/-- The script that runs on is part of one task, and nothing new waits outside of its step. -/
theorem RunsOn.stays {ds : List Deed} (h : m.RunsOn ds) (hm : m.InStep) {r r' : Running}
    (hr : m.running = some r) (hr' : (m.run ds).running = some r') :
    r'.task = r.task ∧ (m.run ds).engine.queue.steps ⊆ m.engine.queue.steps := by
  induction ds generalizing m r with
  | nil =>
    obtain rfl := Option.some.inj (hr.symm.trans hr')
    exact ⟨rfl, List.Subset.refl _⟩
  | cons d ds ih =>
    obtain ⟨hbusy, hlater⟩ := h
    obtain ⟨r₁, hr₁⟩ := Option.isSome_iff_exists.mp hlater.busy
    obtain ⟨htask, hsteps⟩ := ih hlater ((m.serves d).inStep hm) hr₁ hr'
    exact ⟨htask.trans (task_after hr hr₁),
      List.Subset.trans hsteps (steps_after hm hbusy hlater.busy)⟩

/-! ## The order of a resolution -/

/-- The effect of an activation starts by a deed, its script runs on for some deeds and comes to its
end, and what is then left of the step does not fail. -/
structure Resolves (m : Moment) (d : Deed) (work : List Deed) (x : ActivationId) : Prop where
  starts : ∃ i, m.starts? d = some ⟨i, .resolve x .execute⟩
  runs : (m.after d).RunsOn work
  ends : ∃ task, ((m.after d).run work).running = some ⟨task, .done⟩
  succeeds : ((m.after d).run work).fails .go = false

/-- The steps that some deeds queue. -/
def queuedDuring (m : Moment) (ds : List Deed) : List StepId :=
  issued m.engine.queue.nextId (m.run ds).engine.queue.nextId

end Moment

/-- The event that an activation has resolved. -/
def Activation.announcement (activation : Activation) (x : ActivationId) (n timestamp : Nat) :
    Step :=
  ⟨⟨n⟩, .event ⟨timestamp, .abilityResolved activation.ability activation.source activation.player⟩
    (.emitted x)⟩

/-- The end of an activation. -/
def completion (x : ActivationId) (n : Nat) : Step := ⟨⟨n⟩, .complete x⟩

/-- The queue once an effect was concluded: the event and the end wait behind what the effect has
queued, in front of all else. -/
def StepQueue.concluded (q : StepQueue) (own : List Step) (activation : Activation)
    (x : ActivationId) (timestamp : Nat) : StepQueue where
  steps := own ++
    (activation.announcement x q.nextId timestamp :: completion x (q.nextId + 1) :: q.steps)
  running := none
  nextId := q.nextId + 2

theorem StepQueue.concluded_eq {q : StepQueue} {own : List Step} (hown : q.running = some own)
    (activation : Activation) (x : ActivationId) (timestamp : Nat) :
    q.concluded own activation x timestamp = (q.pushAll
      [.event ⟨timestamp, .abilityResolved activation.ability activation.source activation.player⟩
        (.emitted x), .complete x]).finish := by
  rw [pushAll_running hown]
  simp [finish, children, concluded, numbered, Activation.announcement, completion]

namespace Moment

variable {m : Moment} {d : Deed} {x : ActivationId} {a : Ability} {activation : Activation}
  {own : List Step} {b : Board} {past work : List Deed}

/-- An effect that starts to run. -/
theorem opens_effect {i : StepId} (hstarts : m.starts? d = some ⟨i, .resolve x .execute⟩)
    (hruns : (m.after d).running.isSome) : ∃ a activation script rest,
      m.engine.queue.steps = ⟨i, .resolve x .execute⟩ :: rest ∧
      (m.after d).engine.queue = m.engine.queue.started rest ∧
      (m.after d).running = some ⟨.effect a x activation, script⟩ := by
  cases d with
  | turn =>
    obtain ⟨q, hrunning, hbegin, hafter⟩ := begin?_of_starts hstarts
    obtain ⟨rest, -, hfront, rfl⟩ := StepQueue.begin?_eq_some hbegin
    unfold turn at hafter
    rw [hbegin] at hafter
    dsimp only at hafter
    cases hopening : m.engine.opening (.resolve x .execute) with
    | none =>
      rw [hopening] at hafter
      simp [hafter] at hruns
    | some r =>
      rw [hopening] at hafter
      rcases Engine.opening_cases hopening with ⟨_, _, hkind, -⟩ | ⟨_, _, hkind, -⟩ |
        ⟨y, activation, a, hkind, -, -, -, rfl⟩
      · simp at hkind
      · simp at hkind
      · obtain ⟨rfl, -⟩ := StepKind.resolve.inj hkind
        exact ⟨a, activation, _, rest, hfront, congrArg (·.engine.queue) hafter,
          congrArg (·.running) hafter⟩
  | answer p n =>
    obtain ⟨_, _, _, -, -, hstep, -⟩ := beginAnswer?_of_starts hstarts
    simp at hstep
  | _ => cases hr : m.running <;> simp [starts?, hr] at hstarts

/-- An effect that is about to be concluded, after all of its script. -/
structure Concluding (m₀ m : Moment) (x : ActivationId) (a : Ability) (activation : Activation)
    (own : List Step) : Prop where
  running : m.running = some ⟨.effect a x activation, .done⟩
  filed : m.engine.activations.get? x = some activation
  source : a.source = activation.source
  own : m.engine.queue.running = some own
  /-- What waits outside of its step has waited when it started. -/
  older : ∀ t ∈ m.engine.queue.steps, t.id.number < m₀.engine.queue.nextId

theorem Resolves.concluding (h : m.Resolves d work x) (hreached : m.Reached) :
    ∃ a activation own, Concluding (m.after d) ((m.after d).run work) x a activation own := by
  obtain ⟨i, hstarts⟩ := h.starts
  obtain ⟨task, hends⟩ := h.ends
  obtain ⟨a, activation, script, rest, hfront, hqueue, hopens⟩ :=
    opens_effect hstarts h.runs.busy
  have hafter := hreached.after d
  -- The script that comes to its end is the one that was opened.
  obtain ⟨htask, hsteps⟩ := h.runs.stays hafter.ready.running hopens hends
  obtain rfl : task = .effect a x activation := htask
  have hrun := hafter.run work
  obtain ⟨own, hown⟩ := InStep.busy hrun.ready.running hends
  have heffect : ((m.after d).run work).effect? = some (a, x, activation) := by
    unfold effect?
    rw [hends]
  refine ⟨a, activation, own, hends, hrun.sound.running a x activation heffect,
    hrun.sourced.source_of_effect hrun.sound heffect, hown, fun t ht => ?_⟩
  have ht' := hsteps ht
  rw [hqueue] at ht' ⊢
  exact hreached.sound.ids t (StepQueue.mem_order_of_mem_steps (by
    rw [hfront]
    exact List.mem_cons_of_mem _ ht'))

/-- The conclusion of an effect queues its follow-ups behind all that the effect has queued. -/
theorem Concluding.queue_after {m₀ : Moment} (h : Concluding m₀ m x a activation own)
    (hsucceeds : m.fails .go = false) : ∃ timestamp,
      (m.after .go).engine.queue = m.engine.queue.concluded own activation x timestamp := by
  obtain ⟨e, running⟩ := m
  obtain rfl : running = some ⟨.effect a x activation, .done⟩ := h.running
  have hok : ((Engine.conclude a x activation).ends e).1.isOk := by
    simpa [fails, Task.close] using hsucceeds
  obtain ⟨timestamp, hqueue⟩ := Engine.conclude_posts (ends_of_isOk hok)
  refine ⟨timestamp, ?_⟩
  show ((Engine.conclude a x activation).ends e).2.queue.finish = _
  have hown : e.queue.running = some own := h.own
  rw [hqueue, h.source, StepQueue.concluded_eq hown]

/-- They are all that is queued then. -/
theorem Concluding.arrivals {m₀ : Moment} (h : Concluding m₀ m x a activation own)
    (hsound : m.Sound) {timestamp : Nat}
    (hqueue : (m.after .go).engine.queue = m.engine.queue.concluded own activation x timestamp) :
    m.arrivals .go = [activation.announcement x m.engine.queue.nextId timestamp,
      completion x (m.engine.queue.nextId + 1)] := by
  unfold Moment.arrivals
  rw [hqueue, StepQueue.concluded_eq h.own, StepQueue.order_finish,
    StepQueue.filter_pushAll hsound.ids]
  rfl

/-- After an effect its follow-ups come in order: they are queued once in the run. The event does not
fire before all has left the queue that comes of what the effect has queued, and the activation is
not complete before all has left the queue that comes of the event. -/
structure FollowsInOrder (b : Board) (before : List Deed) (x : ActivationId) (roots : List StepId)
    (event final : Step) (later : List Deed) : Prop where
  queued : followUps x (start b) (before ++ .go :: later) = [event, final]
  announces : ∀ d, .occurred .announced ∈ happenings x ((start b).run (before ++ .go :: later)) d →
    ((start b).run (before ++ .go :: later)).starts? d = some event
  fires : ∀ d, ((start b).run (before ++ .go :: later)).starts? d = some event →
    ∀ i ∈ ((start b).run (before ++ [.go])).offspring roots later,
      LeftQueue b (before ++ .go :: later) i
  completes : ∀ d, .reached .completed ∈ happenings x ((start b).run (before ++ .go :: later)) d →
    ((start b).run (before ++ .go :: later)).starts? d = some final ∧
      ∀ i ∈ ((start b).run (before ++ [.go])).offspring [event.id] later,
        LeftQueue b (before ++ .go :: later) i

/-- A deed that counts a use is the only one of a run that queues what follows the effect. -/
theorem followUps_run {m : Moment} (hsound : m.Sound) {before later : List Deed}
    (hcounts : (m.run before).occurrence d = some (x, .counted)) :
    followUps x m (before ++ d :: later) =
      ((m.run before).arrivals d).filter (·.kind.follows x) := by
  have hcounted : ∀ {past : List Deed} {d' : Deed},
      (m.run past).occurrence d' = some (x, .counted) → ∃ a, (m.run past).Counts d' x a := by
    intro past d' hoccurrence
    have hadvance := (hoccurrence ▸ passage (hsound.run past) d').advance
    obtain ⟨activation, hget, -⟩ := hadvance.concludes
    exact ⟨activation.ability, hoccurrence, by rw [abilityOf?, hget]; rfl⟩
  obtain ⟨a, hnow⟩ := hcounted hcounts
  have hbefore : followUps x m before = [] := by
    refine followUps_of_not_counted hsound fun past d' rest hds hoccurrence => ?_
    obtain ⟨a', hearlier⟩ := hcounted hoccurrence
    have hagain : (((m.run past).after d').run rest).Counts d x a := by
      rwa [← run_cons, ← run_append, ← hds]
    exact hearlier.not_again (hsound.run past) rest hagain
  -- A use is counted once, so neither an earlier deed nor a later one queues more.
  have hlater : followUps x ((m.run before).after d) later = [] := by
    have hsound' := (hsound.run before).after d
    refine followUps_of_not_counted hsound' fun past d' rest _ hoccurrence => ?_
    have hoccurrence' : (m.run (before ++ d :: past)).occurrence d' = some (x, .counted) := by
      rwa [run_append, run_cons]
    obtain ⟨a', hagain⟩ := hcounted hoccurrence'
    rw [run_append, run_cons] at hagain
    exact hnow.not_again (hsound.run before) past hagain
  rw [followUps_append, hbefore, List.nil_append, followUps, hlater, List.append_nil]

/-! ### From the conclusion on -/

section Concluded

variable {m₀ : Moment} {before : List Deed} {timestamp : Nat}

/-- The follow-ups are queued once in the run. -/
theorem Concluding.followUps (h : Concluding m₀ ((start b).run before) x a activation own)
    (hqueue : (((start b).run before).after .go).engine.queue =
      ((start b).run before).engine.queue.concluded own activation x timestamp)
    (later : List Deed) : followUps x (start b) (before ++ .go :: later) =
      [activation.announcement x ((start b).run before).engine.queue.nextId timestamp,
        completion x (((start b).run before).engine.queue.nextId + 1)] := by
  have hcounts : ((start b).run before).occurrence .go = some (x, .counted) := by
    unfold occurrence
    rw [h.running]
  rw [followUps_run (sound_start b) hcounts, h.arrivals ((sound_start b).run before) hqueue]
  simp [Activation.announcement, completion, StepKind.follows, StepKind.part?, Part.follows]

/-- Whatever starts in the run and follows the effect is one of them. -/
theorem Concluding.starts_cases (h : Concluding m₀ ((start b).run before) x a activation own)
    (hqueue : (((start b).run before).after .go).engine.queue =
      ((start b).run before).engine.queue.concluded own activation x timestamp)
    {later : List Deed} {s : Step}
    (hstarts : ((start b).run (before ++ .go :: later)).starts? d = some s)
    (hfollows : s.kind.follows x) :
    s = activation.announcement x ((start b).run before).engine.queue.nextId timestamp ∨
      s = completion x (((start b).run before).engine.queue.nextId + 1) := by
  rcases mem_followUps (mem_order_of_starts hstarts) hfollows with hnone | hmem
  · simp [start, Engine.new, StepQueue.order, StepQueue.children, StepQueue.empty] at hnone
  · rw [h.followUps hqueue] at hmem
    simpa using hmem

/-- The event waits behind what the effect has queued, and the end behind the event. -/
theorem waits_concluded {q : StepQueue} :
    (q.concluded own activation x timestamp).Waits (activation.announcement x q.nextId timestamp)
        (completion x (q.nextId + 1) :: q.steps) (own.map (·.id)) [] ∧
      (q.concluded own activation x timestamp).Waits (completion x (q.nextId + 1)) q.steps
        (own.map (·.id) ++ [⟨q.nextId⟩]) [] := by
  constructor
  · exact ⟨⟨own, [], by simp [StepQueue.concluded], fun t ht => List.mem_map_of_mem ht, by simp⟩,
      by simp [StepQueue.concluded, StepQueue.children]⟩
  · refine ⟨⟨own ++ [activation.announcement x q.nextId timestamp], [],
      by simp [StepQueue.concluded], fun t ht => ?_, by simp⟩,
      by simp [StepQueue.concluded, StepQueue.children]⟩
    rcases List.mem_append.mp ht with hown | hevent
    · exact List.mem_append_left _ (List.mem_map_of_mem hown)
    · obtain rfl := List.mem_singleton.mp hevent
      exact List.mem_append_right _ List.mem_cons_self

theorem Concluding.followsInOrder (h : Concluding m₀ ((start b).run before) x a activation own)
    (hqueue : (((start b).run before).after .go).engine.queue =
      ((start b).run before).engine.queue.concluded own activation x timestamp)
    {roots : List StepId} (hroots : ∀ r ∈ roots, m₀.engine.queue.nextId ≤ r.number ∧
      r.number < ((start b).run before).engine.queue.nextId) (later : List Deed) :
    FollowsInOrder b before x roots
      (activation.announcement x ((start b).run before).engine.queue.nextId timestamp)
      (completion x (((start b).run before).engine.queue.nextId + 1)) later := by
  have hsplit : before ++ .go :: later = (before ++ [.go]) ++ later := by simp
  have hafter : (start b).run (before ++ [.go]) = ((start b).run before).after .go :=
    run_append _ _ _
  obtain ⟨hwaitsEvent, hwaitsEnd⟩ := @waits_concluded x activation own timestamp
    ((start b).run before).engine.queue
  rw [← hqueue, ← hafter] at hwaitsEvent hwaitsEnd
  have hnext : ((start b).run (before ++ [.go])).engine.queue.nextId =
      ((start b).run before).engine.queue.nextId + 2 := by
    rw [hafter, hqueue]
    rfl
  refine ⟨h.followUps hqueue later, fun d hannounced => ?_, fun d hstarts => ?_,
    fun d hcompleted => ?_⟩
  · obtain ⟨i, event, hstarts⟩ := starts_of_announced hannounced
    rcases h.starts_cases hqueue hstarts
      (by simp [StepKind.follows, StepKind.part?, Part.follows]) with heq | heq
    · rw [hstarts, heq]
    · simp [completion] at heq
  · rw [hsplit] at hstarts ⊢
    refine leftQueue_of_starts hwaitsEvent (fun r hr => ?_) hstarts
    -- By their numbers the roots are none of the steps behind the event.
    obtain ⟨hlow, hhigh⟩ := hroots r hr
    refine ⟨by omega, ?_, fun t ht => ?_⟩
    · rintro rfl
      exact absurd hhigh (Nat.lt_irrefl _)
    · rintro rfl
      rcases List.mem_cons.mp ht with rfl | ht
      · exact absurd hhigh (Nat.not_lt.mpr (Nat.le_succ _))
      · exact absurd hlow (Nat.not_le.mpr (h.older t ht))
  · obtain ⟨i, hstarts⟩ := ((sound_start b).run _).starts_of_completed hcompleted
    rcases h.starts_cases hqueue hstarts
      (by simp [StepKind.follows, StepKind.part?, Part.follows]) with heq | heq
    · simp [Activation.announcement] at heq
    · rw [heq] at hstarts
      refine ⟨hstarts, ?_⟩
      rw [hsplit] at hstarts ⊢
      refine leftQueue_of_starts hwaitsEnd (fun r hr => ?_) hstarts
      obtain rfl := List.mem_singleton.mp hr
      refine ⟨by simp [Activation.announcement, hnext], ?_, fun t ht => ?_⟩
      · simp [Activation.announcement, completion]
      · rintro heq
        have hlow := ((sound_start b).run before).ids t (StepQueue.mem_order_of_mem_steps ht)
        rw [heq] at hlow
        exact absurd hlow (Nat.lt_irrefl _)

end Concluded

/-- For an effect that ends without an error, the event that the activation has resolved is queued
exactly once in a run. It fires only after all that the effect has queued, with all that descends
from that, has run or was withdrawn, and the activation is complete only after that is so of all
that descends from the event. -/
theorem follows_in_order (h : ((start b).run past).Resolves d work x) :
    ∃ activation timestamp,
      ((start b).run (past ++ d :: work)).engine.activations.get? x = some activation ∧
      ∀ later : List Deed, FollowsInOrder b (past ++ d :: work) x
        ((((start b).run past).after d).queuedDuring work)
        (activation.announcement x ((start b).run (past ++ d :: work)).engine.queue.nextId timestamp)
        (completion x (((start b).run (past ++ d :: work)).engine.queue.nextId + 1)) later := by
  obtain ⟨a, activation, own, hconcluding⟩ := h.concluding ⟨b, past, rfl⟩
  have hrun : (((start b).run past).after d).run work = (start b).run (past ++ d :: work) := by
    rw [run_append, run_cons]
  have hsucceeds := h.succeeds
  rw [hrun] at hconcluding hsucceeds
  obtain ⟨timestamp, hqueue⟩ := hconcluding.queue_after hsucceeds
  refine ⟨activation, timestamp, hconcluding.filed, fun later => ?_⟩
  refine hconcluding.followsInOrder hqueue (fun r hr => ?_) later
  rw [← hrun]
  exact StepQueue.mem_issued.mp hr

/-- A deed has an action whose effect queues a step, and an ability that its resolution sets off. The
next turn starts the effect. -/
def answeredAction : List Deed :=
  [.call (.attach ⟨3⟩ {
      kind := .action
      handler := some fun _ => .queue "child" .done fun _ => .done }),
    .call (.attach ⟨3⟩ {
      kind := .forced
      triggers := [(.abilityResolved, fun _ _ => true)]
      handler := some fun _ => .done
      limit := some ⟨1, .round⟩ }),
    .call (.order (.activate ⟨0⟩ ⟨0⟩)), .turn, .turn]

/-- The event waits for the step that the effect queues, and the end for the ability that the event
sets off. -/
theorem follows_in_order_answeredAction :
    ((start deedInPlay).run answeredAction).Resolves .turn [.go] ⟨0⟩ ∧
      (((start deedInPlay).run answeredAction).after .turn).queuedDuring [.go] = [⟨3⟩] ∧
      ∃ event final, ∀ later, FollowsInOrder deedInPlay (answeredAction ++ [.turn, .go]) ⟨0⟩ [⟨3⟩]
        event final later := by
  have hresolves : ((start deedInPlay).run answeredAction).Resolves .turn [.go] ⟨0⟩ :=
    ⟨⟨_, rfl⟩, ⟨by decide +kernel, show Option.isSome _ = true by decide +kernel⟩, ⟨_, rfl⟩,
      by decide +kernel⟩
  have hqueued : (((start deedInPlay).run answeredAction).after .turn).queuedDuring [.go] = [⟨3⟩] :=
    by decide +kernel
  obtain ⟨activation, timestamp, -, hfollows⟩ := follows_in_order hresolves
  rw [hqueued] at hfollows
  exact ⟨hresolves, hqueued, _, _, hfollows⟩

end Moment

end Doomtown
