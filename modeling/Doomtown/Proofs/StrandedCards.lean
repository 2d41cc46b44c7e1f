import Doomtown.Proofs.PlayedCards

/-!
# Cards that stay where they are played

A card is played to pay for the use of an ability, and if it is an action card it is discarded once
the effect has run. In between the activation may end without that: a slot may have no target, or a
waiting step of it may be withdrawn. Nobody then takes the card from where it lies, and so it is
with a card that is no action. These are the only ways (`Moment.isPlayed_iff_strands`): if nothing
runs or waits and a card is still being played, the activation that it was played for was abandoned
in one of them.
-/

namespace Doomtown

open Play

/-! ## The end of an effect -/

namespace Engine

variable {e e' : Engine} {c : CardId} {a : Ability} {x : ActivationId} {activation : Activation}

/-- Noting a headline leaves the cards as they are. -/
theorem cards_noteHeadline (h : (noteHeadline c).ends e = (.ok (), e')) :
    e'.board.cards = e.board.cards := by
  unfold noteHeadline at h
  rw [ends_bind_ok (ends_look e)] at h
  split at h
  · obtain rfl := congrArg Prod.snd h
    rfl
  · obtain rfl := congrArg Prod.snd h
    rfl

/-- A card that is moved elsewhere is not being played. -/
theorem isPlayed_moveCard {destination : Location} {moved : Bool}
    (hd : destination ≠ .beingPlayed)
    (h : (moveCard c destination).ends e = (.ok moved, e')) : e'.board.isPlayed c = false := by
  unfold moveCard at h
  obtain ⟨origin, e₁, hmove, hrest⟩ := ok_of_bind h
  rw [onBoard, ends_within] at hmove
  rcases Board.moveCard_cases c destination e.board with ⟨err, hends⟩ | ⟨card, hcard, -, hends⟩
  · simp [hends] at hmove
  · rw [hends] at hmove
    obtain rfl : { e with board := e.board.moved c card destination } = e₁ :=
      congrArg Prod.snd hmove
    have hwithholds := withholds_ends (withholds_of_tends (tends_afterMove c origin destination))
      { e with board := e.board.moved c card destination }
    rw [hrest] at hwithholds
    refine Board.Withholds.not_isPlayed hwithholds ?_
    simp [Board.isPlayed_moved hcard, hd]

/-- An action card that was played is not being played any more once it is discarded. -/
theorem isPlayed_discardPlayed (h : (discardPlayed c).ends e = (.ok (), e'))
    (haction : e.board.cardIs c (·.type = .action)) : e'.board.isPlayed c = false := by
  unfold discardPlayed at h
  rw [ends_bind_ok (ends_look e)] at h
  by_cases hplayed : isBeingPlayed e.board c
  · rw [if_pos hplayed, ends_discard] at h
    rcases hmove : (moveCard c .discardPile).ends e with ⟨err | moved, e₁⟩
    · rw [hmove] at h
      exact absurd (congrArg Prod.fst h) (by simp [Except.map])
    · rw [hmove] at h
      obtain rfl : e₁ = e' := congrArg Prod.snd h
      exact isPlayed_moveCard (by decide) hmove
  · rw [if_neg hplayed] at h
    obtain rfl : e = e' := congrArg Prod.snd h
    -- It is an action card, so it lies elsewhere.
    obtain ⟨card, hcard, htype⟩ := (Option.any_eq_true _ _).mp haction
    simpa [isBeingPlayed, Board.isPlayed, Board.cardIs, hcard, of_decide_eq_true htype] using
      hplayed

/-- An action card is not being played any more once a use of it is concluded. -/
theorem isPlayed_conclude (h : (conclude a x activation).ends e = (.ok (), e'))
    (haction : e.board.cardIs a.source (·.type = .action)) :
    e'.board.isPlayed a.source = false := by
  unfold conclude at h
  obtain ⟨_, e₁, hcounted, h⟩ := ok_of_bind h
  obtain ⟨_, e₂, hheadline, h⟩ := ok_of_bind h
  obtain ⟨_, e₃, hexecuted, h⟩ := ok_of_bind h
  obtain ⟨_, e₄, hdiscard, hrest⟩ := ok_of_bind h
  have hcards : e₃.board.cards = e.board.cards := by
    calc e₃.board.cards = e₂.board.cards := (congrArg (·.2.board.cards) hexecuted).symm
      _ = e₁.board.cards := cards_noteHeadline hheadline
      _ = e.board.cards := (congrArg (·.2.board.cards) hcounted).symm
  have hdiscarded : e₄.board.isPlayed a.source = false := by
    refine isPlayed_discardPlayed hdiscard ?_
    rwa [Board.cardIs, Board.card?, hcards]
  -- What follows moves no card.
  have htends : (do
      raise (.abilityResolved activation.ability a.source activation.player) (.emitted x)
      discard (post (.complete x)) : Play Engine Unit).Chains Withholds :=
    withholds_of_tends
      (.bind (handles_tends.raise _ _) fun _ => .discard (tends_post _))
  have hwithholds := withholds_ends htends e₄
  rw [hrest] at hwithholds
  exact Board.Withholds.not_isPlayed hwithholds hdiscarded

end Engine

/-! ## Activations that a card is played for -/

/-- A payment for an activation has moved a card, its costs are paid, and its effect has not ended
yet. -/
structure Activation.Engages (activation : Activation) (c : CardId) : Prop where
  source : activation.source = c
  moved : ∃ r ∈ activation.receipts, r.moves? = some c
  going : activation.cancelled = false
  stage : activation.stage = .costsPaid ∨ activation.stage = .targetsResolved

namespace Activation.Engages

variable {activation : Activation} {c : CardId}

theorem unfinished (h : activation.Engages c) : activation.stage.isTerminal = false := by
  rcases h.stage with hstage | hstage <;> simp [hstage, ActivationStage.isTerminal]

theorem started (h : activation.Engages c) : activation.stage ≠ .idle := by
  rcases h.stage with hstage | hstage <;> simp [hstage]

/-- A payment that has moved a card cannot be taken back. -/
theorem not_canRetract (h : activation.Engages c) (b : Board) (p : PlayerId) :
    Engine.canRetract b p activation = false := by
  obtain ⟨r, hr, hmoves⟩ := h.moved
  have hfinal : r.canUnpay b = false := by
    cases r with
    | moved => rfl
    | _ => simp [CostReceipt.moves?] at hmoves
  have hall : Payment.canUnpayAll b activation.receipts = false := by
    simp only [Payment.canUnpayAll, List.all_eq_false]
    exact ⟨r, hr, by simp [hfinal]⟩
  simp [Engine.canRetract, hall]

end Activation.Engages

/-- An activation whose costs are being paid is not cancelled. -/
theorem Advance.paid {admits : AbilityId → Prop} {a : Option Activation} {activation' : Activation}
    {ps ps' : List Part} (h : Advance admits a ps (some .paid) (some activation') ps')
    (hfits : Fits a ps) : activation'.cancelled = false ∧ activation'.stage = .costsPaid := by
  cases h with
  | @pay activation hstage receipts =>
    refine ⟨?_, rfl⟩
    -- For an activation that was cancelled nothing would wait.
    cases hcancelled : activation.cancelled with
    | false => rfl
    | true => simpa using (hfits.cancelled hcancelled).1

/-- Each step of an activation leaves it so, unless it is cancelled, retracted or concluded. -/
theorem Advance.engages {admits : AbilityId → Prop} {activation activation' : Activation}
    {ps ps' : List Part} {o : Option Occurrence} {c : CardId}
    (h : Advance admits (some activation) ps o (some activation') ps')
    (hengages : activation.Engages c) (hcounted : o ≠ some .counted)
    (hgoing : activation.stage = .costsPaid → activation'.cancelled = false)
    (hkept : activation'.deactivated = false) : activation'.Engages c := by
  obtain ⟨hsource, hmoved, hcancelled, hpaid⟩ := hengages
  generalize hbefore : some activation = before at h
  generalize hafter : some activation' = after at h
  cases h with
  | start | offer => simp at hbefore
  | decline => simp at hafter
  | skip =>
    obtain rfl := Option.some.inj (hbefore.trans hafter.symm)
    exact ⟨hsource, hmoved, hcancelled, hpaid⟩
  | answer b slot t =>
    subst hbefore
    obtain rfl := Option.some.inj hafter
    exact ⟨hsource, hmoved, hcancelled, hpaid⟩
  | accept hstage | refuse hstage | pay hstage | announce hstage =>
    obtain rfl := Option.some.inj hbefore
    simp [hstage] at hpaid
  | complete hstage =>
    obtain rfl := Option.some.inj hbefore
    rcases hstage with hstage | hstage <;> simp [hstage] at hpaid
  | miss hstage =>
    obtain rfl := Option.some.inj hbefore
    obtain rfl := Option.some.inj hafter
    simpa using hgoing hstage
  | retract hstage =>
    obtain rfl := Option.some.inj hafter
    simp at hkept
  | conclude => exact absurd rfl hcounted
  | ask | execute =>
    obtain rfl := Option.some.inj hbefore
    obtain rfl := Option.some.inj hafter
    exact ⟨hsource, hmoved, hcancelled, hpaid⟩
  | resolve =>
    obtain rfl := Option.some.inj hbefore
    obtain rfl := Option.some.inj hafter
    exact ⟨hsource, hmoved, hcancelled, .inr rfl⟩

namespace Moment

variable {m : Moment} {d : Deed} {x : ActivationId} {c : CardId}

/-- An activation that a card was played for is under way. -/
structure Engages (m : Moment) (x : ActivationId) (c : CardId) : Prop where
  filed : ∃ activation, m.engine.activations.get? x = some activation ∧ activation.Engages c
  onTrack : m.OnTrack x

/-- An activation that a card was played for ends without the card being discarded. -/
inductive Abandons (m : Moment) (d : Deed) (x : ActivationId) (c : CardId) : Prop where
  /-- It has no target for a slot. -/
  | misses (hmisses : m.misses d x)
  /-- A waiting step of it is withdrawn by order. -/
  | withdraws {s : Step} {p : Part} (hwithdraws : m.withdraws d = some s.id)
      (hwaits : s ∈ m.engine.queue.pending) (hpart : s.kind.part? = some (x, p))
  /-- It is concluded, and the card is no action. -/
  | concludes (hcounted : m.occurrence d = some (x, .counted))
      (hcard : m.engine.board.cardIs c (·.type = .action) = false)

/-- With the payment that a card is played by, the activation is under way. -/
theorem Plays.engages (h : m.Plays d x c) (hsound : m.Sound) (hon : (m.after d).OnTrack x) :
    (m.after d).Engages x c := by
  obtain ⟨activation', hget', hsource, hmoved⟩ := h.source
  have hadvance := (h.paid ▸ passage hsound d).advance
  rw [hget'] at hadvance
  obtain ⟨hgoing, hstage⟩ := hadvance.paid (hsound.fits x)
  exact ⟨⟨activation', hget', hsource, hmoved, hgoing, .inl hstage⟩, hon⟩

/-! ## One deed -/

theorem gives_of_withdraws {i : StepId} (h : m.withdraws d = some i) :
    m.gives d = some (.withdraw i) := by
  unfold withdraws at h
  split at h
  · rename_i hrunning
    obtain rfl := Option.some.inj h
    simp [gives, hrunning]
  · rename_i hrunning
    obtain rfl := Option.some.inj h
    simp [gives, hrunning]
  · simp at h

/-- To withdraw a waiting step by order leaves the records as they are, and the parts of every
activation that the step does not belong to. -/
theorem spared_by_withdrawal {i : StepId} (hd : m.withdraws d = some i)
    (hcontains : m.engine.queue.contains i)
    (hforeign : ∀ s ∈ m.engine.queue.order, s.id = i → ∀ t ∈ s.kind.part?, t.1 ≠ x) :
    (m.after d).engine.activations = m.engine.activations ∧ (m.after d).partsOf x = m.partsOf x := by
  have hengine := (after_withdraws hd hcontains).1
  refine ⟨by rw [hengine], ?_⟩
  unfold partsOf
  rw [(after_gives (gives_of_withdraws hd)).2, hengine, StepQueue.partsOf_withdraw_other hforeign]

/-- An activation that is on track has nothing ahead once it has ended. -/
theorem Sound.parts_of_ended (h : m.Sound) (hon : m.OnTrack x)
    {activation : Activation}
    (hget : m.engine.activations.get? x = some activation) (hended : activation.stage.isTerminal) :
    m.partsOf x = [] := by
  have hfits := h.fits x
  unfold OnTrack at hon
  rw [hget] at hfits hon
  rcases hon.parts with hcancelled | hahead | ⟨hresolved, -⟩
  · exact (hfits.cancelled hcancelled).1
  · have hactive := hfits.deactivated
    rw [hon.kept] at hactive
    rw [hahead]
    cases hstage : activation.stage with
    | completed => rfl
    | deactivated => simp [hstage] at hactive
    | _ => simp [hstage, ActivationStage.isTerminal] at hended
  · simp [hresolved, ActivationStage.isTerminal] at hended

/-- Where no step fails and no step of it is withdrawn by order, an activation that is on track stays
so, unless it is about to be retracted. -/
theorem Sound.onTrack_or_retracts (h : m.Sound) (hready : m.Ready) (hon : m.OnTrack x)
    {activation : Activation} (hget : m.engine.activations.get? x = some activation)
    (hsucceeds : m.fails d = false)
    (hforeign : ∀ i ∈ m.withdraws d, ∀ s ∈ m.engine.queue.order, s.id = i →
      ∀ t ∈ s.kind.part?, t.1 ≠ x) :
    (m.after d).OnTrack x ∨
      ∃ a p, m.gives d = some (.retract a p) ∧ m.engine.latestRetractable? a = some x := by
  by_cases hkeeps : ∀ i ∈ m.withdraws d, m.engine.queue.contains i = false
  · have hsteady : m.Steady d := ⟨hsucceeds, hkeeps⟩
    cases hx : m.isAbout d x with
    | false =>
      left
      unfold OnTrack
      rw [(h.course d hkeeps).partsOf_eq hx]
      rcases h.record_of_not_about hx with hsame | ⟨ended, hended, hterminal, hgone⟩
      · rw [hsame]
        exact hon
      · -- What had ended has nothing ahead.
        obtain rfl := Option.some.inj (hget.symm.trans hended)
        rw [hgone]
        exact h.parts_of_ended hon hget hterminal
    | true =>
      rcases h.about_filed hget hx with hretracts | ⟨s, p, hstarts, hpart⟩ |
        ⟨a, running, script, rfl, hrunning, hscript⟩
      · exact .inr hretracts
      · exact .inl (h.onTrack_of_starts hready hon hsteady hstarts hpart)
      · exact .inl (h.onTrack_of_effect hon hsteady hrunning hscript)
  · push Not at hkeeps
    obtain ⟨i, hi, hcontains⟩ := hkeeps
    obtain ⟨hrecords, hparts⟩ :=
      spared_by_withdrawal hi (by simpa using hcontains) (hforeign i hi)
    left
    unfold OnTrack
    rw [hrecords, hparts]
    exact hon

/-- A use is counted as the script of the effect ends. -/
theorem running_of_counted (h : m.occurrence d = some (x, .counted)) :
    ∃ a activation, d = .go ∧ m.running = some ⟨.effect a x activation, .done⟩ := by
  unfold occurrence at h
  split at h
  · obtain ⟨⟨s, q⟩, -, hoccurs⟩ := Option.bind_eq_some_iff.mp h
    unfold Engine.occurrence at hoccurs
    split at hoccurs
    · split at hoccurs <;> simp at hoccurs
    · obtain ⟨_, -, heq⟩ := Option.map_eq_some_iff.mp hoccurs
      simp at heq
    · simp at hoccurs
    · simp at hoccurs
  · rename_i a y activation hrunning
    obtain ⟨rfl, -⟩ := Prod.mk.inj (Option.some.inj h)
    exact ⟨a, activation, rfl, hrunning⟩
  · simp at h

/-- An attempt to retract the activation finds that it cannot be. -/
theorem Engages.onTrack_of_retract (h : m.Engages x c) {a : AbilityId} {p : PlayerId}
    (hgives : m.gives d = some (.retract a p)) (ho : m.engine.latestRetractable? a = some x) :
    (m.after d).OnTrack x := by
  obtain ⟨activation, hget, hengages⟩ := h.filed
  have hcannot := hengages.not_canRetract m.engine.board p
  obtain ⟨hqueue, hactivations⟩ :=
    (after_retract hgives ho hget).resolve_right fun hcan => by simp [hcannot] at hcan
  unfold OnTrack partsOf
  rw [hqueue, hactivations, (after_gives hgives).2]
  exact h.onTrack

/-- With the end of the effect an action card is not being played any more. -/
theorem Engages.discarded (h : m.Engages x c) (hreached : m.Reached) (hfair : m.Fair .go)
    {a : Ability} {activation : Activation}
    (hrunning : m.running = some ⟨.effect a x activation, .done⟩)
    (haction : m.engine.board.cardIs c (·.type = .action)) :
    (m.after .go).engine.board.isPlayed c = false := by
  have heffect : m.effect? = some (a, x, activation) := by
    unfold effect?
    rw [hrunning]
  have hsource : a.source = c := by
    obtain ⟨activation', hget, hengages⟩ := h.filed
    have hget' := hreached.sound.running a x activation heffect
    obtain rfl := Option.some.inj (hget.symm.trans hget')
    exact (hreached.sourced.source_of_effect hreached.sound heffect).trans hengages.source
  obtain ⟨e, running⟩ := m
  subst hrunning hsource
  have hok : ((Engine.conclude a x activation).ends e).1.isOk := by
    simpa [fails, Task.close] using hfair.succeeds
  show ((Engine.conclude a x activation).ends e).2.board.isPlayed a.source = false
  exact Engine.isPlayed_conclude (ends_of_isOk hok) haction

/-- The activation stays on track unless it is abandoned. -/
theorem Engages.onTrack_after (h : m.Engages x c) (hreached : m.Reached) (hfair : m.Fair d)
    (hnot : ¬m.Abandons d x c) : (m.after d).OnTrack x := by
  obtain ⟨activation, hget, -⟩ := h.filed
  -- What is withdrawn is no step of the activation.
  have hforeign : ∀ i ∈ m.withdraws d, ∀ s ∈ m.engine.queue.order, s.id = i →
      ∀ t ∈ s.kind.part?, t.1 ≠ x := by
    rintro i hi s hs rfl ⟨y, p⟩ hpart rfl
    exact hnot (.withdraws hi (StepQueue.mem_pending_iff.mpr hs) hpart)
  rcases hreached.sound.onTrack_or_retracts hreached.ready h.onTrack hget hfair.succeeds
    hforeign with hon | ⟨a, p, hgives, ho⟩
  · exact hon
  · exact h.onTrack_of_retract hgives ho

/-- While a card is being played for an activation, the activation is under way unless it is
abandoned. -/
theorem Engages.after (h : m.Engages x c) (hreached : m.Reached) (hfair : m.Fair d)
    (hnot : ¬m.Abandons d x c) (hnow : (m.after d).engine.board.isPlayed c) :
    (m.after d).Engages x c := by
  have hsound := hreached.sound
  have hon := h.onTrack_after hreached hfair hnot
  obtain ⟨activation, hget, hengages⟩ := h.filed
  refine ⟨?_, hon⟩
  rcases (passage hsound d).spared_or_taken x with ⟨usage, mine, hspares, hx, -, -⟩ |
    ⟨o, hadvance, -, -, hbetween⟩
  · exact ⟨activation, hspares.get?_eq hx hget hengages.unfinished, hengages⟩
  · rw [hget] at hadvance
    obtain ⟨activation', hget', -⟩ := hadvance.started hengages.started
    rw [hget'] at hadvance
    have hkept : activation'.deactivated = false := by
      unfold OnTrack at hon
      rw [hget'] at hon
      exact hon.kept
    have hcounted : o ≠ some .counted := by
      rintro rfl
      have hoccurrence : m.occurrence d = some (x, .counted) := by
        have hmem : .occurred .counted ∈ between x m (m.occurrence d) (m.after d) := by
          rw [hbetween]
          simp [stepHappenings]
        exact occurrence_of_mem_between hmem
      -- It is concluded, so the card is no action or is discarded.
      cases haction : m.engine.board.cardIs c (·.type = .action) with
      | false => exact hnot (.concludes hoccurrence haction)
      | true =>
        obtain ⟨a, running, rfl, hrunning⟩ := running_of_counted hoccurrence
        rw [h.discarded hreached hfair hrunning haction] at hnow
        simp at hnow
    refine ⟨activation', hget', hadvance.engages hengages hcounted (fun hstage => ?_) hkept⟩
    refine hsound.uncancelled hget hstage hengages.going ?_ hget'
    cases hmisses : m.misses d x with
    | false => rfl
    | true => exact absurd (.misses hmisses) hnot

/-! ## A run -/

/-- A card comes to be played by the first of some deeds, and is being played from then on. -/
structure Lies (m : Moment) (d : Deed) (rest : List Deed) (x : ActivationId) (c : CardId) :
    Prop where
  plays : m.Plays d x c
  stays : ∀ later, later <+: rest → (m.run (d :: later)).engine.board.isPlayed c

theorem Lies.concat {rest : List Deed} {last : Deed} (h : m.Lies d rest x c)
    (hnow : (m.run (d :: (rest ++ [last]))).engine.board.isPlayed c) :
    m.Lies d (rest ++ [last]) x c := by
  refine ⟨h.plays, fun later hlater => ?_⟩
  rcases List.prefix_concat_iff.mp hlater with rfl | hearlier
  · exact hnow
  · exact h.stays later hearlier

/-- A card that is being played after a run was played for some activation, which is under way, or
was abandoned since. -/
theorem lies_of_isPlayed (b : Board) (hnone : ∀ c, b.isPlayed c = false) (ds : List Deed)
    (hfair : Along Fair (start b) ds) (hnow : ((start b).run ds).engine.board.isPlayed c) :
    ∃ before d rest x, ds = before ++ d :: rest ∧ ((start b).run before).Lies d rest x c ∧
      (((start b).run ds).Engages x c ∨ ∃ past d' later, rest = past ++ d' :: later ∧
        ((start b).run (before ++ d :: past)).Abandons d' x c) := by
  induction ds using List.reverseRecOn with
  | nil =>
    have hstart : b.isPlayed c := hnow
    simp [hnone c] at hstart
  | append_singleton ds last ih =>
    obtain ⟨hpast, hlast, -⟩ := along_append.mp hfair
    have hreached : ((start b).run ds).Reached := ⟨b, ds, rfl⟩
    have hnow' : (((start b).run ds).after last).engine.board.isPlayed c := by
      rwa [run_append] at hnow
    cases hbefore : ((start b).run ds).engine.board.isPlayed c with
    | false =>
      -- It is played by the last deed.
      obtain ⟨x, hplays, hon⟩ := hreached.sound.plays hlast hbefore hnow'
      refine ⟨ds, last, [], x, rfl, ⟨hplays, fun later hlater => ?_⟩, .inl ?_⟩
      · rw [List.prefix_nil.mp hlater]
        exact hnow'
      · rw [run_append]
        exact hplays.engages hreached.sound hon
    | true =>
      -- It was played before, and the last deed abandons its activation or takes it on.
      obtain ⟨before, d, rest, x, rfl, hlies, hstanding⟩ := ih hpast hbefore
      refine ⟨before, d, rest ++ [last], x, by simp, hlies.concat ?_, ?_⟩
      · simpa [run_append] using hnow
      · rcases hstanding with hengages | ⟨past, d', later, rfl, habandons⟩
        · by_cases hab : ((start b).run (before ++ d :: rest)).Abandons last x c
          · exact .inr ⟨rest, last, [], rfl, hab⟩
          · rw [run_append]
            exact .inl (hengages.after hreached hlast hab hnow')
        · exact .inr ⟨past, d', later ++ [last], by simp, habandons⟩

/-- An activation for which nothing runs or waits is not under way. -/
theorem not_engages_of_idle (hrunning : m.running = none)
    (hpending : m.engine.queue.pending = []) : ¬m.Engages x c := by
  rintro ⟨⟨activation, hget, hengages⟩, hon⟩
  have hparts : m.partsOf x = [] := by
    rw [partsOf_idle hrunning, StepQueue.partsOf_eq]
    have horder : m.engine.queue.order = [] :=
      List.eq_nil_iff_forall_not_mem.mpr fun s hs => by
        simpa [hpending] using StepQueue.mem_pending_iff.mpr hs
    rw [horder]
    rfl
  -- What is on track with nothing ahead is over, and what a card is being played for is not.
  unfold OnTrack at hon
  rw [hget, hparts] at hon
  rcases hon.over with hcancelled | hcompleted
  · simp [hengages.going] at hcancelled
  · have hunfinished := hengages.unfinished
    simp [hcompleted, ActivationStage.isTerminal] at hunfinished

/-- A card was played for an activation that was abandoned since, and has been lying where it was
played. -/
def Strands (m : Moment) (ds : List Deed) (c : CardId) : Prop :=
  ∃ before d past d' later x, ds = before ++ d :: (past ++ d' :: later) ∧
    (m.run before).Lies d (past ++ d' :: later) x c ∧
    (m.run (before ++ d :: past)).Abandons d' x c

/-- Start with no card being played, and let no step fail and nobody move a card where cards are
being played. If nothing runs or waits after a run, those cards are still being played that were
played for an activation that was abandoned: it had no target for a slot, or a waiting step of it
was withdrawn, or it was concluded and the card is no action. -/
theorem isPlayed_iff_strands (b : Board) (ds : List Deed) (c : CardId)
    (hnone : ∀ c, b.isPlayed c = false) (hfair : Along Fair (start b) ds)
    (hrunning : ((start b).run ds).running = none)
    (hpending : ((start b).run ds).engine.queue.pending = []) :
    ((start b).run ds).engine.board.isPlayed c ↔ (start b).Strands ds c := by
  constructor
  · intro hplayed
    obtain ⟨before, d, rest, x, hds, hlies, hengages | ⟨past, d', later, rfl, habandons⟩⟩ :=
      lies_of_isPlayed b hnone ds hfair hplayed
    · exact absurd hengages (not_engages_of_idle hrunning hpending)
    · exact ⟨before, d, past, d', later, x, hds, hlies, habandons⟩
  · rintro ⟨before, d, past, d', later, x, rfl, hlies, -⟩
    rw [run_append]
    exact hlies.stays _ (List.prefix_refl _)

/-- Two players at noon, of whom the first has an action in hand. -/
def actionInHand : Board :=
  { Board.twoPlayer "Ann" "Bob" 0 with
    cards := IdMap.empty.insert ⟨3⟩ { Card.new ⟨3⟩ "A" .action ⟨0⟩ with location := .hand }
    privateZones := [(⟨0⟩, { PrivateZones.new ⟨0⟩ with hand := ⟨.hand, ⟨0⟩, [⟨3⟩]⟩ }),
      (⟨1⟩, .new ⟨1⟩)]
    round := { RoundState.new ⟨0⟩ with window := some .noon }
    nextNumber := 4 }

/-- The action is aimed at a card in hand, of which there is none once it is played. -/
def actionWithoutTarget : List Deed :=
  [.call (.attach ⟨3⟩ {
      kind := .action
      targets := [⟨"target", .cards .hand fun _ _ _ => true⟩]
      handler := some fun _ => .done }),
    .call (.order (.activate ⟨0⟩ ⟨0⟩)), .turn, .turn]

theorem isPlayed_actionInHand (c : CardId) : actionInHand.isPlayed c = false := by
  by_cases hc : c = ⟨3⟩
  · subst hc
    decide
  · have hcard : actionInHand.card? c = none := by
      show (IdMap.empty.insert _ _).get? c = none
      rw [IdMap.get?_insert, if_neg fun h => hc h.symm]
      exact IdMap.get?_empty c
    simp [Board.isPlayed, Board.cardIs, hcard]

theorem fair_actionWithoutTarget : Along Fair (start actionInHand) actionWithoutTarget := by
  have hfair : ∀ {m : Moment} {d : Deed}, m.fails d = false →
      (m.gives d).any (·.isToBePlayed) = false → (∀ f, d ≠ .call (.board f)) → m.Fair d :=
    fun hsucceeds horders hsetUp => ⟨hsucceeds, horders, fun f hd => absurd hd (hsetUp f)⟩
  exact ⟨hfair (by decide +kernel) (by decide +kernel) (by simp),
    hfair (by decide +kernel) (by decide +kernel) (by simp),
    hfair (by decide +kernel) (by decide +kernel) (by simp),
    hfair (by decide +kernel) (by decide +kernel) (by simp), trivial⟩

/-- The action is still being played, for the choice of its target came to nothing. -/
theorem isPlayed_iff_strands_actionWithoutTarget :
    (∀ c, actionInHand.isPlayed c = false) ∧
      Along Fair (start actionInHand) actionWithoutTarget ∧
      ((start actionInHand).run actionWithoutTarget).running = none ∧
      ((start actionInHand).run actionWithoutTarget).engine.queue.pending = [] ∧
      ((start actionInHand).run actionWithoutTarget).engine.board.isPlayed ⟨3⟩ ∧
      (start actionInHand).Strands actionWithoutTarget ⟨3⟩ := by
  have hrunning : ((start actionInHand).run actionWithoutTarget).running = none := rfl
  have hpending : ((start actionInHand).run actionWithoutTarget).engine.queue.pending = [] := by
    decide +kernel
  have hplayed : ((start actionInHand).run actionWithoutTarget).engine.board.isPlayed ⟨3⟩ := by
    decide +kernel
  exact ⟨isPlayed_actionInHand, fair_actionWithoutTarget, hrunning, hpending, hplayed,
    (isPlayed_iff_strands actionInHand actionWithoutTarget ⟨3⟩ isPlayed_actionInHand
      fair_actionWithoutTarget hrunning hpending).mp hplayed⟩

/-- So an action card that is played does not always leave the place, though nothing fails and
nothing is left to do. -/
theorem not_discarded_actionWithoutTarget :
    ¬∀ (b : Board) (ds : List Deed), (∀ c, b.isPlayed c = false) → Along Fair (start b) ds →
      ((start b).run ds).running = none → ((start b).run ds).engine.queue.pending = [] →
      ∀ c, ((start b).run ds).engine.board.isPlayed c = false := by
  intro h
  have hdiscarded := h actionInHand actionWithoutTarget isPlayed_actionInHand
    fair_actionWithoutTarget rfl (by decide +kernel) ⟨3⟩
  have hplayed : ((start actionInHand).run actionWithoutTarget).engine.board.isPlayed ⟨3⟩ := by
    decide +kernel
  simp [hdiscarded] at hplayed

end Moment

end Doomtown
