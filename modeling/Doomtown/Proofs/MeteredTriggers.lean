import Doomtown.Proofs.Alternatives
import Doomtown.Proofs.RemainingUses
import Doomtown.Proofs.WindowTurns

/-!
# Triggers that limits bound

Every trigger that an event brings into a window is metered: its uses are counted, for it is
registered (`Engine.metered_of_collect`). It stays metered while it waits, or else its card was
discarded in the meantime and it is not legal any more (`Engine.Metered`). So whatever the window
offers has a use left then (`Engine.Metered.hasLeft`).
-/

namespace Doomtown

open Play

/-- The ability has a limit, which always stops it, and none of its costs moves a card. -/
structure Ability.Limited (a : Ability) : Prop where
  limit : a.limit.isSome
  stops : a.allowUsed = false
  stays : ∀ cost ∈ a.costs, cost.destination = none

instance (a : Ability) : Decidable a.Limited :=
  decidable_of_iff
    (a.limit.isSome ∧ a.allowUsed = false ∧ ∀ cost ∈ a.costs, cost.destination = none)
    ⟨fun h => ⟨h.1, h.2.1, h.2.2⟩, fun h => ⟨h.limit, h.stops, h.stays⟩⟩

/-- Cards are filed under their own numbers. -/
def Board.Labelled (b : Board) : Prop := ∀ c card, b.card? c = some card → card.id = c

/-- A single card that is filed under its own number. -/
theorem Board.labelled_insert {b : Board} {c : CardId} {card : Card}
    (hcards : b.cards = IdMap.empty.insert c card) (hid : card.id = c) : b.Labelled := by
  intro c' card' hcard'
  rw [Board.card?, hcards, IdMap.get?_insert] at hcard'
  split at hcard'
  · rename_i hc
    rw [← hc, ← Option.some.inj hcard']
    exact hid
  · simp [IdMap.get?_empty] at hcard'

namespace Engine

variable {e e' : Engine} {t t' : AbilityId} {a : Ability} {c : CardId}

/-- All triggers are limited. -/
def Limited (e : Engine) : Prop := ∀ a ∈ e.abilities, a.kind.isTriggered → a.Limited

theorem Limited.of_ability? (h : e.Limited) (hability : e.ability? t = some a)
    (htriggered : a.kind.isTriggered) : a.Limited :=
  h a (List.mem_of_getElem? hability) htriggered

theorem Limited.congr (h : e.Limited) (habilities : e'.abilities = e.abilities) : e'.Limited := by
  unfold Limited
  rw [habilities]
  exact h

theorem labelled_of_leaves (h : e.board.Labelled) (hleaves : e.Leaves e') : e'.board.Labelled := by
  intro c card hcard
  obtain ⟨card₀, hcard₀, hid, -⟩ := Board.card?_of_place? (hleaves.places c) hcard
  exact hid ▸ h c card₀ hcard₀

theorem labelled_of_discards (h : e.board.Labelled) (hdiscards : e.Discards c e') :
    e'.board.Labelled := by
  intro c' card hcard
  by_cases hc : c' = c
  · subst hc
    obtain ⟨id, owner, hbefore, hafter⟩ := hdiscards.moved
    obtain ⟨card₀, hcard₀, heq⟩ := Option.map_eq_some_iff.mp hbefore
    rw [Board.place?, hcard] at hafter
    rw [(Prod.mk.inj (Option.some.inj hafter)).1, ← (Prod.mk.inj heq).1]
    exact h c' card₀ hcard₀
  · obtain ⟨card₀, hcard₀, hid, -⟩ := Board.card?_of_place? (hdiscards.places c' hc) hcard
    exact hid ▸ h c' card₀ hcard₀

theorem labelled_of_mayDiscard (h : e.board.Labelled) (hends : e.MayDiscard c e') :
    e'.board.Labelled :=
  hends.elim (labelled_of_leaves h) (labelled_of_discards h)

/-! ## Triggers that stay metered -/

/-- The ability is a trigger that has a counter, or one whose card was discarded to where it cannot
be used. -/
def Metered (e : Engine) (t : AbilityId) : Prop :=
  ∃ a, e.ability? t = some a ∧ a.kind.isTriggered ∧ ((e.entry t).counter.isSome ∨
    e.board.cardIs a.source (·.location = .discardPile) ∧ a.listensIn .discardPile = false)

theorem Metered.leaves (h : e.Metered t) (hleaves : e.Leaves e') : e'.Metered t := by
  obtain ⟨a, hability, htriggered, hmetered⟩ := h
  refine ⟨a, (hleaves.ability? t).trans hability, htriggered, ?_⟩
  rw [hleaves.entries, Board.cardIs_of_place? (hleaves.places a.source) (· = .discardPile)]
  exact hmetered

theorem Metered.counting (h : e.Metered t) (t' : AbilityId) : (e.counting t').Metered t := by
  obtain ⟨a, hability, htriggered, hmetered⟩ := h
  refine ⟨a, hability, htriggered, hmetered.imp_left fun hcounter => ?_⟩
  rw [counter_counting]
  split
  · rwa [Option.isSome_map]
  · exact hcounter

/-- With a card that is discarded its triggers go that cannot be used there. -/
theorem Metered.discards (h : e.Metered t) (hdiscards : e.Discards c e') : e'.Metered t := by
  obtain ⟨a, hability, htriggered, hmetered⟩ := h
  refine ⟨a, (hdiscards.ability? t).trans hability, htriggered, ?_⟩
  by_cases hsource : a.source = c
  · subst hsource
    -- The card was being played, so it was not in the discard pile before.
    have hcounter : (e.entry t).counter.isSome := by
      refine hmetered.resolve_right fun haway => ?_
      obtain ⟨card, hcard, hlocation⟩ := (Option.any_eq_true _ _).mp haway.1
      have hplayed := hdiscards.played
      simp [Board.isPlayed, Board.cardIs, hcard, of_decide_eq_true hlocation] at hplayed
    have htends := hdiscards.entries t
    obtain ⟨u, hu⟩ := Option.isSome_iff_exists.mp hcounter
    generalize hentry' : e'.entry t = s' at htends
    cases htends with
    | keeps => exact .inl hcounter
    | @enters a' _ _ _ hnew =>
      refine .inl ?_
      rw [hnew.counter, hu]
      cases a'.limit <;> rfl
    | leaves haway =>
      refine .inr ⟨hdiscards.discarded, ?_⟩
      obtain ⟨card, hcard, hlocation⟩ := (Option.any_eq_true _ _).mp hdiscards.discarded
      unfold inPlace at haway
      rw [hdiscards.ability? t, hability] at haway
      simpa [Board.cardIs, hcard, of_decide_eq_true hlocation] using haway
  · rw [hdiscards.others t a hability hsource,
      Board.cardIs_of_place? (hdiscards.places _ hsource) (· = .discardPile)]
    exact hmetered

theorem Metered.mayDiscard (h : e.Metered t) (hends : e.MayDiscard c e') : e'.Metered t :=
  hends.elim h.leaves h.discards

/-! ## Triggers that come into a window -/

/-- What an event brings into a window is registered, and so its uses are counted. -/
theorem metered_of_collect (hproper : e.Proper) (hlimited : e.Limited) {event : GameEvent}
    {c : TriggerCandidate} (hc : c ∈ (e.collect event).pending) : e.Metered c.ability := by
  obtain ⟨a, hability, htriggered⟩ := isTriggered_of_collect hc
  refine ⟨a, hability, htriggered, .inl ?_⟩
  have hregistered : (e.entry c.ability).subscriptions ≠ [] := by
    obtain ⟨distance, -, hseat⟩ := List.mem_flatMap.mp hc
    obtain ⟨s, hs, hcandidate⟩ := List.mem_filterMap.mp (List.mem_filter.mp hseat).1
    obtain ⟨hof, hqualifies⟩ := (candidate?_eq_some_iff hs).mp hcandidate
    exact List.ne_nil_of_mem (e.registrar.mem_of.mpr ⟨hqualifies.inForce, hof.symm⟩)
  -- What is registered has its counter along with its subscriptions.
  rcases hproper c.ability with hempty | ⟨a', hability', hwhole⟩
  · exact absurd (congrArg Entry.subscriptions hempty) hregistered
  · obtain rfl := Option.some.inj (hability.symm.trans hability')
    rw [← Option.isSome_map (f := (·.limit)), hwhole.limit]
    exact (hlimited.of_ability? hability htriggered).limit

/-! ## Triggers that are offered -/

/-- An ability that is not used in the discard pile is not legal while its card is there. -/
theorem not_check_of_discarded (hlabelled : e.board.Labelled) {x : Activation}
    (hdiscarded : e.board.cardIs a.source (·.location = .discardPile))
    (hnot : a.listensIn .discardPile = false) : Legality.check e.board e.usage a x ≠ .ok () := by
  intro hlegal
  obtain ⟨card, hcard, hplace⟩ := Legality.isInPlace_of_check hlegal
  have hlocation : card.location = .discardPile := by
    simpa [Board.cardIs, hcard] using hdiscarded
  unfold Legality.isInPlace at hplace
  split at hplace
  · -- An action card is played from hand.
    rw [hlabelled a.source card hcard] at hplace
    simp [Board.isPlayable, Board.cardIs, hcard, hlocation] at hplace
  · rw [hlocation, hnot] at hplace
    simp at hplace

/-- A metered trigger that is legal has a use left. -/
theorem Metered.hasLeft (h : e.Metered t) (hlabelled : e.board.Labelled) (hlimited : e.Limited)
    (hcounters : ∀ u, (e.entry t).counter = some u →
      ∃ a, e.ability? t = some a ∧ a.limit = some u.limit)
    {activation : Activation} (hof : activation.ability = t)
    (hability : e.ability? t = some a)
    (hlegal : Legality.check e.board e.usage a activation = .ok ()) : e.HasLeft t := by
  obtain ⟨a', hability', htriggered, hmetered⟩ := h
  obtain rfl := Option.some.inj (hability.symm.trans hability')
  have hcounter := hmetered.resolve_right fun haway =>
    not_check_of_discarded hlabelled haway.1 haway.2 hlegal
  obtain ⟨u, hu⟩ := Option.isSome_iff_exists.mp hcounter
  obtain ⟨a', hability', hlimit⟩ := hcounters u hu
  obtain rfl := Option.some.inj (hability.symm.trans hability')
  have hunused : e.usage.isUsed activation.ability = false := by
    refine (Legality.usable_of_check hlegal).resolve_left ?_
    rw [(hlimited.of_ability? hability htriggered).stops]
    exact Bool.false_ne_true
  have hu' : e.usage.counters.get? t = some u := hu
  refine ⟨a, u, hability, htriggered, hu, ?_⟩
  rw [UsageTracker.isUsed, hof, hu'] at hunused
  simpa [AbilityUsage.isUsed, Ability.uses, hlimit] using hunused

/-! ## Windows that open -/

/-- What ends no period is heard without effect. -/
theorem hear_eq_self {s : Entry} {ability : Option Ability} (h : s.Proper ability)
    {event : EventName} (hevent : ∀ period : LimitPeriod, period.resetEvent ≠ event) :
    s.hear event = s := by
  -- A counter is reset by its own subscription alone, and that is to the end of its period.
  have hnot : (s.subscriptions.any fun s => s.event = event && s.listener = .resetUsage) =
      false := by
    rcases h with rfl | ⟨a, -, hwhole⟩
    · rfl
    · have hany : (s.subscriptions.any fun s => s.event = event && s.listener = .resetUsage) =
          a.subscriptions.any fun t => t.1 = event && t.2 = .resetUsage := by
        rw [← hwhole.subscriptions, List.any_map]
        rfl
      rw [hany]
      unfold Ability.subscriptions
      cases a.limit with
      | none => by_cases haction : a.isAction <;> simp [haction]
      | some limit => by_cases haction : a.isAction <;> simp [haction, hevent limit.period]
  unfold Entry.hear
  rw [hnot]
  exact if_neg Bool.false_ne_true

/-- What no period ends with leaves cards and entries alone. -/
theorem Hears.leaves {event : EventName} (h : e.Hears event e') (hproper : e.Proper)
    (hevent : ∀ period : LimitPeriod, period.resetEvent ≠ event) : e.Leaves e' :=
  ⟨h.abilities, fun t => (h.entries t).trans (hear_eq_self (hproper t) hevent), fun c => by
    rw [h.board]⟩

theorem Hears.proper {event : EventName} (h : e.Hears event e') (hproper : e.Proper) :
    e'.Proper := by
  intro t
  rw [h.entries, ability?_congr h.abilities]
  exact (hproper t).hear event

/-- An event opens its window, if there is anything to offer, once all have heard of it. -/
theorem openWindow_opens (event : GameEvent) (e : Engine) :
    ∃ e₁, (openWindow event).ends e = (.ok (), e₁.requeued event (e₁.collect event).pending) ∧
      e.Hears event.name e₁ ∧ e₁.queue = e.queue := by
  obtain ⟨e₁, hnotify, hends⟩ := openWindow_ends event e
  have hears := notifyEach_hears event.name e
  have hqueue := stays_of_chain (stays_notifyEach (e.registrar.listenersFor event.name) e)
  rw [hnotify] at hears hqueue
  exact ⟨e₁, hends, hears, hqueue⟩

end Engine

end Doomtown
