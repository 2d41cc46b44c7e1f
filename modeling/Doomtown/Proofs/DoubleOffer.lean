import Doomtown.Proofs.Registration
import Doomtown.Proofs.TriggerWindow
import Mathlib.Data.List.Perm.Basic

/-!
# How often an event offers an ability

The window of an event takes an ability in once for each subscription that triggers it, and an
ability that is registered has one for each of its triggers. Whether the event sets the ability off
is decided over all its triggers, though. So an ability that has two triggers of one name is in the
window twice, even if only one of them accepts the event (`Moment.offered_once_iff`).
-/

namespace Doomtown

namespace Ability

/-- How many of the triggers name an event, whatever else they ask for. -/
def naming (a : Ability) (event : EventName) : Nat := a.triggers.countP (·.1 = event)

/-- What accepts an event has a trigger of its name. -/
theorem naming_pos {a : Ability} {b : Board} {event : GameEvent} (h : a.accepts b event) :
    0 < a.naming event.name := by
  obtain ⟨t, ht, haccepts⟩ := List.any_eq_true.mp h
  simp only [Bool.and_eq_true] at haccepts
  exact List.countP_pos_iff.mpr ⟨t, ht, haccepts.1⟩

/-- Each trigger makes a subscription that triggers the ability, and nothing else does. -/
theorem count_subscriptions (a : Ability) (event : EventName) :
    a.subscriptions.count (event, Listener.trigger) = a.naming event := by
  have hmap : (a.triggers.map fun t => (t.1, Listener.trigger)).count (event, .trigger) =
      a.naming event := by
    rw [List.count_eq_countP, List.countP_map]
    refine List.countP_congr fun t _ => ?_
    simp
  unfold subscriptions
  rw [List.count_append, List.count_append, hmap]
  cases a.limit <;> cases a.isAction <;> simp

end Ability

namespace Engine

/-- An event sets off an ability: it is registered and triggered, it accepts the event, and there is
somebody to use it. -/
structure SetsOff (e : Engine) (event : GameEvent) (a : AbilityId) (ability : Ability) : Prop where
  found : e.ability? a = some ability
  registered : e.registrar.isRegistered a
  triggered : ability.kind.isTriggered
  accepts : ability.accepts e.board event
  responsible : ∃ p, ability.responsibleFor e.board event = some p

/-- The abilities in the window of an event, as often as they are in it. -/
def offered (e : Engine) (event : GameEvent) : List AbilityId :=
  (e.collect event).pending.map (·.ability)

variable {e : Engine} {event : GameEvent} {a : AbilityId} {ability : Ability}

/-- Listing by number of seats neither loses nor repeats anything. -/
theorem bySeats_perm {α : Type} (l : List α) (distance : α → Nat) (n : Nat) :
    ((List.range n).flatMap fun k => l.filter fun c => distance c = k).Perm
      (l.filter fun c => distance c < n) := by
  induction n with
  | zero => simp
  | succ n ih =>
    rw [List.range_succ, List.flatMap_append, List.flatMap_singleton]
    refine (ih.append_right _).trans ?_
    -- What is less than the next number is less or is it.
    have hsplit := List.filter_append_perm (fun c => decide (distance c < n))
      (l.filter fun c => distance c < n + 1)
    rw [List.filter_filter, List.filter_filter] at hsplit
    convert hsplit using 3
    all_goals
      funext c
      rw [Bool.eq_iff_iff]
      simp only [Bool.and_eq_true, Bool.not_eq_true', decide_eq_true_eq, decide_eq_false_iff_not]
      omega

/-- The window holds what the subscriptions bring. -/
theorem collect_perm (e : Engine) (event : GameEvent) :
    (e.collect event).pending.Perm
      ((e.registrar.listenersFor event.name).filterMap (e.candidate? event)) := by
  refine (bySeats_perm _ (fun c : TriggerCandidate => e.board.seatDistance c.player) _).trans ?_
  rw [List.filter_eq_self.mpr]
  intro c _
  have hle := e.board.seatDistance_le c.player
  simp only [decide_eq_true_eq]
  omega

/-- What is in the window is set off. -/
theorem setsOff_of_offered (h : a ∈ e.offered event) : ∃ ability, e.SetsOff event a ability := by
  obtain ⟨c, hc, rfl⟩ := List.mem_map.mp h
  obtain ⟨s, hs, hcandidate⟩ := List.mem_filterMap.mp ((e.collect_perm event).mem_iff.mp hc)
  obtain ⟨hability, hqualifies⟩ := (candidate?_eq_some_iff hs).mp hcandidate
  obtain ⟨ability, hfound, htriggered, haccepts, hplayer⟩ := hqualifies.ability
  have hregistered : e.registrar.isRegistered c.ability :=
    (Registrar.isRegistered_iff_exists _ _).mpr ⟨s, hqualifies.inForce, hability.symm⟩
  refine ⟨ability, hability ▸ hfound, hregistered, htriggered, ?_, _, hplayer⟩
  simpa [Ability.accepts, List.any_eq_true] using haccepts

/-- A subscription brings an ability that is set off if it is the ability's and triggers it. -/
theorem SetsOff.brings_iff (h : e.SetsOff event a ability) {s : Subscription}
    (hs : s ∈ e.registrar.listenersFor event.name) :
    (e.candidate? event s).map (·.ability) = some a ↔ s.ability = a ∧ s.listener = .trigger := by
  rw [Option.map_eq_some_iff]
  constructor
  · rintro ⟨c, hc, rfl⟩
    obtain ⟨hability, hqualifies⟩ := (candidate?_eq_some_iff hs).mp hc
    exact ⟨hability.symm, hqualifies.listener⟩
  · rintro ⟨rfl, hlistener⟩
    obtain ⟨hforce, hname⟩ := List.mem_filter.mp hs
    obtain ⟨p, hp⟩ := h.responsible
    have haccepts : ∃ t ∈ ability.triggers, t.1 = event.name ∧ t.2 e.board event := by
      simpa [Ability.accepts, List.any_eq_true] using h.accepts
    refine ⟨⟨s.ability, p⟩, (candidate?_eq_some_iff hs).mpr ⟨rfl, hforce, of_decide_eq_true hname,
      hlistener, ability, h.found, h.triggered, haccepts, hp⟩, rfl⟩

/-- An ability that is set off is in the window as often as its triggers name the event. -/
theorem SetsOff.count_offered (h : e.SetsOff event a ability) (hproper : e.Proper) :
    (e.offered event).count a = ability.naming event.name := by
  have hwhole : (e.entry a).Whole ability := by
    rcases hproper a with hempty | ⟨ability', hability', hwhole⟩
    · exact absurd (congrArg Entry.subscriptions hempty)
        ((Registrar.isRegistered_iff _ _).mp h.registered)
    · obtain rfl := Option.some.inj (h.found.symm.trans hability')
      exact hwhole
  -- The order of the seats does not matter for how often an ability is listed.
  have hmap : (e.offered event).Perm ((e.registrar.listenersFor event.name).filterMap fun s =>
      (e.candidate? event s).map (·.ability)) := by
    rw [← List.map_filterMap]
    exact (e.collect_perm event).map _
  calc (e.offered event).count a
      = (e.registrar.listenersFor event.name).countP fun s =>
          (e.candidate? event s).map (·.ability) == some a := by
        rw [hmap.count_eq, List.count_filterMap]
    _ = (e.registrar.listenersFor event.name).countP fun s =>
          s.ability = a && s.listener = .trigger := by
        refine List.countP_congr fun s hs => ?_
        simpa using h.brings_iff hs
    _ = (e.registrar.of a).countP fun s => (s.event, s.listener) == (event.name, .trigger) := by
        unfold Registrar.listenersFor
        rw [Registrar.of_eq_filter, List.countP_filter, List.countP_filter]
        refine List.countP_congr fun s _ => ?_
        simp
        tauto
    _ = ability.naming event.name := by
        rw [← ability.count_subscriptions, ← hwhole.subscriptions, List.count_eq_countP,
          List.countP_map]
        rfl

end Engine

namespace Moment

variable {m : Moment} {d : Deed} {event : GameEvent}

/-- What becomes of the window of an event that fires by a deed. -/
structure OffersAll (m : Moment) (d : Deed) (event : GameEvent) : Prop where
  /-- The window waits, and in a steady run that leaves nothing waiting all that it holds is
  considered, each as often as the window holds it. -/
  considered : (m.after d).engine.offered event ≠ [] →
    ∃ i, ⟨i, .window ((m.after d).engine.collect event)⟩ ∈ (m.after d).engine.queue.pending ∧
      ∀ ds, Along Steady (m.after d) ds → ((m.after d).run ds).engine.queue.pending = [] →
        (considered i (m.after d) ds).map (·.ability) = (m.after d).engine.offered event
  /-- It holds what the event sets off, and nothing else. -/
  setsOff : ∀ a, a ∈ (m.after d).engine.offered event ↔
    ∃ ability, (m.after d).engine.SetsOff event a ability
  /-- It holds an ability as often as the ability's triggers name the event. -/
  count : ∀ a ability, (m.after d).engine.SetsOff event a ability →
    ((m.after d).engine.offered event).count a = ability.naming event.name

theorem offersAll (hreached : m.Reached) (hfires : m.fires? d = some event) :
    m.OffersAll d event := by
  have hproper := (hreached.after d).proper
  refine ⟨fun hoffered => ?_, fun a => ⟨Engine.setsOff_of_offered, ?_⟩,
    fun a ability hsets => hsets.count_offered hproper⟩
  · have hpending : ((m.after d).engine.collect event).pending ≠ [] := by
      unfold Engine.offered at hoffered
      simpa using hoffered
    obtain ⟨i, hholds⟩ := holds_after_fires hfires hpending
    refine ⟨i, List.mem_append_left _ (hholds.waits hpending), fun ds hsteady hnone => ?_⟩
    obtain ⟨left, hend, hlisted⟩ := hholds.run (hreached.after d) hsteady
    -- What the window had left to offer would wait with it.
    have hleft : left = [] := by
      by_contra hsome
      have hwaits : (⟨_, .window ⟨event, left⟩⟩ : Step) ∈
          ((m.after d).run ds).engine.queue.pending := List.mem_append_left _ (hend.waits hsome)
      rw [hnone] at hwaits
      simp at hwaits
    rw [hleft, List.append_nil] at hlisted
    unfold Engine.offered
    rw [hlisted]
  · rintro ⟨ability, hsets⟩
    have hcount := hsets.count_offered hproper
    exact List.count_pos_iff.mp (hcount ▸ Ability.naming_pos hsets.accepts)

/-- An event that fires offers an ability as often as the ability's triggers name it. So it offers
each ability once at most if and only if no ability that it sets off has two triggers of its
name. -/
theorem offered_once_iff (hreached : m.Reached) (hfires : m.fires? d = some event) :
    m.OffersAll d event ∧
      (((m.after d).engine.offered event).Nodup ↔
        ∀ a ability, (m.after d).engine.SetsOff event a ability →
          ability.naming event.name = 1) := by
  have hoffers := offersAll hreached hfires
  refine ⟨hoffers, List.nodup_iff_count_eq_one.trans
    ⟨fun h a ability hsets => ?_, fun h a ha => ?_⟩⟩
  · rw [← hoffers.count a ability hsets]
    exact h a ((hoffers.setsOff a).mpr ⟨ability, hsets⟩)
  · obtain ⟨ability, hsets⟩ := (hoffers.setsOff a).mp ha
    rw [hoffers.count a ability hsets]
    exact h a ability hsets

/-- The deed has an ability with two triggers for the beginning of a round, and a round is about to
begin. -/
def twoTriggers : Moment :=
  (start deedInPlay).run [
    .call (.attach ⟨3⟩ {
      kind := .forced
      triggers := [(.beginRound, fun _ _ => true), (.beginRound, fun _ _ => true)]
      handler := some fun _ => .done }),
    .call (.order .beginRound),
    .turn]

theorem offered_once_iff_twoTriggers :
    twoTriggers.Reached ∧ twoTriggers.fires? .go = some ⟨1, .beginRound 1⟩ ∧
      (twoTriggers.after .go).engine.offered ⟨1, .beginRound 1⟩ = [⟨0⟩, ⟨0⟩] ∧
      twoTriggers.OffersAll .go ⟨1, .beginRound 1⟩ ∧
      (((twoTriggers.after .go).engine.offered ⟨1, .beginRound 1⟩).Nodup ↔
        ∀ a ability, (twoTriggers.after .go).engine.SetsOff ⟨1, .beginRound 1⟩ a ability →
          ability.naming .beginRound = 1) := by
  have hreached : twoTriggers.Reached := ⟨deedInPlay, _, rfl⟩
  have hfires : twoTriggers.fires? .go = some ⟨1, .beginRound 1⟩ := by decide +kernel
  exact ⟨hreached, hfires, by decide +kernel, offered_once_iff hreached hfires⟩

/-- An ability is not always offered once at most: here it is in the window twice. -/
theorem not_offered_once_twoTriggers :
    ¬∀ (m : Moment) (d : Deed) (event : GameEvent), m.Reached → m.fires? d = some event →
      ((m.after d).engine.offered event).Nodup := by
  intro h
  have hoffered : (twoTriggers.after .go).engine.offered ⟨1, .beginRound 1⟩ = [⟨0⟩, ⟨0⟩] := by
    decide +kernel
  have hnodup := h twoTriggers .go ⟨1, .beginRound 1⟩ ⟨deedInPlay, _, rfl⟩ (by decide +kernel)
  rw [hoffered] at hnodup
  simp at hnodup

end Moment

end Doomtown
