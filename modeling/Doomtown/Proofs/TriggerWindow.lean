import Doomtown.Engine.Match
import Doomtown.Proofs.Moment
import Doomtown.Proofs.Subscription
import Mathlib.Data.List.Basic

/-!
# What a trigger window holds

An event's window has one candidate for each subscription that triggers an ability by it, and no
others. They stand in the order of the seats, from the active player on, and those that no seat
tells apart stand in the order in which they subscribed. `Engine.Collects` says so of one engine and
event, and `Engine.collects_enrolled` proves it for every engine, whatever the history of its
subscriptions.

Seats are counted from the active player's. If the active player has none, no player sits closer
than another, and the window is in the order of subscription throughout
(`Engine.own_not_first_strangerActive`).
-/

namespace Doomtown

/-! ## Seats -/

namespace Board

/-- A player sits so many seats after the active player, going round. -/
def SitsAfter (b : Board) (p : PlayerId) (k : Nat) : Prop :=
  ∃ active seat, b.seat? b.activePlayer = some active ∧ b.seat? p = some seat ∧
    k < b.players.length ∧ (active + k) % b.players.length = seat

/-- Going round from the active player's seat, one player is met and another only later or not at
all. -/
def Closer (b : Board) (p q : PlayerId) : Prop :=
  ∃ k, b.SitsAfter p k ∧ ∀ k', b.SitsAfter q k' → k < k'

theorem seat?_lt {b : Board} {p : PlayerId} {seat : Nat} (h : b.seat? p = some seat) :
    seat < b.players.length := by
  obtain ⟨hlt, -⟩ := List.findIdx?_eq_some_iff_getElem.mp h
  exact hlt

/-- The distance by which candidates are ordered is a number of seats. -/
theorem sitsAfter_iff {b : Board} {p : PlayerId} {k : Nat} :
    b.SitsAfter p k ↔ b.seatDistance p = k ∧ k < max b.players.length 1 := by
  unfold SitsAfter seatDistance
  cases hactive : b.seat? b.activePlayer with
  | none =>
    simp only [reduceCtorEq, false_and, exists_false, false_iff]
    omega
  | some active =>
    have hactive_lt := seat?_lt hactive
    cases hseat : b.seat? p with
    | none =>
      simp only [reduceCtorEq, false_and, and_false, exists_false, false_iff]
      omega
    | some seat =>
      have hseat_lt := seat?_lt hseat
      have hmax : max b.players.length 1 = b.players.length := by omega
      rw [hmax]
      constructor
      · rintro ⟨active', seat', hactive', hseat', hk, hmod⟩
        obtain rfl := Option.some.inj hactive'
        obtain rfl := Option.some.inj hseat'
        refine ⟨?_, hk⟩
        show (seat + b.players.length - active) % b.players.length = k
        -- Going `k` seats on passes the last seat once or not at all.
        rcases Nat.lt_or_ge (active + k) b.players.length with hlow | hhigh
        · rw [Nat.mod_eq_of_lt hlow] at hmod
          have hsub : seat + b.players.length - active = k + b.players.length := by omega
          rw [hsub, Nat.add_mod_right, Nat.mod_eq_of_lt hk]
        · rw [Nat.mod_eq_sub_mod hhigh, Nat.mod_eq_of_lt (by omega)] at hmod
          have hsub : seat + b.players.length - active = k := by omega
          rw [hsub, Nat.mod_eq_of_lt hk]
      · rintro ⟨hdistance, hk⟩
        change (seat + b.players.length - active) % b.players.length = k at hdistance
        refine ⟨active, seat, rfl, rfl, hk, ?_⟩
        rw [← hdistance, Nat.add_mod_mod]
        have hround : active + (seat + b.players.length - active) = seat + b.players.length := by
          omega
        rw [hround, Nat.add_mod_right, Nat.mod_eq_of_lt hseat_lt]

theorem seatDistance_le (b : Board) (p : PlayerId) :
    b.seatDistance p ≤ max b.players.length 1 := by
  unfold seatDistance
  dsimp only
  split
  · exact Nat.le_of_lt (Nat.mod_lt _ (by omega))
  · exact Nat.le_refl _

/-- One player sits closer than another if and only if the distance is less. -/
theorem closer_iff {b : Board} {p q : PlayerId} :
    b.Closer p q ↔ b.seatDistance p < b.seatDistance q := by
  have hp := b.seatDistance_le p
  have hq := b.seatDistance_le q
  unfold Closer
  simp only [sitsAfter_iff]
  constructor
  · rintro ⟨k, ⟨rfl, hk⟩, hfar⟩
    rcases Nat.lt_or_ge (b.seatDistance q) (max b.players.length 1) with hseated | hnone
    · exact hfar _ ⟨rfl, hseated⟩
    · omega
  · intro hlt
    exact ⟨b.seatDistance p, ⟨rfl, by omega⟩, fun k' hk' => by omega⟩

/-- The active player has a seat, and sits closest. -/
theorem closer_activePlayer {b : Board} {p : PlayerId} (hactive : b.seat? b.activePlayer ≠ none)
    (hp : b.seat? p ≠ b.seat? b.activePlayer) : b.Closer b.activePlayer p := by
  obtain ⟨active, hactive⟩ := Option.ne_none_iff_exists'.mp hactive
  have hlt := seat?_lt hactive
  refine ⟨0, ⟨active, active, hactive, hactive, by omega, ?_⟩, ?_⟩
  · exact Nat.mod_eq_of_lt hlt
  · rintro k' ⟨active', seat, hactive', hseat, -, hmod⟩
    obtain rfl := Option.some.inj (hactive.symm.trans hactive')
    rcases Nat.eq_zero_or_pos k' with rfl | hpos
    · rw [Nat.add_zero, Nat.mod_eq_of_lt hlt] at hmod
      exact absurd (by rw [hseat, hactive, hmod]) hp
    · exact hpos

/-- Players with one seat are one player. -/
theorem eq_of_seat? {b : Board} {p q : PlayerId} {seat : Nat} (hp : b.seat? p = some seat)
    (hq : b.seat? q = some seat) : p = q := by
  obtain ⟨_, hidp, -⟩ := List.findIdx?_eq_some_iff_getElem.mp hp
  obtain ⟨_, hidq, -⟩ := List.findIdx?_eq_some_iff_getElem.mp hq
  exact (of_decide_eq_true hidp).symm.trans (of_decide_eq_true hidq)

/-- With the active player seated, everybody who has a seat is met going round. -/
theorem exists_sitsAfter {b : Board} {p : PlayerId} (hactive : b.seat? b.activePlayer ≠ none)
    (hp : b.seat? p ≠ none) : ∃ k, b.SitsAfter p k := by
  obtain ⟨active, hactive⟩ := Option.ne_none_iff_exists'.mp hactive
  obtain ⟨seat, hp⟩ := Option.ne_none_iff_exists'.mp hp
  have hlt := seat?_lt hactive
  refine ⟨b.seatDistance p, sitsAfter_iff.mpr ⟨rfl, ?_⟩⟩
  unfold seatDistance
  rw [hactive, hp]
  exact Nat.mod_lt _ (by omega)

end Board

/-! ## Windows -/

namespace Engine

/-- What a subscription must be to bring a candidate into the window of an event, and who the
candidate's player is. -/
structure Qualifies (e : Engine) (event : GameEvent) (s : Subscription) (p : PlayerId) : Prop where
  inForce : s ∈ e.registrar.subscriptions
  name : s.event = event.name
  listener : s.listener = .trigger
  ability : ∃ ability, e.ability? s.ability = some ability ∧ ability.kind.isTriggered ∧
    (∃ t ∈ ability.triggers, t.1 = event.name ∧ t.2 e.board event) ∧
    ability.responsibleFor e.board event = some p

/-- The window of an event holds the candidates of a list of subscriptions with their players: of
all that qualify, each once, and in order. -/
structure Collects (e : Engine) (event : GameEvent) (listed : List (Subscription × PlayerId)) :
    Prop where
  window : e.collect event = ⟨event, listed.map fun t => ⟨t.1.ability, t.2⟩⟩
  exact : ∀ s p, (s, p) ∈ listed ↔ e.Qualifies event s p
  /-- One who sits closer comes first, and otherwise the one that subscribed first. -/
  ordered : listed.Pairwise fun t u => e.board.Closer t.2 u.2 ∨
    ¬e.board.Closer u.2 t.2 ∧ t.1.id.number < u.1.id.number
  /-- The active player's own come first, if the active player has a seat. -/
  own : e.board.seat? e.board.activePlayer ≠ none →
    listed.Pairwise fun t u => u.2 = e.board.activePlayer → t.2 = e.board.activePlayer
  /-- Players without a seat come last. -/
  seated : listed.Pairwise fun t u => e.board.seat? e.board.activePlayer ≠ none →
    e.board.seat? u.2 ≠ none → e.board.seat? t.2 ≠ none

variable {e : Engine} {event : GameEvent} {s : Subscription} {p : PlayerId}

/-- A subscription brings its ability's candidate if it qualifies, and nothing otherwise. -/
theorem candidate?_eq_some_iff (hs : s ∈ e.registrar.listenersFor event.name)
    {c : TriggerCandidate} :
    e.candidate? event s = some c ↔ c.ability = s.ability ∧ e.Qualifies event s c.player := by
  obtain ⟨hforce, hname⟩ := List.mem_filter.mp hs
  have hname : s.event = event.name := of_decide_eq_true hname
  unfold candidate?
  cases hability : e.ability? s.ability with
  | none =>
    refine ⟨fun h => by simp at h, fun ⟨_, hqualifies⟩ => ?_⟩
    obtain ⟨ability, hsome, -⟩ := hqualifies.ability
    rw [hability] at hsome
    simp at hsome
  | some ability =>
    constructor
    · intro h
      by_cases htest : (s.listener = .trigger && ability.kind.isTriggered &&
          ability.accepts e.board event) = true
      · simp only [Option.bind_eq_bind, Option.bind_some, htest, if_true] at h
        obtain ⟨player, hplayer, hc⟩ := Option.bind_eq_some_iff.mp h
        obtain rfl := Option.some.inj hc
        simp only [Bool.and_eq_true, decide_eq_true_eq] at htest
        obtain ⟨⟨hlistener, htriggered⟩, haccepts⟩ := htest
        have haccepts : ∃ t ∈ ability.triggers, t.1 = event.name ∧ t.2 e.board event := by
          simpa [Ability.accepts, List.any_eq_true] using haccepts
        exact ⟨rfl, hforce, hname, hlistener, ability, hability, htriggered, haccepts, hplayer⟩
      · simp only [Option.bind_eq_bind, Option.bind_some, if_neg htest] at h
        simp at h
    · rintro ⟨hc, hqualifies⟩
      obtain ⟨ability', hsome, htriggered, haccepts, hplayer⟩ := hqualifies.ability
      obtain rfl := Option.some.inj (hability.symm.trans hsome)
      have haccepts : ability.accepts e.board event := by
        simpa [Ability.accepts, List.any_eq_true] using haccepts
      simp only [Option.bind_eq_bind, Option.bind_some, hqualifies.listener, decide_true,
        htriggered, haccepts, Bool.and_self, if_true, hplayer]
      rw [← hc]

/-! ## The order of candidates -/

/-- Of what is listed by number of seats, that of each number keeps its order. -/
theorem pairwise_bySeats {α : Type} {R : α → α → Prop} {l : List α} (hl : l.Pairwise R)
    (distance : α → Nat) (n : Nat) :
    ((List.range n).flatMap fun k => l.filter fun a => distance a = k).Pairwise fun a b =>
      distance a < distance b ∨ distance a = distance b ∧ R a b := by
  refine List.pairwise_flatMap.mpr ⟨fun k _ => ?_, ?_⟩
  · -- Within one number the order is the old one.
    refine (List.Pairwise.and_mem.mp (hl.filter _)).imp ?_
    rintro a b ⟨ha, hb, hab⟩
    have ha : distance a = k := of_decide_eq_true (List.mem_filter.mp ha).2
    have hb : distance b = k := of_decide_eq_true (List.mem_filter.mp hb).2
    exact .inr ⟨ha.trans hb.symm, hab⟩
  · refine List.pairwise_lt_range.imp fun {k k'} hlt a ha b hb => .inl ?_
    have ha : distance a = k := of_decide_eq_true (List.mem_filter.mp ha).2
    have hb : distance b = k' := of_decide_eq_true (List.mem_filter.mp hb).2
    omega

theorem mem_bySeats {α : Type} {l : List α} {distance : α → Nat} {n : Nat}
    (h : ∀ a, distance a < n) {a : α} :
    (a ∈ (List.range n).flatMap fun k => l.filter fun a => distance a = k) ↔ a ∈ l := by
  simp [List.mem_flatMap, h a]

/-- The subscriptions that bring candidates, with the candidates' players, oldest first. -/
def enrolled (e : Engine) (event : GameEvent) : List (Subscription × PlayerId) :=
  (e.registrar.listenersFor event.name).filterMap fun s =>
    (e.candidate? event s).map fun c => (s, c.player)

theorem mem_enrolled : (s, p) ∈ e.enrolled event ↔ e.Qualifies event s p := by
  unfold enrolled
  rw [List.mem_filterMap]
  constructor
  · rintro ⟨s', hs', h⟩
    obtain ⟨c, hc, heq⟩ := Option.map_eq_some_iff.mp h
    obtain ⟨rfl, rfl⟩ := Prod.mk.inj heq
    exact ((candidate?_eq_some_iff hs').mp hc).2
  · intro h
    have hs : s ∈ e.registrar.listenersFor event.name :=
      List.mem_filter.mpr ⟨h.inForce, by simp [h.name]⟩
    refine ⟨s, hs, ?_⟩
    rw [(candidate?_eq_some_iff (c := ⟨s.ability, p⟩) hs).mpr ⟨rfl, h⟩]
    rfl

/-- They are the candidates, each with the subscription that brought it. -/
theorem map_enrolled (e : Engine) (event : GameEvent) :
    (e.enrolled event).map (fun t => (⟨t.1.ability, t.2⟩ : TriggerCandidate)) =
      (e.registrar.listenersFor event.name).filterMap (e.candidate? event) := by
  unfold enrolled
  rw [List.map_filterMap]
  refine List.filterMap_congr fun s hs => ?_
  rw [Option.map_map]
  cases hc : e.candidate? event s with
  | none => rfl
  | some c =>
    obtain ⟨ability, player⟩ := c
    obtain ⟨rfl, -⟩ := (candidate?_eq_some_iff hs).mp hc
    rfl

theorem enrolled_ascends (e : Engine) (event : GameEvent) :
    (e.enrolled event).Pairwise fun t u => t.1.id.number < u.1.id.number := by
  unfold enrolled
  rw [List.pairwise_filterMap]
  refine (e.registrar.subscriptions_ascending.filter _).imp fun {s s'} hlt t ht t' ht' => ?_
  obtain ⟨c, -, rfl⟩ := Option.map_eq_some_iff.mp ht
  obtain ⟨c', -, rfl⟩ := Option.map_eq_some_iff.mp ht'
  exact hlt

/-- Listing seat by seat what is listed oldest first makes the window of an event. -/
theorem exists_collects (e : Engine) (event : GameEvent) :
    ∃ listed, e.Collects event listed := by
  let distance : Subscription × PlayerId → Nat := fun t => e.board.seatDistance t.2
  let n := max e.board.players.length 1 + 1
  let listed := (List.range n).flatMap fun k => (e.enrolled event).filter fun t => distance t = k
  have hbound : ∀ t, distance t < n := fun t => Nat.lt_succ_of_le (e.board.seatDistance_le t.2)
  have hordered : listed.Pairwise fun t u => e.board.Closer t.2 u.2 ∨
      ¬e.board.Closer u.2 t.2 ∧ t.1.id.number < u.1.id.number := by
    refine (pairwise_bySeats (enrolled_ascends e event) distance n).imp fun {t u} htu => ?_
    rw [Board.closer_iff, Board.closer_iff]
    change e.board.seatDistance t.2 < e.board.seatDistance u.2 ∨
      e.board.seatDistance t.2 = e.board.seatDistance u.2 ∧ _ at htu
    rcases htu with hlt | ⟨heq, hid⟩
    · exact .inl hlt
    · exact .inr ⟨by omega, hid⟩
  refine ⟨listed, ?_, fun s p => (mem_bySeats hbound).trans mem_enrolled, hordered, ?_, ?_⟩
  · unfold collect bySeat
    rw [← map_enrolled, List.map_flatMap]
    refine congrArg (TriggerWindow.mk event) (List.flatMap_congr fun k _ => ?_)
    rw [List.filter_map]
    rfl
  · intro hactive
    refine hordered.imp fun {t u} htu hu => ?_
    by_contra ht
    obtain ⟨active, hseat⟩ := Option.ne_none_iff_exists'.mp hactive
    -- Anybody else sits farther from the active player than the active player.
    have hcloser : e.board.Closer u.2 t.2 := by
      rw [hu]
      refine Board.closer_activePlayer hactive fun heq => ht ?_
      exact Board.eq_of_seat? (heq.trans hseat) hseat
    rcases htu with hless | ⟨hnot, -⟩
    · rw [Board.closer_iff] at hless hcloser
      omega
    · exact hnot hcloser
  · refine hordered.imp fun {t u} htu hactive hu ht => ?_
    obtain ⟨k, hk⟩ := Board.exists_sitsAfter hactive hu
    have hnone : ∀ k, ¬e.board.SitsAfter t.2 k := by
      rintro k ⟨_, seat, -, hseat, -⟩
      rw [ht] at hseat
      simp at hseat
    rcases htu with ⟨k, hk, -⟩ | ⟨hnot, -⟩
    · exact hnone k hk
    · exact hnot ⟨k, hk, fun k' hk' => absurd hk' (hnone k')⟩

/-- The window of an event holds what it should and in order, whatever the engine and whatever the
history of its subscriptions. -/
theorem collects_enrolled (e : Engine) (history : List Enrolment) (event : GameEvent) :
    ∃ listed, ({ e with registrar := .ofHistory history } : Engine).Collects event listed :=
  exists_collects _ event

end Engine

/-! ## An active player without a seat -/

/-- A deed has two triggered abilities, of which the second falls to a player of a number that
nobody at the table has. That player is made the active one. -/
def Moment.strangerActive : Moment :=
  (start deedInPlay).run [
    .call (.attach ⟨3⟩ {
      kind := .forced
      triggers := [(.beginRound, fun _ _ => true)]
      handler := some fun _ => .done }),
    .call (.attach ⟨3⟩ {
      kind := .forced
      triggers := [(.beginRound, fun _ _ => true)]
      responsible := some fun _ _ => some ⟨7⟩
      handler := some fun _ => .done }),
    .call (.order (.setActivePlayer ⟨7⟩))]

/-- The active player's own candidates do not always come first: here the other's does, for it
subscribed first, and the active player has no seat from which to count. -/
theorem Engine.own_not_first_strangerActive :
    ¬∀ (e : Engine) (event : GameEvent), (e.collect event).pending.Pairwise fun c d =>
      d.player = e.board.activePlayer → c.player = e.board.activePlayer := by
  intro h
  have hwindow : (Moment.strangerActive.engine.collect ⟨1, .beginRound 1⟩).pending =
      [⟨⟨0⟩, ⟨0⟩⟩, ⟨⟨1⟩, ⟨7⟩⟩] := by decide +kernel
  have hactive : Moment.strangerActive.engine.board.activePlayer = ⟨7⟩ := by decide +kernel
  have hfirst := h Moment.strangerActive.engine ⟨1, .beginRound 1⟩
  rw [hwindow, hactive] at hfirst
  simp at hfirst

end Doomtown
