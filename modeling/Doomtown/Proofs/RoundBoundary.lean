import Doomtown.Proofs.Retractable

/-!
# A round boundary closes retraction

When a round begins, what was started before it can be retracted no more. The stacks of actions that
are registered are dropped when the event fires. An action with a stack that is not registered is
one that was in place when it was started and is not any more, so its stack is gone with its
registration, or it is that of an action card in hand. Then it costs to play the card, which cannot
be taken back, and it can be retracted neither before nor after the boundary.

`Moment.Grounded` is the invariant that leads up to the boundary, and `Moment.Closes` the one that
leads on from it to `Moment.retracts_after_round`.
-/

namespace Doomtown

open Play

/-- An action card is played to use its own abilities. -/
theorem Design.playAction_of_build {design : Design} {card : Card} {a : Ability}
    (h : design.build card = .ok a) (hcard : a.cardAbility) (htype : a.sourceType = .action) :
    .playAction ∈ a.costs := by
  unfold build at h
  dsimp only at h
  split at h
  · simp at h
  · split at h
    · simp at h
    · obtain rfl := Except.ok.inj h
      simp_all [costsOn]

theorem Design.sourceType_of_build {design : Design} {card : Card} {a : Ability}
    (h : design.build card = .ok a) : a.sourceType = card.type := by
  unfold build at h
  dsimp only at h
  split at h
  · simp at h
  · split at h
    · simp at h
    · rw [← Except.ok.inj h]

/-- Whether there is a cost that cannot be taken back once it is paid. -/
def Ability.Commits (a : Ability) : Prop := ∃ cost ∈ a.costs, cost.isReversible = false

namespace Engine

/-- Abilities were made for cards of the types that their cards have. -/
def Typed (e : Engine) : Prop := ∀ a ability card, e.ability? a = some ability →
  e.board.card? ability.source = some card → ability.sourceType = card.type

/-- The stack of an action that is registered is dropped when a round begins. -/
theorem Proper.clearsOn {e : Engine} {a : AbilityId} {ability : Ability} (h : e.Proper)
    (hability : e.ability? a = some ability) (haction : ability.isAction)
    (hregistered : e.registrar.isRegistered a) : e.clearsOn .beginRound a := by
  rw [Registrar.isRegistered_iff] at hregistered
  rcases h a with hempty | ⟨ability', hability', hwhole⟩
  · exact absurd (congrArg Entry.subscriptions hempty) hregistered
  · obtain rfl := Option.some.inj (hability.symm.trans hability')
    have hmem : (EventName.beginRound, Listener.clearActivations) ∈
        (e.registrar.of a).map fun s => (s.event, s.listener) := by
      have hsubscriptions := hwhole.subscriptions
      change (e.registrar.of a).map _ = _ at hsubscriptions
      rw [hsubscriptions]
      simp [Ability.subscriptions, haction]
    obtain ⟨s, hs, heq⟩ := List.mem_map.mp hmem
    obtain ⟨hevent, hlistener⟩ := Prod.mk.inj heq
    exact List.any_eq_true.mpr ⟨s, hs, by simp [hevent, hlistener]⟩

end Engine

namespace Moment

variable {m : Moment} {d : Deed} {a : AbilityId} {x : ActivationId} {p : PlayerId} {n : Nat}
  {first second : String} {ghostRock : Nat} {event : GameEvent}

/-! ## Up to the boundary -/

/-- A deed sets up cards of the two players, of which each keeps its type, and gives no order to
move cards or register abilities by hand. -/
structure Regular (m : Moment) (d : Deed) : Prop where
  setsUp : m.SetsUp d
  orderly : m.Orderly d
  types : ∀ f, d = .call (.board f) → m.engine.board.SameTypes (f m.engine.board)

theorem Regular.sameTypes (h : m.Regular d) :
    m.engine.board.SameTypes (m.after d).engine.board := by
  have hsame : (m.after d).engine.board = m.engine.board →
      m.engine.board.SameTypes (m.after d).engine.board := fun heq => heq ▸ .refl _
  cases m.curates d with
  | sheds hsheds => exact hsheds.types
  | starts a p _ _ _ _ hafter => exact hsame (by rw [hafter]; rfl)
  | retracts a p _ _ _ _ hpay hafter => exact hafter ▸ Payment.sameTypes_of_unpayAll hpay
  | unregisters a _ hafter => exact hsame (by rw [hafter])
  | clears a hd hafter => exact hsame (by rw [hafter]; rfl)
  | attaches c design hd hafter =>
    rcases Engine.addAbility_attaches c design m.engine with hstays | ⟨card, ability, hattaches⟩
    · exact hsame (by rw [hafter, hstays])
    · exact hsame (by rw [hafter, hattaches.board])
  | sets f hd hafter => exact hafter ▸ h.types f hd
  | offers i w hstarts => exact hsame (after_window_frame hstarts).1
  | answers i view p x alternatives hstarts hafter =>
    obtain ⟨activations, q, hafter, -⟩ := hafter
    exact hsame (by rw [hafter])
  | fires event hfires => exact hsame (stack_after_fires hfires ⟨0⟩).2.2

/-- What holds of a game in which no deed is irregular: an ability with activations that can be
retracted is an action, and it is registered or has a cost that cannot be taken back. -/
structure Grounded (m : Moment) : Prop where
  reached : m.Reached
  upkept : m.engine.Upkept
  typed : m.engine.Typed
  held : ∀ a, m.engine.stack a ≠ [] → ∃ ability, m.engine.ability? a = some ability ∧
    ability.isAction ∧ (m.engine.registrar.isRegistered a ∨ ability.Commits)

theorem Grounded.typed_after (h : m.Grounded) (hregular : m.Regular d) :
    (m.after d).engine.Typed := by
  have hsame : ∀ a ability card, m.engine.ability? a = some ability →
      (m.after d).engine.board.card? ability.source = some card →
      ability.sourceType = card.type := by
    intro a ability card hability hcard
    obtain ⟨before, hbefore⟩ := Option.isSome_iff_exists.mp (h.upkept.sources a ability hability)
    obtain ⟨card', hcard', htype⟩ := hregular.sameTypes ability.source before hbefore
    obtain rfl := Option.some.inj (hcard'.symm.trans hcard)
    exact (h.typed a ability before hability hbefore).trans htype.symm
  intro a ability card hability hcard
  rcases (h.reached.sound.alters d).abilities with habilities | ⟨c, design, card₀, added, hattaches⟩
  · rw [abilities_countedBy] at habilities
    exact hsame a ability card ((Engine.ability?_congr habilities a).symm.trans hability) hcard
  · rw [hattaches.ability?] at hability
    split at hability
    · -- The ability that is attached has the type of the card it was built for.
      obtain rfl := Option.some.inj hability
      have hfound := hattaches.found
      rw [board_countedBy] at hfound
      have hsource : added.source = c :=
        (Design.source_of_build hattaches.built).trans (h.upkept.tidy.ids c card₀ hfound)
      rw [hattaches.board, board_countedBy, hsource, hfound] at hcard
      obtain rfl := Option.some.inj hcard
      exact Design.sourceType_of_build hattaches.built
    · rw [Engine.ability?_congr (m.abilities_countedBy _)] at hability
      exact hsame a ability card hability hcard

/-- An action that is started is registered or has a cost that cannot be taken back. -/
theorem Grounded.held_of_check (h : m.Grounded) {ability : Ability} {activation : Activation}
    (hability : m.engine.ability? a = some ability)
    (hlegal : Legality.check m.engine.board m.engine.usage ability activation = .ok ()) :
    m.engine.registrar.isRegistered a ∨ ability.Commits := by
  obtain ⟨card, hcard, hplace⟩ := Legality.isInPlace_of_check hlegal
  unfold Legality.isInPlace at hplace
  split at hplace
  · -- An action card that is played has the cost of playing it, which stays paid.
    rename_i hplayed
    simp only [Bool.and_eq_true, decide_eq_true_eq] at hplayed
    obtain ⟨design, builtFor, hbuilt⟩ := h.reached.built hability
    have htype := (h.typed a ability card hability hcard).trans hplayed.1
    exact .inr ⟨.playAction, Design.playAction_of_build hbuilt hplayed.2 htype, rfl⟩
  · refine .inl ((h.upkept.isRegistered_iff hability).mpr ?_)
    simpa [Engine.inPlace, hability, Board.cardIs, hcard] using hplace

theorem Grounded.after (h : m.Grounded) (hregular : m.Regular d) : (m.after d).Grounded where
  reached := h.reached.after d
  upkept := upkept_after h.reached.sound h.upkept hregular.setsUp hregular.orderly
  typed := h.typed_after hregular
  held a hsome := by
    have hkept : ∀ ability, m.engine.ability? a = some ability →
        (m.after d).engine.ability? a = some ability := fun ability hability =>
      (Moment.passage h.reached.sound d).ability? hability
    have hold : m.engine.stack a ≠ [] →
        (m.engine.registrar.isRegistered a → (m.after d).engine.registrar.isRegistered a) →
        ∃ ability, (m.after d).engine.ability? a = some ability ∧ ability.isAction ∧
          ((m.after d).engine.registrar.isRegistered a ∨ ability.Commits) := by
      intro hbefore hregistered
      obtain ⟨ability, hability, haction, hwhy⟩ := h.held a hbefore
      exact ⟨ability, hkept ability hability, haction, hwhy.imp_left hregistered⟩
    cases m.restacks d a with
    | keeps hstack hregistered => exact hold (hstack ▸ hsome) hregistered
    | @starts p ability hgives hability haction hlegal hafter =>
      refine ⟨ability, hkept ability hability, haction, ?_⟩
      rw [hafter]
      exact h.held_of_check hability hlegal
    | @retracts p x activation b hgives hlatest hget hcan hafter =>
      exact hold (List.ne_nil_of_mem (Engine.mem_stack_of_latest hlatest)) fun hr => by
        rw [hafter]
        exact hr
    | drops hnil => exact absurd hnil hsome

theorem Grounded.run (h : m.Grounded) {ds : List Deed} (hregular : Along Regular m ds) :
    (m.run ds).Grounded := by
  induction ds generalizing m with
  | nil => exact h
  | cons d ds ih => exact ih (h.after hregular.1) hregular.2

/-! ## On from the boundary -/

/-- Whatever was started before a number was given is retracted already or cannot be. -/
structure Closes (m : Moment) (n : Nat) : Prop where
  given : n ≤ m.engine.nextActivation
  commits : ∀ a x, x ∈ m.engine.stack a → x.number < n →
    ∃ ability, m.engine.ability? a = some ability ∧ ability.Commits

/-- When a round begins, what was started before is closed. -/
theorem Grounded.closes (h : m.Grounded) (hfires : m.fires? d = some event)
    (hround : event.name = .beginRound) : (m.after d).Closes m.engine.nextActivation where
  given := (Moment.passage h.reached.sound d).numbers
  commits a x hmem _ := by
    obtain ⟨hstack, -, -⟩ := stack_after_fires hfires a
    rw [hstack] at hmem
    split at hmem
    · simp at hmem
    · rename_i hkept
      obtain ⟨ability, hability, haction, hwhy⟩ := h.held a (List.ne_nil_of_mem hmem)
      refine ⟨ability, (Moment.passage h.reached.sound d).ability? hability, ?_⟩
      rcases hwhy with hregistered | hcommits
      -- If it were registered its stack would have been cleared.
      · rw [hround] at hkept
        exact absurd (h.upkept.proper.clearsOn hability haction hregistered) hkept
      · exact hcommits

theorem Closes.after (h : m.Closes n) (hsound : m.Sound) (d : Deed) : (m.after d).Closes n where
  given := Nat.le_trans h.given (Moment.passage hsound d).numbers
  commits a x hmem hlt := by
    rcases mem_stack_after hmem with hold | ⟨-, -, -, -, rfl, -⟩
    · obtain ⟨ability, hability, hcommits⟩ := h.commits a x hold hlt
      exact ⟨ability, (Moment.passage hsound d).ability? hability, hcommits⟩
    · exact absurd h.given (Nat.not_le.mpr hlt)

theorem Closes.run (h : m.Closes n) (hsound : m.Sound) (ds : List Deed) : (m.run ds).Closes n := by
  induction ds generalizing m with
  | nil => exact h
  | cons d ds ih => exact ih (h.after hsound d) (hsound.after d)

end Moment

end Doomtown
