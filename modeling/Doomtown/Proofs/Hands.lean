import Doomtown.Decision
import Doomtown.Proofs.Conservation

/-!
# Hands

What a player sees of the hands is told twice: the hand itself is a zone of the player's, and
whether a card is in a hand is told by the location of the card. On a tidy board a hand lists the
cards of its owner that are located in a hand, each of them once. So the two tell the same of the
cards in the player's own hand and of those in no hand, but not of the cards in the hands of others,
which are in a hand as seen from any seat (`Moment.isInHand_agrees_iff`).
-/

namespace Doomtown

namespace Board

variable {b : Board} {c : CardId} {p : PlayerId}

/-- The hand of a player is the zone of the player's cards in hand. -/
theorem hand_eq (b : Board) (p : PlayerId) :
    (BoardView.mk b p).hand = ((b.zone? p .hand).map (·.cards)).getD [] := by
  rw [zone?_private b p (by decide)]
  cases h : b.privateZones? p <;> simp [BoardView.hand, h, PrivateZones.at?]

/-- On a tidy board the hand of a player lists the player's cards that are in hand. -/
theorem Tidy.mem_hand_iff (h : b.Tidy) :
    c ∈ (BoardView.mk b p).hand ↔
      ∃ card, b.card? c = some card ∧ card.location = .hand ∧ card.owner = p := by
  have hbelongs : b.belongs c p .hand = true ↔
      ∃ card, b.card? c = some card ∧ card.location = .hand ∧ card.owner = p := by
    simp [belongs, cardIs, Option.any_eq_true]
  rw [hand_eq, ← hbelongs]
  cases hz : b.zone? p .hand with
  | some z =>
    have hcount := h.tally p .hand z hz c
    show c ∈ z.cards ↔ _
    rw [← List.count_pos_iff, hcount]
    by_cases hb : b.belongs c p .hand <;> simp [hb]
  | none =>
    -- A card of this owner would have made sure that there is a zone.
    refine iff_of_false (by simp) fun hb => ?_
    obtain ⟨card, hcard, -, rfl⟩ := hbelongs.mp hb
    have hzone := zone?_isSome (h.homes c card hcard) (l := .hand) (by decide)
    rw [hz] at hzone
    exact absurd hzone (by decide)

/-- On a tidy board a card is in a hand if somebody's hand lists it. -/
theorem Tidy.isInHand_iff (h : b.Tidy) :
    (BoardView.mk b p).isInHand c = true ↔ ∃ q, c ∈ (BoardView.mk b q).hand := by
  simp only [h.mem_hand_iff, BoardView.isInHand, cardIs, Option.any_eq_true, decide_eq_true_eq]
  constructor
  · rintro ⟨card, hcard, hhand⟩
    exact ⟨card.owner, card, hcard, hhand, rfl⟩
  · rintro ⟨-, card, hcard, hhand, -⟩
    exact ⟨card, hcard, hhand⟩

/-- No two hands of a tidy board list the same card. -/
theorem Tidy.hand_unique (h : b.Tidy) {q : PlayerId} (hp : c ∈ (BoardView.mk b p).hand)
    (hq : c ∈ (BoardView.mk b q).hand) : p = q := by
  obtain ⟨card, hcard, -, rfl⟩ := h.mem_hand_iff.mp hp
  obtain ⟨card', hcard', -, rfl⟩ := h.mem_hand_iff.mp hq
  rw [Option.some.inj (hcard.symm.trans hcard')]

end Board

namespace Moment

variable {first second : String} {ghostRock : Nat}

/-- The board of a moment from a player's seat. -/
def seenBy (m : Moment) (p : PlayerId) : BoardView := ⟨m.engine.board, p⟩

/-- At every moment of a game, the location of a card tells of a player's hand what the hand itself
tells, unless the card is in somebody else's hand. -/
theorem isInHand_agrees_iff {ds : List Deed}
    (hsetUp : Along SetsUp (start (.twoPlayer first second ghostRock)) ds) {m : Moment}
    (hm : m = (start (.twoPlayer first second ghostRock)).run ds) (p : PlayerId) (c : CardId) :
    ((m.seenBy p).isInHand c = true ↔ c ∈ (m.seenBy p).hand) ↔
      ∀ q, c ∈ (m.seenBy q).hand → q = p := by
  have htidy : m.engine.board.Tidy :=
    hm ▸ tidy_run (sound_start _) (Board.tidy_twoPlayer ..) hsetUp
  have hinHand : (m.seenBy p).isInHand c = true ↔ ∃ q, c ∈ (m.seenBy q).hand := htidy.isInHand_iff
  rw [hinHand]
  constructor
  · intro hagrees q hq
    exact htidy.hand_unique hq (hagrees.mp ⟨q, hq⟩)
  · intro hown
    refine ⟨?_, fun hp => ⟨p, hp⟩⟩
    rintro ⟨q, hq⟩
    exact hown q hq ▸ hq

/-- Each of two players is dealt a card. -/
def deal : List Deed :=
  [.call (.board fun b => ((Board.createCard ⟨0⟩ "A" .deed .hand).ends b).2),
    .call (.board fun b => ((Board.createCard ⟨1⟩ "B" .deed .hand).ends b).2)]

theorem setsUp_deal : Along SetsUp (start (.twoPlayer "Ann" "Bob" 0)) deal := by
  refine ⟨?_, ?_, trivial⟩
  · rintro _ ⟨⟩
    exact .created (by decide) "A" .deed .hand
  · rintro _ ⟨⟩
    exact .created (by decide) "B" .deed .hand

/-- The moment after the deal. -/
def dealt : Moment := (start (.twoPlayer "Ann" "Bob" 0)).run deal

/-- Each hand lists one card. -/
theorem hand_dealt : (dealt.seenBy ⟨0⟩).hand = [⟨3⟩] ∧ (dealt.seenBy ⟨1⟩).hand = [⟨4⟩] := by
  decide +kernel

/-- The first player is told the same twice of her own card; of the other player's card she is told
that it is in a hand, and her hand does not list it. -/
theorem isInHand_agrees_iff_dealt :
    Along SetsUp (start (.twoPlayer "Ann" "Bob" 0)) deal ∧
      ((dealt.seenBy ⟨0⟩).isInHand ⟨3⟩ = true ↔ ⟨3⟩ ∈ (dealt.seenBy ⟨0⟩).hand) ∧
      ¬((dealt.seenBy ⟨0⟩).isInHand ⟨4⟩ = true ↔ ⟨4⟩ ∈ (dealt.seenBy ⟨0⟩).hand) := by
  refine ⟨setsUp_deal, (isInHand_agrees_iff setsUp_deal rfl ⟨0⟩ ⟨3⟩).mpr fun q hq => ?_,
    fun hagrees => ?_⟩
  · have htidy : dealt.engine.board.Tidy :=
      tidy_run (sound_start _) (Board.tidy_twoPlayer ..) setsUp_deal
    exact htidy.hand_unique hq (hand_dealt.1 ▸ List.mem_cons_self)
  · have hown := (isInHand_agrees_iff setsUp_deal rfl ⟨0⟩ ⟨4⟩).mp hagrees ⟨1⟩
    exact absurd (hown (hand_dealt.2 ▸ List.mem_cons_self)) (by decide)

/-- It is not so that a player is told of a card in a hand only if the player's own hand lists
it. -/
theorem isInHand_not_always_agrees : ¬∀ ds : List Deed,
    Along SetsUp (start (.twoPlayer "Ann" "Bob" 0)) ds → ∀ (p : PlayerId) (c : CardId),
      ((((start (.twoPlayer "Ann" "Bob" 0)).run ds).seenBy p).isInHand c = true ↔
        c ∈ (((start (.twoPlayer "Ann" "Bob" 0)).run ds).seenBy p).hand) := by
  intro h
  have hagrees : (dealt.seenBy ⟨0⟩).isInHand ⟨4⟩ = true ↔ ⟨4⟩ ∈ (dealt.seenBy ⟨0⟩).hand :=
    h deal setsUp_deal ⟨0⟩ ⟨4⟩
  have hlisted := hagrees.mp (by decide +kernel)
  rw [hand_dealt.1] at hlisted
  exact absurd hlisted (by decide)

end Moment

end Doomtown
