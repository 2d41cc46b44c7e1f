import Doomtown.Proofs.Alteration

/-!
# No card is lost

A game of two players begins without cards. Cards are created for these players, everything else is
arranged without moving a card, and whatever is played leads from board to board by what
`Board.Stir` lists. So the board of every moment of every run is tidy, and each card is listed once,
where it is (`Moment.conserved_run`). If whoever arranges the board puts only cards in play into the
shootout or the town square, nobody is there who is not in play.
-/

namespace Doomtown

namespace Moment

variable {m : Moment} {d : Deed} {e e' : Engine} {first second : String} {ghostRock : Nat}

/-- A deed that sets up the board creates a card for a player of the game or moves nothing. -/
def SetsUp (m : Moment) (d : Deed) : Prop :=
  ∀ f, d = .call (.board f) → m.engine.board.SetUp (f m.engine.board)

/-- A deed that sets up the board puts only cards in play into the shootout or the town square. -/
def PutsInPlay (m : Moment) (d : Deed) : Prop :=
  ∀ f, d = .call (.board f) → ∀ c, (f m.engine.board).isAfield c →
    m.engine.board.isAfield c ∨ (f m.engine.board).cardIs c (·.location = .playArea)

/-! ## What deeds do to the board -/

/-- Whatever a deed does, it plays on the board or sets it up. -/
theorem Alters.stirs (h : m.Alters d e e') :
    e.board.Stirs e'.board ∨ ∃ f, d = .call (.board f) ∧ e'.board = f e.board := by
  have hsame : e'.board = e.board → e.board.Stirs e'.board := fun hboard => hboard ▸ .refl
  cases h with
  | tends h => exact .inl h.board.stirs
  | relocates c h => exact .inl h.board.stirs
  | refunds _ hstirs _ => exact .inl hstirs
  | shifts c l _ hstirs _ => exact .inl hstirs
  | registers a _ _ h _ => exact .inl (hsame h.board)
  | unregisters a _ h _ => exact .inl (hsame h.board)
  | attaches c design card ability h => exact .inl (hsame h.board)
  | hears event _ h => exact .inl (hsame h.board)
  | sets f hd hboard _ => exact .inr ⟨f, hd, hboard⟩

theorem board_countedBy (m : Moment) (o : Option (ActivationId × Occurrence)) :
    (m.countedBy o).board = m.engine.board := by
  cases o with
  | none => rfl
  | some xo =>
    obtain ⟨usage, husage⟩ := m.counted_eq xo.1 (some xo.2)
    exact congrArg (·.board) husage

theorem Sound.stirs (h : m.Sound) (d : Deed) :
    m.engine.board.Stirs (m.after d).engine.board ∨
      ∃ f, d = .call (.board f) ∧ (m.after d).engine.board = f m.engine.board := by
  have hstirs := (h.alters d).stirs
  rwa [board_countedBy] at hstirs

/-- A deed leaves a tidy board tidy. -/
theorem tidy_after (h : m.Sound) (htidy : m.engine.board.Tidy) (hsetUp : m.SetsUp d) :
    (m.after d).engine.board.Tidy := by
  rcases h.stirs d with hstirs | ⟨f, rfl, hboard⟩
  · exact htidy.stirs hstirs
  · rw [hboard]
    exact htidy.setUp (hsetUp f rfl)

theorem tidy_run (h : m.Sound) (htidy : m.engine.board.Tidy) {ds : List Deed}
    (hsetUp : Along SetsUp m ds) : (m.run ds).engine.board.Tidy := by
  induction ds generalizing m with
  | nil => exact htidy
  | cons d ds ih => exact ih (h.after d) (tidy_after h htidy hsetUp.1) hsetUp.2

/-- Setting up takes no card out of play. -/
theorem inPlay_setUp {b b' : Board} (htidy : b.Tidy) (hsetUp : b.SetUp b') {c : CardId}
    (h : b.cardIs c (·.location = .playArea)) : b'.cardIs c (·.location = .playArea) := by
  have hcard : (b.card? c).isSome := by
    obtain ⟨card, hcard, -⟩ := (Option.any_eq_true _ _).mp h
    rw [hcard]
    rfl
  rw [Board.cardIs_of_place? (hsetUp.place? htidy hcard) (· = .playArea)]
  exact h

/-- A deed leaves only cards in play in the shootout and the town square. -/
theorem afieldInPlay_after (h : m.Sound) (htidy : m.engine.board.Tidy)
    (hafield : m.engine.board.AfieldInPlay) (hsetUp : m.SetsUp d) (hputs : m.PutsInPlay d) :
    (m.after d).engine.board.AfieldInPlay := by
  rcases h.stirs d with hstirs | ⟨f, rfl, hboard⟩
  · exact hafield.stirs hstirs
  · rw [hboard]
    intro c hc
    rcases hputs f rfl c hc with hbefore | hplay
    · exact inPlay_setUp htidy (hsetUp f rfl) (hafield c hbefore)
    · exact hplay

theorem afieldInPlay_run (h : m.Sound) (htidy : m.engine.board.Tidy)
    (hafield : m.engine.board.AfieldInPlay) {ds : List Deed} (hsetUp : Along SetsUp m ds)
    (hputs : Along PutsInPlay m ds) : (m.run ds).engine.board.AfieldInPlay := by
  induction ds generalizing m with
  | nil => exact hafield
  | cons d ds ih =>
    exact ih (h.after d) (tidy_after h htidy hsetUp.1)
      (afieldInPlay_after h htidy hafield hsetUp.1 hputs.1) hsetUp.2 hputs.2

/-! ## In every run -/

/-- At every moment of a game each card is listed once by all zones together, namely where it is,
and no zone lists what is no card. If only cards in play were ever put into the shootout or the town
square, nobody is there who is not in play. -/
theorem conserved_run {ds : List Deed}
    (hsetUp : Along SetsUp (start (.twoPlayer first second ghostRock)) ds) :
    ((start (.twoPlayer first second ghostRock)).run ds).engine.board.Conserved ∧
      (Along PutsInPlay (start (.twoPlayer first second ghostRock)) ds →
        ((start (.twoPlayer first second ghostRock)).run ds).engine.board.AfieldInPlay) := by
  have hsound := sound_start (.twoPlayer first second ghostRock)
  have htidy := Board.tidy_twoPlayer first second ghostRock
  exact ⟨(tidy_run hsound htidy hsetUp).conserved, afieldInPlay_run hsound htidy
    (Board.afieldInPlay_twoPlayer first second ghostRock) hsetUp⟩

/-- Two dudes meet in a shootout. One of them is sent home, the other is discarded, and a card that
does not exist is moved. -/
def meeting : List Deed :=
  [.call (.board fun b => ((Board.createCard ⟨0⟩ "A" .dude .hand).ends b).2),
    .call (.board fun b => ((Board.createCard ⟨1⟩ "B" .dude .playArea).ends b).2),
    .call (.order (.move ⟨3⟩ .playArea)),
    .call (.board fun b => { b with shootout := some (.new ⟨3⟩ ⟨0⟩ ⟨4⟩ ⟨1⟩) }),
    .call (.order (.sendHome ⟨3⟩)), .call (.order (.shift ⟨4⟩ .discardPile)),
    .call (.order (.move ⟨9⟩ .hand))]

theorem setsUp_meeting : Along SetsUp (start (.twoPlayer "Ann" "Bob" 0)) meeting := by
  refine ⟨?_, ?_, by rintro _ ⟨⟩, ?_, by rintro _ ⟨⟩, by rintro _ ⟨⟩, by rintro _ ⟨⟩, trivial⟩
  · rintro _ ⟨⟩
    exact .created (by decide) "A" .dude .hand
  · rintro _ ⟨⟩
    exact .created (by decide) "B" .dude .playArea
  · rintro _ ⟨⟩
    exact .arranged ⟨rfl, rfl, fun _ => rfl, rfl, rfl⟩

theorem putsInPlay_meeting : Along PutsInPlay (start (.twoPlayer "Ann" "Bob" 0)) meeting := by
  refine ⟨?_, ?_, by rintro _ ⟨⟩, ?_, by rintro _ ⟨⟩, by rintro _ ⟨⟩, by rintro _ ⟨⟩, trivial⟩
  · rintro _ ⟨⟩ c hc
    exact .inl (Board.isAfield_of_created hc)
  · rintro _ ⟨⟩ c hc
    exact .inl (Board.isAfield_of_created hc)
  · -- The dudes of the shootout are both in play then.
    rintro _ ⟨⟩ c hc
    rcases (Bool.or_eq_true _ _).mp hc with hpart | htown
    · have hdudes : c = ⟨3⟩ ∨ c = ⟨4⟩ := by
        simpa [Board.isParticipating, Shootout.contains, Shootout.new] using hpart
      rcases hdudes with rfl | rfl <;> exact .inr (by decide +kernel)
    · exact .inl ((Bool.or_eq_true _ _).mpr (.inr htown))

theorem conserved_run_meeting :
    Along SetsUp (start (.twoPlayer "Ann" "Bob" 0)) meeting ∧
      Along PutsInPlay (start (.twoPlayer "Ann" "Bob" 0)) meeting ∧
      ((start (.twoPlayer "Ann" "Bob" 0)).run meeting).engine.board.Conserved ∧
      ((start (.twoPlayer "Ann" "Bob" 0)).run meeting).engine.board.AfieldInPlay := by
  obtain ⟨hconserved, hinPlay⟩ := conserved_run setsUp_meeting
  exact ⟨setsUp_meeting, putsInPlay_meeting, hconserved, hinPlay putsInPlay_meeting⟩

end Moment

end Doomtown
