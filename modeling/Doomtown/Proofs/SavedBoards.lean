import Mathlib.Tactic.Simproc.ExistsAndEq
import Mathlib.Tactic.MkIffOfInductiveProp
import Doomtown.Proofs.SavedValues
import Doomtown.Saved.Board

/-!
# Saved boards

A board is read back from its saved form as it was, with the settings of its log, if and only if
all its numbers are within their fields (`Saved.board_reads_back_iff`): identifiers, amounts and
counters are natural numbers of 32 bits, ranks, influence and control whole numbers of 32 bits, and
the time is a natural number of 64 bits. What the log kept is gone.

For each record on a board there is one lemma that says when it is loaded again
(`load_save_card` and so on) and one that says that its form can be written (`legible_card` and so
on); a record that gains a field needs these two changed, and `Fits` if the field is a number.
-/

namespace Doomtown

/-! ## Numbers within their fields -/

/-- A natural number that 32 bits hold. -/
def Saved.FitsWord (n : Nat) : Prop := n < UInt32.size

/-- A whole number that 32 bits hold. -/
def Saved.FitsInt (n : Int) : Prop := -0x80000000 ≤ n ∧ n < 0x80000000

/-- An identifier that 32 bits hold. -/
def Id.Fits {k : Kind} (i : Id k) : Prop := Saved.FitsWord i.number

/-- The numbers of a card are within their fields. -/
@[mk_iff]
structure Card.Fits (c : Card) : Prop where
  id : c.id.Fits
  owner : c.owner.Fits
  controller : c.controller.Fits
  influence : Saved.FitsInt c.influence
  control : Saved.FitsInt c.control

/-- The owner of a zone and the cards that it lists are within their fields. -/
@[mk_iff]
structure Zone.Fits (z : Zone) : Prop where
  owner : z.owner.Fits
  cards : ∀ c ∈ z.cards, c.Fits

/-- All private zones of a player are within their fields. -/
def PrivateZones.Fits (z : PrivateZones) : Prop := ∀ l, ∀ zone ∈ z.at? l, zone.Fits

theorem PrivateZones.fits_iff {z : PrivateZones} : z.Fits ↔ z.drawDeck.Fits ∧ z.hand.Fits ∧
    z.discardPile.Fits ∧ z.deadPile.Fits ∧ z.drawHand.Fits ∧ z.beingPlayed.Fits := by
  constructor
  · exact fun h => ⟨h .drawDeck _ rfl, h .hand _ rfl, h .discardPile _ rfl, h .deadPile _ rfl,
      h .drawHand _ rfl, h .beingPlayed _ rfl⟩
  · rintro ⟨_, _, _, _, _, _⟩ l zone hz
    cases l <;> cases hz <;> assumption

/-- The card that a restriction names is within its field. -/
def Restriction.Fits (r : Restriction) : Prop := ∀ c, r = .abilitiesOf c → c.Fits

/-- The numbers of a player are within their fields. -/
@[mk_iff]
structure Player.Fits (p : Player) : Prop where
  id : p.id.Fits
  ghostRock : Saved.FitsWord p.ghostRock
  handRank : Saved.FitsInt p.handRank
  rankModifier : Saved.FitsInt p.rankModifier
  restrictions : ∀ r ∈ p.restrictions, r.Fits

/-- The numbers of a round are within their fields. -/
@[mk_iff]
structure RoundState.Fits (r : RoundState) : Prop where
  number : Saved.FitsWord r.number
  activePlayer : r.activePlayer.Fits

/-- The members of a posse are within their fields. -/
@[mk_iff]
structure Posse.Fits (p : Posse) : Prop where
  player : p.player.Fits
  dudes : ∀ c ∈ p.dudes, c.Fits

/-- All who are in a shootout are within their fields. -/
@[mk_iff]
structure Shootout.Fits (s : Shootout) : Prop where
  leader : s.leader.Fits
  mark : s.mark.Fits
  leaderPosse : s.leaderPosse.Fits
  markPosse : s.markPosse.Fits
  pendingStep : ∀ i ∈ s.pendingStep, i.Fits
  attachments : ∀ c ∈ s.attachments, c.Fits

/-- All numbers of a board are within their fields, those that cards are filed under included. -/
@[mk_iff]
structure Board.Fits (b : Board) : Prop where
  cards : ∀ i c, b.cards.get? i = some c → i.Fits ∧ c.Fits
  players : ∀ p ∈ b.players, p.Fits
  privateZones : ∀ z ∈ b.privateZones, z.1.Fits ∧ z.2.Fits
  playArea : b.playArea.Fits
  round : b.round.Fits
  shootout : ∀ s ∈ b.shootout, s.Fits
  nextNumber : Saved.FitsWord b.nextNumber
  clock : b.clock < UInt64.size

/-- The numbers of a new game are within their fields if its ghost rock is. -/
theorem Board.fits_twoPlayer {first second : String} {ghostRock : Nat}
    (h : Saved.FitsWord ghostRock) : (Board.twoPlayer first second ghostRock).Fits := by
  -- The identifiers of a new game and its next number are all below four.
  have hword {n : Nat} (hn : n < 4) : Saved.FitsWord n := Nat.lt_trans hn (by decide)
  have hint : Saved.FitsInt 0 := ⟨by decide, by decide⟩
  have hid {k : Kind} {n : Nat} (hn : n < 4) : (⟨n⟩ : Id k).Fits := hword hn
  have hzone {l : Location} {n : Nat} (hn : n < 4) : (Zone.new l ⟨n⟩).Fits :=
    ⟨hid hn, fun _ hc => nomatch hc⟩
  have hplayer {name : String} {n : Nat} (hn : n < 4) : (Player.new ⟨n⟩ name ghostRock).Fits :=
    ⟨hid hn, h, hint, hint, fun _ hr => nomatch hr⟩
  have hzones {n : Nat} (hn : n < 4) : (PrivateZones.new ⟨n⟩).Fits :=
    PrivateZones.fits_iff.2 ⟨hzone hn, hzone hn, hzone hn, hzone hn, hzone hn, hzone hn⟩
  have htime : 0 < UInt64.size := by decide
  exact {
    cards := fun i _ hc => nomatch (IdMap.get?_empty i).symm.trans hc
    players := by simp [Board.twoPlayer, hplayer]
    privateZones := by simp [Board.twoPlayer, hid, hzones]
    playArea := hzone (by decide)
    round := ⟨hword (n := 0) (by decide), hid (by decide)⟩
    shootout := fun _ hs => nomatch hs
    nextNumber := hword (n := 3) (by decide)
    clock := htime }

/-- A log of the same settings that has taken nothing in. -/
def Log.emptied (l : Log) : Log :=
  { verbosity := l.verbosity, format := l.format, mode := l.mode }

namespace Saved

variable {k : Kind}

/-! ## Plain values -/

@[simp] theorem load_word32 {n : Nat} : word32.load (.nat n) = some n ↔ FitsWord n := load_natBelow

@[simp] theorem load_word64 {n : Nat} : word64.load (.nat n) = some n ↔ n < UInt64.size :=
  load_natBelow

@[simp] theorem load_int32 {n : Int} : int32.load (.int n) = some n ↔ FitsInt n := load_intIn

@[simp] theorem load_save_id {i : Id k} : id.load (id.save i) = some i ↔ i.Fits :=
  (load_save_like (fun _ => rfl) fun _ => rfl).trans load_word32

@[simp] theorem load_save_keyword (w : Keyword) : keyword.load (keyword.save w) = some w := rfl

@[simp] theorem load_save_location (l : Location) :
    location.load (location.save l) = some l := by cases l <;> rfl

@[simp] theorem load_save_cardType (t : CardType) :
    cardType.load (cardType.save t) = some t := by cases t <;> rfl

@[simp] theorem load_save_phase (p : Phase) : phase.load (phase.save p) = some p := by
  cases p <;> rfl

@[simp] theorem load_save_playWindow (w : PlayWindow) :
    playWindow.load (playWindow.save w) = some w := by cases w <;> rfl

@[simp] theorem load_save_verbosity (v : Verbosity) :
    verbosity.load (verbosity.save v) = some v := by cases v <;> rfl

@[simp] theorem load_save_logFormat (f : LogFormat) :
    logFormat.load (logFormat.save f) = some f := by cases f <;> rfl

@[simp] theorem load_save_logMode (m : LogMode) : logMode.load (logMode.save m) = some m := by
  cases m <;> rfl

theorem load_restriction_held (j : Json) :
    restriction.load (held "AbilitiesOf" j) = (id.load j).map .abilitiesOf := by
  simp only [restriction, case?, held, Option.bind_eq_bind, Option.bind_some]
  cases id.load j <;> rfl

@[simp] theorem load_save_restriction {r : Restriction} :
    restriction.load (restriction.save r) = some r ↔ r.Fits := by
  cases r with
  | cardAbilities | reactions => simp [restriction, case?, isBare, Restriction.Fits]
  | abilitiesOf c =>
    have hsave : restriction.save (.abilitiesOf c) = held "AbilitiesOf" (id.save c) := rfl
    rw [hsave, load_restriction_held]
    simp [Option.map_eq_some_iff, Restriction.Fits]

/-! ## Values that may be missing -/

@[simp] theorem load_save_window (w : Option PlayWindow) :
    playWindow.option.load (playWindow.option.save w) = some w :=
  (load_save_option fun _ => Json.noConfusion).2 fun w _ => load_save_playWindow w

@[simp] theorem load_save_pendingStep {i : Option StepId} :
    id.option.load (id.option.save i) = some i ↔ ∀ j ∈ i, j.Fits := by
  rw [load_save_option (s := id) fun _ => Json.noConfusion]
  simp only [load_save_id]

/-! ## Records

Each record is loaded field by field, and its fields are loaded again by the lemmas above. -/

@[simp] theorem load_save_card {c : Card} : card.load (card.save c) = some c ↔ c.Fits := by
  cases c
  rw [load_save_record card _ (fun _ => rfl) rfl rfl (by simp)]
  simp only [List.map_cons, List.map_nil, field_some, Option.bind_eq_bind, Option.bind_eq_some_iff,
    Option.some.injEq, Card.mk.injEq, existsAndEq, and_true]
  simp [Card.fits_iff]

@[simp] theorem load_save_zone {z : Zone} : zone.load (zone.save z) = some z ↔ z.Fits := by
  cases z
  rw [load_save_record zone _ (fun _ => rfl) rfl rfl (by simp)]
  simp only [List.map_cons, List.map_nil, field_some, Option.bind_eq_bind, Option.bind_eq_some_iff,
    Option.some.injEq, Zone.mk.injEq, existsAndEq, and_true]
  simp [Zone.fits_iff]

@[simp] theorem load_save_privateZones {z : PrivateZones} :
    privateZones.load (privateZones.save z) = some z ↔ z.Fits := by
  cases z
  rw [load_save_record privateZones _ (fun _ => rfl) rfl rfl (by simp)]
  simp only [List.map_cons, List.map_nil, field_some, Option.bind_eq_bind, Option.bind_eq_some_iff,
    Option.some.injEq, PrivateZones.mk.injEq, existsAndEq, and_true]
  simp [PrivateZones.fits_iff]

@[simp] theorem load_save_player {p : Player} : player.load (player.save p) = some p ↔ p.Fits := by
  cases p
  rw [load_save_record player _ (fun _ => rfl) rfl rfl (by simp)]
  simp only [List.map_cons, List.map_nil, field_some, Option.bind_eq_bind, Option.bind_eq_some_iff,
    Option.some.injEq, Player.mk.injEq, existsAndEq, and_true]
  simp [Player.fits_iff]

@[simp] theorem load_save_round {r : RoundState} : round.load (round.save r) = some r ↔ r.Fits := by
  cases r
  rw [load_save_record round _ (fun _ => rfl) rfl rfl (by simp)]
  simp only [List.map_cons, List.map_nil, field_some, Option.bind_eq_bind, Option.bind_eq_some_iff,
    Option.some.injEq, RoundState.mk.injEq, existsAndEq, and_true]
  simp [RoundState.fits_iff]

@[simp] theorem load_save_posse {p : Posse} : posse.load (posse.save p) = some p ↔ p.Fits := by
  cases p
  rw [load_save_record posse _ (fun _ => rfl) rfl rfl (by simp)]
  simp only [List.map_cons, List.map_nil, field_some, Option.bind_eq_bind, Option.bind_eq_some_iff,
    Option.some.injEq, Posse.mk.injEq, existsAndEq, and_true]
  simp [Posse.fits_iff]

@[simp] theorem load_save_shootout {s : Shootout} :
    shootout.load (shootout.save s) = some s ↔ s.Fits := by
  cases s
  rw [load_save_record shootout _ (fun _ => rfl) rfl rfl (by simp)]
  simp only [List.map_cons, List.map_nil, field_some, Option.bind_eq_bind, Option.bind_eq_some_iff,
    Option.some.injEq, Shootout.mk.injEq, existsAndEq, and_true]
  simp [Shootout.fits_iff]

@[simp] theorem load_save_shootoutOption {s : Option Shootout} :
    shootout.option.load (shootout.option.save s) = some s ↔ ∀ t ∈ s, t.Fits := by
  rw [load_save_option (s := shootout) fun _ => Json.noConfusion]
  simp only [load_save_shootout]

@[simp] theorem load_save_cards {m : IdMap .card Card} :
    cards.load (cards.save m) = some m ↔ ∀ i c, m.get? i = some c → i.Fits ∧ c.Fits := by
  rw [load_save_record cards _ (fun _ => rfl) rfl rfl (by simp)]
  simp only [List.map_cons, List.map_nil, field_some, load_save_map, load_save_card]
  rfl

@[simp] theorem load_save_log (l : Log) : log.load (log.save l) = some l.emptied := by
  rw [load_save_record log _ (fun _ => rfl) rfl rfl (by simp)]
  simp [field_some, Log.emptied]

theorem load_save_board {g : Recorded Board} :
    board.load (board.save g) = some ⟨g.state, g.log.emptied⟩ ↔ g.state.Fits := by
  obtain ⟨⟨_, _, _, _, _, _, _, _⟩, l⟩ := g
  rw [load_save_record board _ (fun _ => rfl) rfl rfl (by simp)]
  simp only [List.map_cons, List.map_nil, field_some, Option.bind_eq_bind, Option.bind_eq_some_iff,
    Option.some.injEq, Recorded.mk.injEq, Board.mk.injEq, existsAndEq, and_true]
  simp [Board.fits_iff]

/-! ## Written forms -/

theorem legible_id : (id (k := k)).Legible := fun _ => trivial

theorem legible_keyword : keyword.Legible := fun _ => trivial

theorem legible_playWindow : playWindow.Legible := fun _ => trivial

theorem legible_restriction : restriction.Legible
  | .cardAbilities | .reactions => trivial
  | .abilitiesOf _ => ⟨by simp, trivial, trivial⟩

theorem legible_card : card.Legible := fun _ =>
  ⟨by simp, trivial, trivial, trivial, legible_keyword.list _, trivial, trivial, trivial,
    trivial, trivial, trivial, trivial, trivial, trivial⟩

theorem legible_cards : cards.Legible := fun _ => ⟨by simp, legible_card.map _, trivial⟩

theorem legible_zone : zone.Legible := fun _ =>
  ⟨by simp, trivial, trivial, legible_id.list _, trivial⟩

theorem legible_privateZones : privateZones.Legible := fun _ =>
  ⟨by simp, legible_zone _, legible_zone _, legible_zone _, legible_zone _, legible_zone _,
    legible_zone _, trivial⟩

theorem legible_player : player.Legible := fun _ =>
  ⟨by simp, trivial, trivial, trivial, trivial, trivial, trivial, legible_restriction.list _,
    trivial⟩

theorem legible_round : round.Legible := fun r =>
  ⟨by simp, trivial, trivial, legible_playWindow.option r.window, trivial, trivial, trivial⟩

theorem legible_posse : posse.Legible := fun _ => ⟨by simp, trivial, legible_id.list _, trivial⟩

theorem legible_shootout : shootout.Legible := fun s =>
  ⟨by simp, trivial, trivial, legible_posse _, legible_posse _, legible_id.option s.pendingStep,
    legible_id.list _, trivial⟩

theorem legible_log : log.Legible := fun _ => ⟨by simp, trivial, trivial, trivial, trivial⟩

theorem legible_board : board.Legible := fun g =>
  ⟨by simp, legible_cards _, legible_player.list _, (legible_id.pair legible_privateZones).list _,
    legible_zone _, legible_round _, legible_shootout.option g.state.shootout, trivial, trivial,
    legible_log _, trivial⟩

/-- A board is read back from the text of its saved form as it was, its log with the settings and
without what it had taken in, if and only if the board's numbers are within their fields. -/
theorem board_reads_back_iff (g : Recorded Board) :
    board.read? (board.save g).compact = some ⟨g.state, g.log.emptied⟩ ↔ g.state.Fits := by
  rw [legible_board.read?]
  exact load_save_board

end Saved

end Doomtown
