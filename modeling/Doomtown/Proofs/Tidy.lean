import Doomtown.Proofs.Rollback
import Mathlib.Data.List.Nodup

/-!
# Tidy boards

A board tells twice where a card is: by the card's own location, and by the zones that list it. On a
tidy board the two agree: each zone lists each card as often as the card belongs there, which is
once or not at all (`Board.Tidy`). Whatever play does to a board is made of changes that move
nothing and of moves of listed cards (`Board.Stir`). Each of these keeps a tidy board tidy, and puts
no card into the shootout or the town square. On a tidy board all zones together list each card once
and nothing else (`Board.Tidy.conserved`).
-/

namespace Doomtown.Board

open Play

variable {b b' : Board} {c : CardId} {card : Card}

/-! ## Where cards belong -/

/-- Whether a card belongs into the zone of an owner at a location. The play area is everybody's. -/
def belongs (b : Board) (c : CardId) (o : PlayerId) (l : Location) : Bool :=
  b.cardIs c fun card => card.location = l && (l = .playArea || card.owner = o)

/-- What a card is and where: its own number, its owner and its location. -/
def place? (b : Board) (c : CardId) : Option (CardId × PlayerId × Location) :=
  (b.card? c).map fun card => (card.id, card.owner, card.location)

/-- Whether a card is in the shootout or in the town square. -/
def isAfield (b : Board) (c : CardId) : Bool :=
  b.isParticipating c || b.cardIs c (·.inTownSquare)

/-- All zone lists in a row. -/
def listings (b : Board) : List CardId := Location.all.flatMap b.cardsIn

/-- Each zone lists each card as often as it belongs there. -/
structure Tidy (b : Board) : Prop where
  tally : ∀ o l z, b.zone? o l = some z → ∀ c, z.cards.count c = if b.belongs c o l then 1 else 0
  /-- The owner of a card has private zones. -/
  homes : ∀ c card, b.card? c = some card → (b.privateZones? card.owner).isSome
  /-- So has every player. -/
  players : ∀ p, (b.player? p).isSome → (b.privateZones? p).isSome
  /-- Private zones are kept once for each player. -/
  seats : (b.privateZones.map (·.1)).Nodup
  /-- Cards are filed under their own numbers. -/
  ids : ∀ c card, b.card? c = some card → card.id = c
  /-- Numbers of cards were taken from the counter. -/
  fresh : ∀ c card, b.card? c = some card → c.number < b.nextNumber

theorem belongs_of_card? (h : b.card? c = some card) (o : PlayerId) (l : Location) :
    b.belongs c o l = decide (card.location = l ∧ (l = .playArea ∨ card.owner = o)) := by
  simp [belongs, cardIs, h]

theorem belongs_none (h : b.card? c = none) (o : PlayerId) (l : Location) :
    b.belongs c o l = false := by
  simp [belongs, cardIs, h]

/-! ## Changing zones of any owner -/

/-- Changing a zone of one player leaves the private zones of all others alone. -/
theorem privateZones?_modifyZone_other (b : Board) {o o' : PlayerId} (f : Zone → Zone)
    (l : Location) (h : o ≠ o') : (b.modifyZone o f l).privateZones? o' = b.privateZones? o' := by
  by_cases hl : l = .playArea
  · subst hl
    rfl
  · rw [modifyZone_private b o f hl]
    unfold privateZones?
    dsimp only
    generalize b.privateZones = zones
    induction zones with
    | nil => rfl
    | cons z rest ih =>
      by_cases hz : z.1 = o
      · simp [modifyFirst, hz, h]
      · by_cases hz' : z.1 = o'
        · simp [modifyFirst, hz', Ne.symm h]
        · simpa [modifyFirst, hz, hz'] using ih

/-- Changing a zone changes it for whomever it is found. -/
theorem zone?_modifyZone_any (b : Board) (o o' : PlayerId) (f : Zone → Zone) (l l' : Location) :
    (b.modifyZone o f l).zone? o' l' =
      if l = l' ∧ (l' = .playArea ∨ o = o') then (b.zone? o' l').map f else b.zone? o' l' := by
  by_cases hl' : l' = .playArea
  · subst hl'
    by_cases hl : l = .playArea
    · subst hl
      rfl
    · rw [modifyZone_private b o f hl, if_neg fun h => hl h.1]
      rfl
  · by_cases ho : o = o'
    · subst ho
      rw [zone?_modifyZone]
      simp
    · rw [if_neg fun h => h.2.elim hl' ho, zone?_private _ o' hl', zone?_private _ o' hl',
        privateZones?_modifyZone_other b f l ho]

/-- Whose private zones there are does not change. -/
theorem owners_modifyZone (b : Board) (o : PlayerId) (f : Zone → Zone) (l : Location) :
    (b.modifyZone o f l).privateZones.map (·.1) = b.privateZones.map (·.1) := by
  by_cases hl : l = .playArea
  · subst hl
    rfl
  · rw [modifyZone_private b o f hl]
    dsimp only
    generalize b.privateZones = zones
    induction zones with
    | nil => rfl
    | cons z rest ih =>
      by_cases hz : z.1 = o
      · simp [modifyFirst, hz]
      · simp [modifyFirst, hz, ih]

theorem privateZones?_isSome_iff {p : PlayerId} :
    (b.privateZones? p).isSome ↔ p ∈ b.privateZones.map (·.1) := by
  unfold privateZones?
  rw [Option.isSome_map, List.find?_isSome]
  simp

/-- Who has private zones has them whatever zone changes. -/
theorem privateZones?_isSome_of_owners
    (howners : b'.privateZones.map (·.1) = b.privateZones.map (·.1)) {p : PlayerId}
    (hp : (b.privateZones? p).isSome) : (b'.privateZones? p).isSome := by
  rw [privateZones?_isSome_iff] at hp ⊢
  rwa [howners]

/-! ## Changes of the board in play -/

/-- A change that moves nothing: zones are as they were, cards keep their places, and the players
are the same. -/
structure Still (b b' : Board) : Prop where
  playArea : b'.playArea = b.playArea
  privateZones : b'.privateZones = b.privateZones
  places : ∀ c, b'.place? c = b.place? c
  players : b'.players.map (·.id) = b.players.map (·.id)
  nextNumber : b'.nextNumber = b.nextNumber

/-- One change that play makes on a board. -/
inductive Stir (b : Board) : Board → Prop where
  | still {b' : Board} (h : b.Still b') (hafield : ∀ c, b'.isAfield c → b.isAfield c) : Stir b b'
  | moved {c : CardId} {card : Card} (hcard : b.card? c = some card) (hlists : b.lists c card)
      (destination : Location) : Stir b (b.moved c card destination)

/-- A chain of such changes. -/
abbrev Stirs : Board → Board → Prop := Relation.ReflTransGen Stir

theorem Still.zone? (h : b.Still b') (o : PlayerId) (l : Location) :
    b'.zone? o l = b.zone? o l := by
  cases l <;> simp [Board.zone?, privateZones?, h.playArea, h.privateZones]

/-- A card that keeps its place is the same card of the same owner at the same location. -/
theorem card?_of_place? (h : b'.place? c = b.place? c) (hcard : b'.card? c = some card) :
    ∃ card₀, b.card? c = some card₀ ∧ card₀.id = card.id ∧ card₀.owner = card.owner ∧
      card₀.location = card.location := by
  unfold place? at h
  rw [hcard] at h
  obtain ⟨card₀, hcard₀, heq⟩ := Option.map_eq_some_iff.mp h.symm
  obtain ⟨hid, hplace⟩ := Prod.mk.inj heq
  exact ⟨card₀, hcard₀, hid, (Prod.mk.inj hplace).1, (Prod.mk.inj hplace).2⟩

/-- What has a place is a card. -/
theorem card?_isSome_of_place? (h : b'.place? c = b.place? c) :
    (b'.card? c).isSome = (b.card? c).isSome := by
  have hsame := congrArg Option.isSome h
  simpa only [place?, Option.isSome_map] using hsame

/-- What is tested of a card's location is tested of its place. -/
theorem cardIs_of_place? (h : b'.place? c = b.place? c) (test : Location → Bool) :
    b'.cardIs c (fun card => test card.location) = b.cardIs c fun card => test card.location := by
  have hsame := congrArg (Option.any fun place => test place.2.2) h
  simpa [place?, cardIs, Option.any_map] using hsame

theorem Still.belongs (h : b.Still b') (c : CardId) (o : PlayerId) (l : Location) :
    b'.belongs c o l = b.belongs c o l := by
  have hsame := congrArg (Option.any fun place =>
    place.2.2 = l && (l = .playArea || place.2.1 = o)) (h.places c)
  simpa [place?, Board.belongs, cardIs, Option.any_map] using hsame

theorem Still.player? (h : b.Still b') {p : PlayerId} (hp : (b'.player? p).isSome) :
    (b.player? p).isSome := by
  have hmem : ∀ b : Board, (b.player? p).isSome ↔ p ∈ b.players.map (·.id) := by
    intro b
    unfold Board.player?
    rw [List.find?_isSome]
    simp
  rw [hmem, h.players, ← hmem] at hp
  exact hp

/-- What moves nothing leaves the board tidy. -/
theorem Tidy.still (h : b.Tidy) (hstill : b.Still b') : b'.Tidy := by
  have hzones : ∀ p, b'.privateZones? p = b.privateZones? p := fun p => by
    rw [privateZones?, hstill.privateZones, privateZones?]
  refine ⟨fun o l z hz c => ?_, fun c card hcard => ?_, fun p hp => ?_, ?_, fun c card hcard => ?_,
    fun c card hcard => ?_⟩
  · rw [hstill.zone?] at hz
    rw [h.tally o l z hz c, hstill.belongs]
  · obtain ⟨card₀, hcard₀, -, ho, -⟩ := card?_of_place? (hstill.places c) hcard
    rw [hzones, ← ho]
    exact h.homes c card₀ hcard₀
  · rw [hzones]
    exact h.players p (hstill.player? hp)
  · rw [hstill.privateZones]
    exact h.seats
  · obtain ⟨card₀, hcard₀, hid, -⟩ := card?_of_place? (hstill.places c) hcard
    rw [← hid]
    exact h.ids c card₀ hcard₀
  · obtain ⟨card₀, hcard₀, -⟩ := card?_of_place? (hstill.places c) hcard
    rw [hstill.nextNumber]
    exact h.fresh c card₀ hcard₀

/-! ## Moves -/

theorem card?_moved_other {c' : CardId} (h : c ≠ c') (b : Board) (card : Card)
    (destination : Location) : (b.moved c card destination).card? c' = b.card? c' :=
  IdMap.get?_modify_of_ne _ h _

/-- A zone that a card leaves, or enters, or both. -/
def passed (z : Zone) (c : CardId) (leaves enters : Prop) [Decidable leaves] [Decidable enters] :
    Zone :=
  let z := if leaves then z.remove c else z
  if enters then z.add c else z

theorem count_passed (z : Zone) (c c' : CardId) (leaves enters : Prop) [Decidable leaves]
    [Decidable enters] (hlisted : leaves → c ∈ z.cards) :
    (passed z c leaves enters).cards.count c' + (if leaves ∧ c' = c then 1 else 0) =
      z.cards.count c' + if enters ∧ c' = c then 1 else 0 := by
  have hremove : leaves → (z.remove c).cards.count c' + (if c' = c then 1 else 0) =
      z.cards.count c' := by
    intro hleaves
    by_cases hc : c' = c
    · subst hc
      have hpos := List.count_pos_iff.mpr (hlisted hleaves)
      simp only [Zone.remove, List.count_erase_self, if_true]
      omega
    · simp [Zone.remove, List.count_erase_of_ne hc, hc]
  have hadd : ∀ z : Zone,
      (z.add c).cards.count c' = z.cards.count c' + if c' = c then 1 else 0 := by
    intro z
    by_cases hc : c' = c
    · simp [Zone.add, hc]
    · simp [Zone.add, hc, Ne.symm hc]
  unfold passed
  by_cases hleaves : leaves <;> by_cases henters : enters <;>
    simp only [hleaves, henters, if_true, if_false, true_and, false_and, hadd]
  · have := hremove hleaves
    omega
  · exact hremove hleaves
  · omega

/-- A zone that a card leaves or enters, as the card belongs there before and after, still lists
each card as often as it belongs there. -/
theorem Tidy.tally_passed (h : b.Tidy) {o : PlayerId} {l : Location} {leaves enters : Prop}
    [Decidable leaves] [Decidable enters] (hleaves : b.belongs c o l = decide leaves)
    (hbelongs : ∀ c', b'.belongs c' o l = if c' = c then decide enters else b.belongs c' o l)
    (hzone : b'.zone? o l = (b.zone? o l).map (passed · c leaves enters)) {z : Zone}
    (hz : b'.zone? o l = some z) (c' : CardId) :
    z.cards.count c' = if b'.belongs c' o l then 1 else 0 := by
  rw [hzone] at hz
  obtain ⟨z₀, hz₀, rfl⟩ := Option.map_eq_some_iff.mp hz
  have hbefore := h.tally o l z₀ hz₀ c
  rw [hleaves] at hbefore
  have hcount := count_passed z₀ c c' leaves enters fun hleaves => by
    rw [if_pos (decide_eq_true hleaves)] at hbefore
    exact List.count_pos_iff.mp (by omega)
  rw [hbelongs]
  by_cases hc : c' = c
  · subst hc
    rw [hbefore] at hcount
    simp only [and_true, if_true, decide_eq_true_eq] at hcount ⊢
    omega
  · simp only [hc, and_false, if_false, Nat.add_zero] at hcount ⊢
    rw [hcount, h.tally o l z₀ hz₀ c']

/-- A move takes the card out of the zone that it leaves and puts it into the one that it enters. -/
theorem zone?_moved (b : Board) (c : CardId) (card : Card) (destination : Location) (o : PlayerId)
    (l : Location) :
    (b.moved c card destination).zone? o l = (b.zone? o l).map
      (passed · c (card.location = l ∧ (l = .playArea ∨ card.owner = o))
        (destination = l ∧ (l = .playArea ∨ card.owner = o))) := by
  show ((b.modifyZone card.owner (·.remove c) card.location).modifyZone card.owner (·.add c)
    destination).zone? o l = _
  rw [zone?_modifyZone_any, zone?_modifyZone_any]
  unfold passed
  split <;> split <;> cases b.zone? o l <;> rfl

theorem owners_moved (b : Board) (c : CardId) (card : Card) (destination : Location) :
    (b.moved c card destination).privateZones.map (·.1) = b.privateZones.map (·.1) :=
  (owners_modifyZone _ _ _ _).trans (owners_modifyZone _ _ _ _)

/-- A card that moves belongs where it goes, and all others where they did. -/
theorem belongs_moved (hcard : b.card? c = some card) (destination : Location) (c' : CardId)
    (o : PlayerId) (l : Location) : (b.moved c card destination).belongs c' o l =
      if c' = c then decide (destination = l ∧ (l = .playArea ∨ card.owner = o))
      else b.belongs c' o l := by
  by_cases hc : c' = c
  · subst hc
    rw [if_pos rfl, belongs_of_card? (card?_moved hcard)]
    rfl
  · rw [if_neg hc, belongs, cardIs, card?_moved_other (Ne.symm hc)]
    rfl

/-- A move leaves the board tidy. -/
theorem Tidy.moved (h : b.Tidy) (hcard : b.card? c = some card) (destination : Location) :
    (b.moved c card destination).Tidy := by
  have howners := b.owners_moved c card destination
  have hcards : ∀ {c' card'}, (b.moved c card destination).card? c' = some card' →
      ∃ card₀, b.card? c' = some card₀ ∧ card₀.id = card'.id ∧ card₀.owner = card'.owner := by
    intro c' card' hcard'
    by_cases hc : c = c'
    · subst hc
      rw [card?_moved hcard] at hcard'
      obtain rfl := Option.some.inj hcard'
      exact ⟨card, hcard, rfl, rfl⟩
    · rw [card?_moved_other hc] at hcard'
      exact ⟨card', hcard', rfl, rfl⟩
  refine ⟨fun o l z hz c' => ?_, fun c' card' hcard' => ?_, fun p hp => ?_, ?_,
    fun c' card' hcard' => ?_, fun c' card' hcard' => ?_⟩
  · exact h.tally_passed (belongs_of_card? hcard o l) (belongs_moved hcard destination · o l)
      (zone?_moved b c card destination o l) hz c'
  · obtain ⟨card₀, hcard₀, -, ho⟩ := hcards hcard'
    rw [← ho]
    exact privateZones?_isSome_of_owners howners (h.homes c' card₀ hcard₀)
  · refine privateZones?_isSome_of_owners howners (h.players p ?_)
    have hplayers : (b.moved c card destination).players = b.players := by
      simp [Board.moved]
    rwa [Board.player?, hplayers] at hp
  · rw [howners]
    exact h.seats
  · obtain ⟨card₀, hcard₀, hid, -⟩ := hcards hcard'
    rw [← hid]
    exact h.ids c' card₀ hcard₀
  · obtain ⟨card₀, hcard₀, -⟩ := hcards hcard'
    have hnext : (b.moved c card destination).nextNumber = b.nextNumber := by
      show ((b.modifyZone _ _ _).modifyZone _ _ _).nextNumber = _
      cases destination <;> cases card.location <;> rfl
    rw [hnext]
    exact h.fresh c' card₀ hcard₀

/-- Whatever play does to a tidy board leaves it tidy. -/
theorem Tidy.stirs (h : b.Tidy) (hstirs : b.Stirs b') : b'.Tidy := by
  induction hstirs with
  | refl => exact h
  | tail _ hstir ih =>
    cases hstir with
    | still hstill _ => exact ih.still hstill
    | moved hcard _ destination => exact ih.moved hcard destination

/-! ## Setting up -/

/-- The board with a new card. -/
def created (b : Board) (owner : PlayerId) (title : String) (type : CardType)
    (location : Location) : Board :=
  let c : CardId := ⟨b.nextNumber⟩
  { b with
    cards := b.cards.insert c { Card.new c title type owner with location := location }
    nextNumber := b.nextNumber + 1 }.modifyZone owner (·.add c) location

theorem createCard_ends (b : Board) (owner : PlayerId) (title : String) (type : CardType)
    (location : Location) : (createCard owner title type location).ends b =
      (.ok ⟨b.nextNumber⟩, b.created owner title type location) := rfl

/-- How a board is set up: cards are created for players of the game, and all else is arranged
without moving a card. -/
inductive SetUp (b : Board) : Board → Prop where
  | created {owner : PlayerId} (howner : (b.player? owner).isSome) (title : String)
      (type : CardType) (location : Location) :
    SetUp b ((createCard owner title type location).ends b).2
  | arranged {b' : Board} (h : b.Still b') : SetUp b b'

theorem card?_created (b : Board) (owner : PlayerId) (title : String) (type : CardType)
    (location : Location) (c : CardId) : (b.created owner title type location).card? c =
      if c = ⟨b.nextNumber⟩ then
        some { Card.new ⟨b.nextNumber⟩ title type owner with location := location }
      else b.card? c := by
  unfold Board.card? created
  rw [cards_modifyZone, IdMap.get?_insert]
  simp only [eq_comm]

/-- A new card enters one zone. -/
theorem zone?_created (b : Board) (owner : PlayerId) (title : String) (type : CardType)
    (location : Location) (o : PlayerId) (l : Location) :
    (b.created owner title type location).zone? o l = (b.zone? o l).map
      (passed · ⟨b.nextNumber⟩ False (location = l ∧ (l = .playArea ∨ owner = o))) := by
  unfold Board.created
  rw [zone?_modifyZone_any]
  have hzone : ∀ (cards : IdMap .card Card) (n : Nat),
      ({ b with cards := cards, nextNumber := n } : Board).zone? o l = b.zone? o l := by
    intro cards n
    cases l <;> rfl
  rw [hzone]
  unfold passed
  simp only [if_false]
  split <;> cases b.zone? o l <;> rfl

/-- A new card belongs where it is created, and all others where they did. -/
theorem belongs_created (b : Board) (owner : PlayerId) (title : String) (type : CardType)
    (location : Location) (c : CardId) (o : PlayerId) (l : Location) :
    (b.created owner title type location).belongs c o l =
      if c = ⟨b.nextNumber⟩ then decide (location = l ∧ (l = .playArea ∨ owner = o))
      else b.belongs c o l := by
  unfold belongs cardIs
  rw [card?_created]
  split
  · simp [Card.new]
  · rfl

/-- No card has the next number. -/
theorem Tidy.card?_next (h : b.Tidy) : b.card? ⟨b.nextNumber⟩ = none := by
  cases hcard : b.card? ⟨b.nextNumber⟩ with
  | none => rfl
  | some card => exact absurd (h.fresh _ card hcard) (Nat.lt_irrefl _)

/-- A new card of a player leaves the board tidy. -/
theorem Tidy.created (h : b.Tidy) {owner : PlayerId} (howner : (b.player? owner).isSome)
    (title : String) (type : CardType) (location : Location) :
    (b.created owner title type location).Tidy := by
  have howners : (b.created owner title type location).privateZones.map (·.1) =
      b.privateZones.map (·.1) := owners_modifyZone _ _ _ _
  have hhomes : ∀ {p}, (b.privateZones? p).isSome →
      ((b.created owner title type location).privateZones? p).isSome :=
    privateZones?_isSome_of_owners howners
  refine ⟨fun o l z hz c => ?_, fun c card hcard => ?_, fun p hp => hhomes (h.players p ?_), ?_,
    fun c card hcard => ?_, fun c card hcard => ?_⟩
  · have hnew : b.belongs ⟨b.nextNumber⟩ o l = decide False := belongs_none h.card?_next o l
    exact h.tally_passed hnew (b.belongs_created owner title type location · o l)
      (b.zone?_created owner title type location o l) hz c
  · rw [card?_created] at hcard
    split at hcard
    · obtain rfl := Option.some.inj hcard
      exact hhomes (h.players owner howner)
    · exact hhomes (h.homes c card hcard)
  · have hplayers : (b.created owner title type location).players = b.players := by
      simp [Board.created]
    rwa [Board.player?, hplayers] at hp
  · rw [howners]
    exact h.seats
  · rw [card?_created] at hcard
    split at hcard
    · rename_i hc
      rw [hc, ← Option.some.inj hcard]
      rfl
    · exact h.ids c card hcard
  · have hnext : (b.created owner title type location).nextNumber = b.nextNumber + 1 := by
      unfold Board.created
      cases location <;> rfl
    rw [hnext]
    rw [card?_created] at hcard
    split at hcard
    · rename_i hc
      rw [hc]
      exact Nat.lt_succ_self _
    · exact Nat.lt_succ_of_lt (h.fresh c card hcard)

/-- Setting up moves no card that is there already. -/
theorem SetUp.place? (h : b.SetUp b') (htidy : b.Tidy) (hcard : (b.card? c).isSome) :
    b'.place? c = b.place? c := by
  cases h with
  | @created owner howner title type location =>
    -- The number of the new card is no card's yet.
    have hold : c ≠ ⟨b.nextNumber⟩ := by
      rintro rfl
      rw [htidy.card?_next] at hcard
      simp at hcard
    rw [createCard_ends]
    dsimp only
    rw [Board.place?, card?_created, if_neg hold, Board.place?]
  | arranged hstill => exact hstill.places c

/-- Setting up leaves the board tidy. -/
theorem Tidy.setUp (h : b.Tidy) (hsetUp : b.SetUp b') : b'.Tidy := by
  cases hsetUp with
  | created howner title type location => exact h.created howner title type location
  | arranged hstill => exact h.still hstill

/-- A new game is tidy: there are no cards. -/
theorem tidy_twoPlayer (first second : String) (ghostRock : Nat) :
    (twoPlayer first second ghostRock).Tidy := by
  have hnone : ∀ c, (twoPlayer first second ghostRock).card? c = none := fun c =>
    IdMap.get?_empty c
  have hzones : ∀ p, (twoPlayer first second ghostRock).privateZones? p =
      if p = ⟨0⟩ then some (.new ⟨0⟩) else if p = ⟨1⟩ then some (.new ⟨1⟩) else none := by
    intro p
    by_cases h0 : p = ⟨0⟩
    · subst h0
      rfl
    · by_cases h1 : p = ⟨1⟩
      · subst h1
        rfl
      · simp [privateZones?, twoPlayer, Ne.symm h0, Ne.symm h1, h0, h1]
  have hcards : ∀ c card, (twoPlayer first second ghostRock).card? c ≠ some card := by
    intro c card h
    simp [hnone] at h
  refine ⟨fun o l z hz c => ?_, fun c card h => absurd h (hcards c card), fun p hp => ?_,
    by simp [twoPlayer], fun c card h => absurd h (hcards c card),
    fun c card h => absurd h (hcards c card)⟩
  · -- No zone lists anything.
    rw [belongs_none (hnone c)]
    have hempty : z.cards = [] := by
      by_cases hl : l = .playArea
      · subst hl
        exact (Option.some.inj hz) ▸ rfl
      · rw [zone?_private _ o hl, hzones] at hz
        split at hz
        · cases l <;> first | exact absurd rfl hl | exact (Option.some.inj hz) ▸ rfl
        · split at hz
          · cases l <;> first | exact absurd rfl hl | exact (Option.some.inj hz) ▸ rfl
          · simp at hz
    simp [hempty]
  · rw [hzones]
    by_cases h0 : p = ⟨0⟩
    · simp [h0]
    · by_cases h1 : p = ⟨1⟩
      · simp [h1]
      · simp [player?, twoPlayer, Player.new, Ne.symm h0, Ne.symm h1] at hp

/-! ## What zones list -/

/-- Of lists of which only that of one owner lists a card, and once, all together list it once. -/
theorem count_flatMap_of_owner {o : PlayerId} {lists : PlayerId × PrivateZones → List CardId} :
    ∀ {zones : List (PlayerId × PrivateZones)}, (zones.map (·.1)).Nodup →
      (∀ z ∈ zones, (lists z).count c = if z.1 = o then 1 else 0) →
      (zones.flatMap lists).count c = if o ∈ zones.map (·.1) then 1 else 0
  | [], _, _ => by simp
  | z :: rest, hnodup, hcount => by
    obtain ⟨hnot, hnodup⟩ := List.nodup_cons.mp hnodup
    have ih := count_flatMap_of_owner hnodup fun z' hz' => hcount z' (List.mem_cons_of_mem _ hz')
    have hz := hcount z List.mem_cons_self
    rw [List.flatMap_cons, List.count_append, hz, ih, List.map_cons]
    by_cases ho : z.1 = o
    · subst ho
      simp [hnot]
    · rw [if_neg ho, Nat.zero_add]
      exact if_congr (by simp [Ne.symm ho]) rfl rfl

/-- Of private zones that are kept once for each player those in the list are found. -/
theorem Tidy.privateZones?_eq (h : b.Tidy) {o : PlayerId} {z : PrivateZones}
    (hz : (o, z) ∈ b.privateZones) : b.privateZones? o = some z := by
  unfold Board.privateZones?
  cases hfind : b.privateZones.find? (·.1 = o) with
  | none => simpa using List.find?_eq_none.mp hfind (o, z) hz
  | some z' =>
    have ho : z'.1 = o := by simpa using List.find?_some hfind
    rw [List.inj_on_of_nodup_map h.seats (List.mem_of_find?_eq_some hfind) hz ho]
    rfl

/-- The cards at a location are those whose location it is, each listed once. -/
theorem Tidy.count_cardsIn (h : b.Tidy) (l : Location) (c : CardId) :
    (b.cardsIn l).count c = if b.cardIs c (·.location = l) then 1 else 0 := by
  by_cases hl : l = .playArea
  · subst hl
    have hcount := h.tally ⟨0⟩ .playArea b.playArea rfl c
    show b.playArea.cards.count c = _
    simpa [belongs] using hcount
  · have hcards : b.cardsIn l =
        b.privateZones.flatMap fun z => (z.2.at? l).elim [] (·.cards) := by
      cases l <;> first | exact absurd rfl hl | rfl
    have hcount : ∀ z ∈ b.privateZones, ((z.2.at? l).elim [] (·.cards)).count c =
        if b.belongs c z.1 l then 1 else 0 := by
      rintro ⟨o, z⟩ hz
      have hfound := h.privateZones?_eq hz
      obtain ⟨zone, hzone⟩ : ∃ zone, z.at? l = some zone := by
        cases l <;> first | exact absurd rfl hl | exact ⟨_, rfl⟩
      have hzone' : b.zone? o l = some zone := by
        rw [zone?_private b o hl, hfound]
        exact hzone
      rw [hzone]
      exact h.tally o l zone hzone' c
    rw [hcards]
    -- Only its owner's zone can list a card, and its owner has zones.
    cases hcard : b.card? c with
    | none =>
      simp only [belongs_none hcard] at hcount
      simp only [cardIs, hcard, Option.any_none]
      refine List.count_eq_zero.mpr fun hmem => ?_
      obtain ⟨z, hz, hmem⟩ := List.mem_flatMap.mp hmem
      exact List.count_eq_zero.mp (hcount z hz) hmem
    | some card =>
      simp only [belongs_of_card? hcard, hl, false_or, decide_eq_true_eq] at hcount
      simp only [cardIs, hcard, Option.any_some, decide_eq_true_eq]
      by_cases hlocation : card.location = l
      · simp only [hlocation, true_and, eq_comm (a := card.owner)] at hcount
        rw [count_flatMap_of_owner h.seats hcount,
          if_pos (privateZones?_isSome_iff.mp (h.homes c card hcard)), if_pos hlocation]
      · rw [if_neg hlocation]
        refine List.count_eq_zero.mpr fun hmem => ?_
        obtain ⟨z, hz, hmem⟩ := List.mem_flatMap.mp hmem
        refine List.count_eq_zero.mp ?_ hmem
        rw [hcount z hz, if_neg fun heq => hlocation heq.1]

/-- All cards are listed once, each in the zone of its owner at its location, and nothing else is
listed. -/
structure Conserved (b : Board) : Prop where
  /-- Cards are filed under their own numbers. -/
  filed : ∀ c card, b.card? c = some card → card.id = c
  /-- All zones together list each card once. -/
  once : ∀ c card, b.card? c = some card → b.listings.count c = 1
  /-- So does its owner's zone at its location. -/
  home : ∀ c card, b.card? c = some card →
    ∃ z, b.zone? card.owner card.location = some z ∧ z.cards.count c = 1
  /-- What is listed is a card. -/
  known : ∀ c ∈ b.listings, (b.card? c).isSome
  /-- The cards at a location are those whose location it is, each once. -/
  located : ∀ l c, (b.cardsIn l).count c = if b.cardIs c (·.location = l) then 1 else 0

/-- On a tidy board all cards are listed once and nothing else is. -/
theorem Tidy.conserved (h : b.Tidy) : b.Conserved where
  filed := h.ids
  once c card hcard := by
    have hcount : ∀ l, (b.cardsIn l).count c = if card.location = l then 1 else 0 := by
      intro l
      rw [h.count_cardsIn l c]
      simp [cardIs, hcard]
    simp only [listings, Location.all, List.flatMap_cons, List.flatMap_nil, List.count_append,
      hcount, List.count_nil]
    cases card.location <;> rfl
  home c card hcard := by
    have hzone : (b.zone? card.owner card.location).isSome := by
      by_cases hl : card.location = .playArea
      · rw [hl]
        rfl
      · exact zone?_isSome (h.homes c card hcard) hl
    obtain ⟨z, hz⟩ := Option.isSome_iff_exists.mp hzone
    refine ⟨z, hz, ?_⟩
    rw [h.tally _ _ z hz c, belongs_of_card? hcard]
    simp
  known c hmem := by
    obtain ⟨l, -, hl⟩ := List.mem_flatMap.mp hmem
    have hcount := List.count_pos_iff.mpr hl
    rw [h.count_cardsIn l c] at hcount
    cases hcard : b.card? c with
    | some card => rfl
    | none => simp [cardIs, hcard] at hcount
  located := h.count_cardsIn

/-- A tidy board is consistent, so a payment that fails on it is reverted as far as can be. -/
theorem Tidy.consistent (h : b.Tidy) : b.Consistent where
  listed := h.conserved.home
  unlisted c card hcard o l z hz hmem := by
    have hcount := List.count_pos_iff.mpr hmem
    rw [h.tally o l z hz c, belongs_of_card? hcard] at hcount
    by_cases hbelongs : card.location = l ∧ (l = .playArea ∨ card.owner = o)
    · exact ⟨hbelongs.1.symm, fun hl => (hbelongs.2.resolve_left hl).symm⟩
    · simp [hbelongs] at hcount

/-! ## In the shootout or the town square -/

/-- Only cards in play are in the shootout or the town square. -/
def AfieldInPlay (b : Board) : Prop :=
  ∀ c, b.isAfield c → b.cardIs c (·.location = .playArea)

/-- Whoever is taken out of a shootout is in it no more, and the others are in it as before. -/
theorem contains_remove (s : Shootout) (c c' : CardId) :
    (s.remove c).contains c' = (s.contains c' && decide (c' ≠ c)) := by
  by_cases hc : c' = c <;> simp [Shootout.contains, Shootout.remove, hc]

/-- After a move those are in the shootout or the town square who were there before, but for a card
that has left the play area. -/
theorem isAfield_of_moved (hcard : b.card? c = some card) {destination : Location} {c' : CardId}
    (h : (b.moved c card destination).isAfield c') :
    b.isAfield c' ∧ (c' = c → ¬Leaves card.location destination) := by
  rcases (Bool.or_eq_true _ _).mp h with hpart | htown
  · have hshootout : (b.moved c card destination).shootout =
        if Leaves card.location destination then b.shootout.map (·.remove c) else b.shootout := rfl
    unfold isParticipating at hpart
    rw [hshootout] at hpart
    by_cases hleaves : Leaves card.location destination
    · rw [if_pos hleaves, Option.any_map] at hpart
      obtain ⟨s, hs, hin⟩ := (Option.any_eq_true _ _).mp hpart
      simp only [contains_remove, Bool.and_eq_true, decide_eq_true_eq] at hin
      exact ⟨by simp [isAfield, isParticipating, hs, hin.1], fun hc => absurd hc hin.2⟩
    · rw [if_neg hleaves] at hpart
      exact ⟨by simp [isAfield, isParticipating, hpart], fun _ => hleaves⟩
  · by_cases hc : c' = c
    · subst hc
      rw [cardIs, card?_moved hcard] at htown
      have htown' : (card.inTownSquare && !decide (Leaves card.location destination)) = true :=
        htown
      rw [Bool.and_eq_true, Bool.not_eq_true', decide_eq_false_iff_not] at htown'
      exact ⟨by simp [isAfield, cardIs, hcard, htown'.1], fun _ => htown'.2⟩
    · rw [cardIs, card?_moved_other (Ne.symm hc)] at htown
      exact ⟨by simp [isAfield, cardIs, htown], fun heq => absurd heq hc⟩

/-- Play puts no card into the shootout or the town square, and leaves none there that leaves
play. -/
theorem AfieldInPlay.stirs (h : b.AfieldInPlay) (hstirs : b.Stirs b') : b'.AfieldInPlay := by
  induction hstirs with
  | refl => exact h
  | tail _ hstir ih =>
    intro c' hafield
    cases hstir with
    | still hstill hout =>
      have hsame := cardIs_of_place? (hstill.places c') (· = .playArea)
      rw [hsame]
      exact ih c' (hout c' hafield)
    | @moved c card hcard _ destination =>
      obtain ⟨hbefore, hstays⟩ := isAfield_of_moved hcard hafield
      have hplay := ih c' hbefore
      by_cases hc : c' = c
      · subst hc
        simp only [cardIs, hcard, Option.any_some, decide_eq_true_eq] at hplay
        have hdestination : destination = .playArea := by
          by_contra hne
          exact hstays rfl ⟨hplay, hne⟩
        rw [cardIs, card?_moved hcard]
        simp [arrived, hdestination]
      · rw [cardIs, card?_moved_other (Ne.symm hc)]
        exact hplay

/-- A new card is neither in the shootout nor in the town square. -/
theorem isAfield_of_created {owner : PlayerId} {title : String} {type : CardType}
    {location : Location} (h : (b.created owner title type location).isAfield c) :
    b.isAfield c := by
  have hshootout : (b.created owner title type location).shootout = b.shootout := by
    unfold created
    cases location <;> rfl
  rcases (Bool.or_eq_true _ _).mp h with hpart | htown
  · rw [isParticipating, hshootout] at hpart
    exact (Bool.or_eq_true _ _).mpr (.inl hpart)
  · rw [cardIs, card?_created] at htown
    split at htown
    · simp [Card.new] at htown
    · exact (Bool.or_eq_true _ _).mpr (.inr htown)

/-- A new game has nobody in a shootout or in the town square. -/
theorem afieldInPlay_twoPlayer (first second : String) (ghostRock : Nat) :
    (twoPlayer first second ghostRock).AfieldInPlay := by
  intro c hafield
  have hnone : (twoPlayer first second ghostRock).card? c = none := IdMap.get?_empty c
  have hnobody : (twoPlayer first second ghostRock).isParticipating c = false := rfl
  rw [isAfield, hnobody, cardIs, hnone] at hafield
  simp at hafield

end Doomtown.Board
