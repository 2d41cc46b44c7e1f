import Doomtown.Board.Move
import Doomtown.Proofs.Play

/-!
# Moves on the board, by their effect

Changes of zones compose and commute (`modifyZone`), and each move of `Doomtown.Board.Move` is
given by the board that it leaves: `Board.moved` for a card that its zone lists, the board itself
for a move that fails. `Board.Consistent` is what the moves rely on: each card is listed once, in
the zone of its owner at its location.
-/

namespace Doomtown

/-! ## Changing the first item -/

section ModifyFirst

variable {α : Type} {p : α → Bool} {f g : α → α} {l : List α}

/-- The first item that passes the test is the changed one, if changing keeps the test. -/
theorem find?_modifyFirst (hf : ∀ a, p (f a) = p a) :
    (modifyFirst p f l).find? p = (l.find? p).map f := by
  induction l with
  | nil => rfl
  | cons a rest ih => by_cases h : p a <;> simp [modifyFirst, h, hf, ih]

/-- Two changes in a row are one change. -/
theorem modifyFirst_modifyFirst (hf : ∀ a, p (f a) = p a) :
    modifyFirst p g (modifyFirst p f l) = modifyFirst p (g ∘ f) l := by
  induction l with
  | nil => rfl
  | cons a rest ih => by_cases h : p a <;> simp [modifyFirst, h, hf, ih]

/-- Only the change of the first item that passes the test matters. -/
theorem modifyFirst_congr (h : ∀ a, l.find? p = some a → f a = g a) :
    modifyFirst p f l = modifyFirst p g l := by
  induction l with
  | nil => rfl
  | cons a rest ih =>
    by_cases ha : p a
    · simp [modifyFirst, ha, h a (by simp [ha])]
    · have hrest := ih fun b hb => h b (by simpa [ha] using hb)
      simp [modifyFirst, ha, hrest]

/-- The first item that passes the test is changed in its place. -/
theorem modifyFirst_append {before behind : List α} {a : α} (hbefore : ∀ b ∈ before, p b = false)
    (ha : p a = true) : modifyFirst p f (before ++ a :: behind) = before ++ f a :: behind := by
  induction before with
  | nil => simp [modifyFirst, ha]
  | cons b before ih =>
    have hb := hbefore b List.mem_cons_self
    have hrest := ih fun c hc => hbefore c (.tail _ hc)
    simp [modifyFirst, hb, hrest]

/-- A change that leaves the first item as it is changes nothing. -/
theorem modifyFirst_eq_self (h : ∀ a, l.find? p = some a → f a = a) : modifyFirst p f l = l := by
  have hid : modifyFirst p id l = l := by
    induction l with
    | nil => rfl
    | cons a rest ih =>
      by_cases ha : p a
      · simp [modifyFirst, ha]
      · simp [modifyFirst, ha, ih fun b hb => h b (by simpa [ha] using hb)]
  rw [modifyFirst_congr (f := f) (g := id) h, hid]

end ModifyFirst

namespace PrivateZones

theorem modify_modify (z : PrivateZones) (f g : Zone → Zone) (l : Location) :
    (z.modify f l).modify g l = z.modify (g ∘ f) l := by
  cases l <;> rfl

/-- A change that leaves the zone at the location as it is changes nothing. -/
theorem modify_eq_self (z : PrivateZones) {f : Zone → Zone} {l : Location}
    (h : ∀ zone, z.at? l = some zone → f zone = zone) : z.modify f l = z := by
  cases l <;> simp [modify, at?] at h ⊢ <;> rw [h]

end PrivateZones

namespace Board

/-! ## Changing zones -/

/-- The play area changes by itself. -/
theorem modifyZone_playArea (b : Board) (o : PlayerId) (f : Zone → Zone) :
    b.modifyZone o f .playArea = { b with playArea := f b.playArea } := rfl

/-- A private zone changes within its owner's zones. -/
theorem modifyZone_private (b : Board) (o : PlayerId) (f : Zone → Zone) {l : Location}
    (h : l ≠ .playArea) : b.modifyZone o f l = { b with
      privateZones := modifyFirst (·.1 = o) (fun z => (z.1, z.2.modify f l)) b.privateZones } := by
  cases l <;> first | rfl | exact absurd rfl h

theorem zone?_private (b : Board) (o : PlayerId) {l : Location} (h : l ≠ .playArea) :
    b.zone? o l = (b.privateZones? o).bind (·.at? l) := by
  cases l <;> first | rfl | exact absurd rfl h

theorem privateZones?_modifyZone (b : Board) (o : PlayerId) (f : Zone → Zone) (l : Location) :
    (b.modifyZone o f l).privateZones? o = (b.privateZones? o).map (·.modify f l) := by
  by_cases h : l = .playArea
  · subst h
    show b.privateZones? o = _
    rcases b.privateZones? o with - | z <;> rfl
  · rw [modifyZone_private b o f h]
    have hfind := find?_modifyFirst (p := fun z => decide (z.1 = o))
      (f := fun z : PlayerId × PrivateZones => (z.1, z.2.modify f l)) (l := b.privateZones)
      fun _ => rfl
    simp only [privateZones?, hfind, Option.map_map]
    rfl

/-- Changing a zone of an owner changes what is found there and nowhere else. -/
theorem zone?_modifyZone (b : Board) (o : PlayerId) (f : Zone → Zone) (l l' : Location) :
    (b.modifyZone o f l).zone? o l' = if l = l' then (b.zone? o l').map f else b.zone? o l' := by
  by_cases h' : l' = .playArea
  · subst h'
    by_cases h : l = .playArea
    · subst h
      rfl
    · rw [modifyZone_private b o f h, if_neg h]
      rfl
  · rw [zone?_private _ o h', zone?_private _ o h', privateZones?_modifyZone]
    rcases b.privateZones? o with - | z
    · simp
    · simp [PrivateZones.at?_modify]

/-- Two changes of one zone are one change. -/
theorem modifyZone_modifyZone (b : Board) (o : PlayerId) (f g : Zone → Zone) (l : Location) :
    (b.modifyZone o f l).modifyZone o g l = b.modifyZone o (g ∘ f) l := by
  by_cases h : l = .playArea
  · subst h
    rfl
  · have htwice := modifyFirst_modifyFirst (p := fun z => decide (z.1 = o))
      (f := fun z : PlayerId × PrivateZones => (z.1, z.2.modify f l))
      (g := fun z : PlayerId × PrivateZones => (z.1, z.2.modify g l)) (l := b.privateZones)
      fun _ => rfl
    simp only [modifyZone_private _ _ _ h, htwice]
    simp [Function.comp_def, PrivateZones.modify_modify]

/-- A change that leaves the zone as it is changes nothing. -/
theorem modifyZone_eq_self (b : Board) {o : PlayerId} {f : Zone → Zone} {l : Location}
    (h : ∀ z, b.zone? o l = some z → f z = z) : b.modifyZone o f l = b := by
  by_cases hl : l = .playArea
  · subst hl
    rw [modifyZone_playArea, h b.playArea rfl]
  · -- Only the first zones that are listed for the owner change, and these are the ones found.
    rw [modifyZone_private b o f hl, modifyFirst_eq_self]
    rintro ⟨o', z⟩ hz
    have ho : o' = o := by simpa using List.find?_some hz
    subst ho
    rw [PrivateZones.modify_eq_self]
    intro zone hzone
    refine h zone ?_
    rw [zone?_private b o' hl]
    simp [privateZones?, hz, hzone]

@[simp] theorem cards_modifyZone (b : Board) (o : PlayerId) (f : Zone → Zone) (l : Location) :
    (b.modifyZone o f l).cards = b.cards := by
  cases l <;> rfl

@[simp] theorem shootout_modifyZone (b : Board) (o : PlayerId) (f : Zone → Zone) (l : Location) :
    (b.modifyZone o f l).shootout = b.shootout := by
  cases l <;> rfl

@[simp] theorem players_modifyZone (b : Board) (o : PlayerId) (f : Zone → Zone) (l : Location) :
    (b.modifyZone o f l).players = b.players := by
  cases l <;> rfl

/-- Zones change apart from cards and the shootout. -/
theorem modifyZone_with (b : Board) (cards : IdMap .card Card) (shootout : Option Shootout)
    (o : PlayerId) (f : Zone → Zone) (l : Location) :
    { b with cards := cards, shootout := shootout }.modifyZone o f l =
      { b.modifyZone o f l with cards := cards, shootout := shootout } := by
  cases l <;> rfl

/-! ## Cards and players -/

open Play

theorem getCard_ends {b : Board} {c : CardId} {card : Card} (h : b.card? c = some card) :
    (getCard c).ends b = (.ok card, b) := by
  unfold getCard
  simp [ends_bind, h]

/-- Changing a card that exists changes its entry. -/
theorem modifyCard_ends {b : Board} {c : CardId} {card : Card} (h : b.card? c = some card)
    (f : Card → Card) :
    (modifyCard c f).ends b = (.ok (), { b with cards := b.cards.modify c f }) := by
  unfold modifyCard
  simp [ends_bind, ends_discard, getCard_ends h, Except.map]

/-- Changing a player who exists changes the player's entry. -/
theorem modifyPlayer_ends {b : Board} {p : PlayerId} {player : Player}
    (h : b.player? p = some player) (f : Player → Player) :
    (modifyPlayer p f).ends b =
      (.ok (), { b with players := modifyFirst (·.id = p) f b.players }) := by
  unfold modifyPlayer getPlayer
  simp [ends_bind, ends_discard, h, Except.map]

/-- A payment that the player can afford is taken from the player's ghost rock. -/
theorem spend_ends {b : Board} {p : PlayerId} {player : Player} {amount : Nat}
    (h : b.player? p = some player) (hs : player.canSpend amount) :
    (spend p amount).ends b =
      (.ok (), { b with players := modifyFirst (·.id = p) (·.spend amount) b.players }) := by
  unfold spend getPlayer
  simp [ends_bind, h, hs, modifyPlayer_ends h]

/-! ## Moving a card -/

/-- Whether a move takes a card out of the play area. -/
def Leaves (origin destination : Location) : Prop :=
  origin = .playArea ∧ destination ≠ .playArea

instance (origin destination : Location) : Decidable (Leaves origin destination) :=
  inferInstanceAs (Decidable (_ ∧ _))

/-- A card that has come from one location to another. -/
def arrived (card : Card) (origin destination : Location) : Card :=
  { card with
    location := destination
    inTownSquare := card.inTownSquare && !decide (Leaves origin destination) }

/-- The board after a card has moved from its zone to the end of another one of its owner's. -/
def moved (b : Board) (c : CardId) (card : Card) (destination : Location) : Board :=
  { (b.modifyZone card.owner (·.remove c) card.location).modifyZone card.owner (·.add c)
      destination with
    cards := b.cards.modify c (arrived · card.location destination)
    shootout :=
      if Leaves card.location destination then b.shootout.map (·.remove c) else b.shootout }

/-- A move changes no players. -/
theorem players_moved (b : Board) (c : CardId) (card : Card) (l : Location) :
    (b.moved c card l).players = b.players := by
  simp [moved]

/-- Whether the zone of a card's owner at the card's location lists the card. -/
def lists (b : Board) (c : CardId) (card : Card) : Bool :=
  (b.zone? card.owner card.location).any (·.contains c)

/-- A card that its zone lists moves. -/
theorem moveCard_ends {b : Board} {c : CardId} {card : Card} {destination : Location}
    (h : b.card? c = some card) (hl : b.lists c card) :
    (moveCard c destination).ends b = (.ok card.location, b.moved c card destination) := by
  have hl' : (b.zone? card.owner card.location).any (·.contains c) = true := hl
  have hcard : ((b.modifyZone card.owner (·.remove c) card.location).modifyZone card.owner
      (·.add c) destination).card? c = some card := by
    simpa [card?] using h
  unfold moveCard
  simp only [ends_bind, getCard_ends h, ends_view, hl', ends_change, Bool.not_true,
    Bool.false_eq_true, if_false, modifyCard_ends hcard]
  -- The zones have changed; cards and shootout are those of the board before.
  generalize hb : (b.modifyZone card.owner (·.remove c) card.location).modifyZone card.owner
    (·.add c) destination = b' at hcard ⊢
  have hcards : b'.cards = b.cards := by rw [← hb]; simp
  have hshootout : b'.shootout = b.shootout := by rw [← hb]; simp
  unfold moved
  rw [hb, ← hcards, ← hshootout]
  by_cases hleave : Leaves card.location destination
  · -- Leaving the play area changes the card once more.
    have hcard' : ({ b' with cards := b'.cards.modify c ({ · with location := destination }) }
        |>.removeFromShootout c).card? c = some { card with location := destination } := by
      have hget : b'.cards.get? c = some card := hcard
      simp [removeFromShootout, card?, IdMap.get?_modify, hget]
    have hif : card.location = .playArea ∧ destination ≠ .playArea := hleave
    rw [if_pos hif, if_pos hleave, ends_bind_ok (ends_change _ _),
      ends_bind_ok (modifyCard_ends hcard' _)]
    simp [ends_bind, removeFromShootout, hleave, IdMap.modify_modify, Function.comp_def, arrived]
  · have hif : ¬(card.location = .playArea ∧ destination ≠ .playArea) := hleave
    rw [if_neg hif, if_neg hleave]
    simp [ends_bind, hleave, arrived]

/-- A card that its zone does not list stays, and the move fails. -/
theorem moveCard_unlisted {b : Board} {c : CardId} {card : Card} {destination : Location}
    (h : b.card? c = some card) (hl : b.lists c card = false) :
    (moveCard c destination).ends b = (.error (.refused (.notListed c card.location)), b) := by
  have hl' : Option.any (fun z => z.contains c) (b.zone? card.owner card.location) = false := hl
  unfold moveCard
  simp [ends_bind, getCard_ends h, hl']

end Board

end Doomtown
