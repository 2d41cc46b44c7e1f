import Doomtown.Payment
import Doomtown.Proofs.Board

/-!
# What a failed payment leaves behind

When a cost of a list cannot be paid, the costs before it are reverted, the latest first. A boot or
a payment of ghost rock is reverted without a trace. A move is reverted by a move, which puts the
card at the end of the zone that it came from and, if that is the play area, leaves it out of the
shootout and of the town square: `Board.resettled`. So a failed payment gives back the board exactly
if no cost that moves the source was paid, or if the source stands where such a move puts it
(`Payment.failed_payAll_restores_iff`).
-/

namespace Doomtown

open Play

namespace Board

/-! ## Consistent zones -/

/-- Each card is listed once in the zone of its owner at its location, and in no other zone. -/
structure Consistent (b : Board) : Prop where
  listed : ∀ c card, b.card? c = some card →
    ∃ z, b.zone? card.owner card.location = some z ∧ z.cards.count c = 1
  unlisted : ∀ c card, b.card? c = some card → ∀ o l z, b.zone? o l = some z → c ∈ z.cards →
    l = card.location ∧ (l ≠ .playArea → o = card.owner)

/-- One card is listed once in its zone and in no other zone of its owner. -/
structure Seats (b : Board) (c : CardId) (card : Card) : Prop where
  found : b.card? c = some card
  listed : ∃ z, b.zone? card.owner card.location = some z ∧ z.cards.count c = 1
  unlisted : ∀ l z, b.zone? card.owner l = some z → l ≠ card.location → c ∉ z.cards

theorem Consistent.seats {b : Board} (hb : b.Consistent) {c : CardId} {card : Card}
    (h : b.card? c = some card) : b.Seats c card where
  found := h
  listed := hb.listed c card h
  unlisted l z hz hl hmem := hl (hb.unlisted c card h card.owner l z hz hmem).1

theorem Seats.lists {b : Board} {c : CardId} {card : Card} (h : b.Seats c card) :
    b.lists c card := by
  obtain ⟨z, hz, hcount⟩ := h.listed
  have hmem : c ∈ z.cards := List.count_pos_iff.mp (by omega)
  simp [Board.lists, hz, Zone.contains, hmem]

/-- A card that has moved has arrived. -/
theorem card?_moved {b : Board} {c : CardId} {card : Card} {destination : Location}
    (h : b.card? c = some card) :
    (b.moved c card destination).card? c = some (arrived card card.location destination) := by
  have hget : b.cards.get? c = some card := h
  show (b.cards.modify c _).get? c = _
  rw [IdMap.get?_modify, if_pos rfl, hget]
  rfl

/-- A card that has moved sits at its destination, if its owner has a zone there. -/
theorem Seats.moved {b : Board} {c : CardId} {card : Card} (h : b.Seats c card)
    {destination : Location} (hd : destination ≠ card.location)
    (hz : (b.zone? card.owner destination).isSome) :
    (b.moved c card destination).Seats c (arrived card card.location destination) := by
  have hzone : ∀ l, (b.moved c card destination).zone? card.owner l =
      if destination = l then (b.zone? card.owner l).map (·.add c)
      else if card.location = l then (b.zone? card.owner l).map (·.remove c)
      else b.zone? card.owner l := by
    intro l
    show ((b.modifyZone card.owner (·.remove c) card.location).modifyZone card.owner (·.add c)
      destination).zone? card.owner l = _
    rw [zone?_modifyZone, zone?_modifyZone]
    by_cases h1 : destination = l
    · subst h1
      simp [hd.symm]
    · simp [h1]
  refine ⟨card?_moved h.found, ?_, ?_⟩
  · obtain ⟨z, hz⟩ := Option.isSome_iff_exists.mp hz
    -- Its destination did not list it before.
    refine ⟨z.add c, by simpa [arrived, hz] using hzone destination, ?_⟩
    have hc : z.cards.count c = 0 := List.count_eq_zero.mpr (h.unlisted destination z hz hd)
    simp [Zone.add, hc]
  · intro l z hz hl
    change (b.moved c card destination).zone? card.owner l = some z at hz
    have hz' := hzone l
    have hl' : destination ≠ l := fun heq => hl heq.symm
    rw [hz, if_neg hl'] at hz'
    by_cases hloc : card.location = l
    · -- The zone that the card has left listed it once.
      subst hloc
      obtain ⟨z₀, hz₀, hcount⟩ := h.listed
      rw [if_pos rfl, hz₀] at hz'
      obtain rfl : z = z₀.remove c := Option.some.inj hz'
      have : (z₀.cards.erase c).count c = 0 := by rw [List.count_erase_self]; omega
      exact List.count_eq_zero.mp this
    · rw [if_neg hloc] at hz'
      exact h.unlisted l z hz'.symm fun heq => hloc heq.symm

/-! ## There and back -/

/-- The board after a card was taken out of its owner's zone at a location and put back at the end.
In the play area this takes the card out of the shootout and of the town square. -/
def resettled (b : Board) (c : CardId) (o : PlayerId) (l : Location) : Board :=
  { b.modifyZone o (fun z => (z.remove c).add c) l with
    cards := b.cards.modify c fun card =>
      { card with inTownSquare := card.inTownSquare && !decide (l = .playArea) }
    shootout := if l = .playArea then b.shootout.map (·.remove c) else b.shootout }

theorem remove_add {z : Zone} {c : CardId} (h : c ∉ z.cards) : (z.add c).remove c = z := by
  obtain ⟨l, o, cards⟩ := z
  simp only [Zone.add, Zone.remove]
  rw [List.erase_append_right _ h]
  simp

/-- A move away from the play area or between private zones, and the move back, resettle the
card. -/
theorem moved_back {b : Board} {c : CardId} {card : Card} (h : b.Seats c card)
    {destination : Location} (hd : destination ≠ card.location) (hp : destination ≠ .playArea) :
    (b.moved c card destination).moved c (arrived card card.location destination) card.location =
      b.resettled c card.owner card.location := by
  have hback : ¬Leaves destination card.location := fun hl => hp hl.1
  have hleave : Leaves card.location destination ↔ card.location = .playArea :=
    ⟨And.left, fun hl => ⟨hl, hp⟩⟩
  -- The zones: the card's end of the destination is taken off again.
  have hzones : (((b.modifyZone card.owner (·.remove c) card.location).modifyZone card.owner
      (·.add c) destination).modifyZone card.owner (·.remove c) destination) =
        b.modifyZone card.owner (·.remove c) card.location := by
    rw [modifyZone_modifyZone, modifyZone_eq_self]
    intro z hz
    rw [zone?_modifyZone, if_neg hd.symm] at hz
    exact remove_add (h.unlisted destination z hz hd)
  have hcards : (b.cards.modify c (arrived · card.location destination)).modify c
      (arrived · destination card.location) = b.cards.modify c fun x =>
        { x with inTownSquare := x.inTownSquare && !decide (card.location = .playArea) } := by
    -- Going there, not coming back, can take the card out of the play area.
    rw [IdMap.modify_modify]
    refine IdMap.modify_congr fun x hx => ?_
    obtain rfl : card = x := Option.some.inj (h.found.symm.trans hx)
    simp [arrived, hback, hleave]
  have harrived : (arrived card card.location destination).owner = card.owner := rfl
  have hlocation : (arrived card card.location destination).location = destination := rfl
  unfold moved resettled
  simp only [harrived, hlocation, modifyZone_with, hcards, if_neg hback, hleave]
  rw [hzones, modifyZone_modifyZone]
  rfl

/-- A card that is last in its zone and, if that is the play area, in neither the shootout nor the
town square. -/
structure Settled (b : Board) (c : CardId) (card : Card) : Prop where
  last : ∃ z, b.zone? card.owner card.location = some z ∧ z.cards.getLast? = some c
  apart : card.location = .playArea → card.inTownSquare = false ∧ b.isParticipating c = false

/-- Moving a card to the end of a zone that lists it once leaves the zone as it is exactly if the
card is last. -/
theorem add_remove_eq_iff {z : Zone} {c : CardId} (h : z.cards.count c = 1) :
    (z.remove c).add c = z ↔ z.cards.getLast? = some c := by
  obtain ⟨l, o, cards⟩ := z
  simp only [Zone.add, Zone.remove, Zone.mk.injEq, true_and]
  constructor
  · intro heq
    rw [← heq, List.getLast?_concat]
  · intro hlast
    obtain ⟨front, rfl⟩ := List.getLast?_eq_some_iff.mp hlast
    have hfront : c ∉ front := by
      rw [List.count_append, List.count_singleton_self] at h
      exact List.count_eq_zero.mp (by omega)
    rw [List.erase_append_right _ hfront]
    simp

/-- Taking a card out of a shootout changes nothing exactly if it takes no part. -/
theorem remove_eq_self_iff (s : Shootout) (c : CardId) : s.remove c = s ↔ s.contains c = false := by
  obtain ⟨leader, mark, ⟨p, dudes⟩, ⟨p', dudes'⟩, step, attached⟩ := s
  have hfilter : ∀ l : List CardId, l.filter (· ≠ c) = l ↔ l.contains c = false := by
    intro l
    rw [List.filter_eq_self]
    simp only [decide_eq_true_eq, List.contains_eq_mem, decide_eq_false_iff_not]
    exact ⟨fun h hmem => h c hmem rfl, fun h a ha heq => h (heq ▸ ha)⟩
  simp only [Shootout.remove, Shootout.contains, Shootout.mk.injEq, Posse.mk.injEq, true_and,
    hfilter, Bool.or_eq_false_iff]
  exact and_assoc.symm

/-- Whoever has private zones has a zone at each location. -/
theorem zone?_isSome {b : Board} {o : PlayerId} (h : (b.privateZones? o).isSome) {l : Location}
    (hl : l ≠ .playArea) : (b.zone? o l).isSome := by
  obtain ⟨z, hz⟩ := Option.isSome_iff_exists.mp h
  rw [zone?_private b o hl, hz]
  cases l <;> first | rfl | exact absurd rfl hl

/-- Moves give nobody private zones and take them from nobody. -/
theorem privateZones?_moved (b : Board) (c : CardId) (card : Card) (destination : Location) :
    ((b.moved c card destination).privateZones? card.owner).isSome =
      (b.privateZones? card.owner).isSome := by
  show (((b.modifyZone card.owner (·.remove c) card.location).modifyZone card.owner (·.add c)
    destination).privateZones? card.owner).isSome = _
  rw [privateZones?_modifyZone, privateZones?_modifyZone]
  simp

/-- A card that has moved to a private zone is settled there. -/
theorem settled_moved {b : Board} {c : CardId} {card : Card} {destination : Location}
    (hd : destination ≠ card.location) (hp : destination ≠ .playArea)
    (hz : (b.zone? card.owner destination).isSome) :
    (b.moved c card destination).Settled c (arrived card card.location destination) := by
  obtain ⟨z, hz⟩ := Option.isSome_iff_exists.mp hz
  refine ⟨⟨z.add c, ?_, by simp [Zone.add]⟩, fun h => absurd h hp⟩
  show ((b.modifyZone card.owner (·.remove c) card.location).modifyZone card.owner (·.add c)
    destination).zone? card.owner destination = _
  rw [zone?_modifyZone, if_pos rfl, zone?_modifyZone, if_neg hd.symm, hz]
  rfl

/-- The shootout is left alone exactly if the card takes no part in it. -/
theorem map_remove_eq_iff (b : Board) (c : CardId) :
    b.shootout.map (·.remove c) = b.shootout ↔ b.isParticipating c = false := by
  unfold isParticipating
  cases b.shootout with
  | none => simp
  | some s => simpa using remove_eq_self_iff s c

/-- A card is settled if resettling it changes nothing. -/
theorem Seats.settled {b : Board} {c : CardId} {card : Card} (h : b.Seats c card)
    (heq : b.resettled c card.owner card.location = b) : b.Settled c card := by
  obtain ⟨z, hz, hcount⟩ := h.listed
  have hget : b.cards.get? c = some card := h.found
  refine ⟨⟨z, hz, ?_⟩, fun hplay => ⟨?_, ?_⟩⟩
  · have hzone : (b.resettled c card.owner card.location).zone? card.owner card.location =
        some ((z.remove c).add c) := by
      show (b.modifyZone card.owner _ card.location).zone? card.owner card.location = _
      rw [zone?_modifyZone, if_pos rfl, hz]
      rfl
    rw [heq, hz] at hzone
    exact (add_remove_eq_iff hcount).mp (Option.some.inj hzone).symm
  · have hcard : (b.resettled c card.owner card.location).cards.get? c = some card := by
      rw [heq, hget]
    simp only [resettled, IdMap.get?_modify, if_true, hget, Option.map_some, hplay,
      decide_true, Bool.not_true, Bool.and_false, Option.some.injEq] at hcard
    rw [← hcard]
  · have hshootout := congrArg Board.shootout heq
    simp only [resettled, if_pos hplay] at hshootout
    exact (b.map_remove_eq_iff c).mp hshootout

/-- Resettling a settled card changes nothing: neither zones nor cards nor the shootout. -/
theorem Settled.resettled_eq {b : Board} {c : CardId} {card : Card} (hs : b.Settled c card)
    (h : b.Seats c card) : b.resettled c card.owner card.location = b := by
  obtain ⟨z, hz, hcount⟩ := h.listed
  obtain ⟨⟨z', hz', hlast⟩, hplay⟩ := hs
  obtain rfl : z = z' := Option.some.inj (hz.symm.trans hz')
  have hget : b.cards.get? c = some card := h.found
  have hzones : b.modifyZone card.owner (fun z => (z.remove c).add c) card.location = b := by
    apply modifyZone_eq_self
    intro z₁ hz₁
    obtain rfl : z = z₁ := Option.some.inj (hz.symm.trans hz₁)
    exact (add_remove_eq_iff hcount).mpr hlast
  have hcards : (b.cards.modify c fun x =>
      { x with inTownSquare := x.inTownSquare && !decide (card.location = .playArea) }) =
        b.cards := by
    refine IdMap.modify_eq_self fun x hx => ?_
    obtain rfl : card = x := Option.some.inj (hget.symm.trans hx)
    have htown : (card.inTownSquare && !decide (card.location = .playArea)) =
        card.inTownSquare := by
      by_cases hl : card.location = .playArea
      · rw [(hplay hl).1]
        rfl
      · simp [hl]
    rw [htown]
  have hshootout : (if card.location = .playArea then b.shootout.map (·.remove c)
      else b.shootout) = b.shootout := by
    split
    · rename_i hl
      exact (b.map_remove_eq_iff c).mpr (hplay hl).2
    · rfl
  unfold resettled
  rw [hzones, hcards, hshootout]

/-- Resettling a card that sits in its zone changes nothing exactly if the card is settled. -/
theorem resettled_eq_self_iff {b : Board} {c : CardId} {card : Card} (h : b.Seats c card) :
    b.resettled c card.owner card.location = b ↔ b.Settled c card :=
  ⟨h.settled, fun hs => hs.resettled_eq h⟩

end Board

/-! ## One payment -/

namespace Cost

/-- The card that a cost boots, if it boots one. -/
def boots? (x : Activation) : Cost → Option CardId
  | bootSelf => some x.source
  | bootCard c => some c
  | payGhostRock _ | discardSelf | aceSelf | playAction => none

/-- What paying a cost of an activation does to a board, and the receipt for it. -/
inductive Pays (b : Board) (x : Activation) : Cost → CostReceipt → Board → Prop where
  | boot {cost : Cost} {c : CardId} {card : Card} (hc : cost.boots? x = some c)
      (hcard : b.card? c = some card) (hboot : card.booted = false)
      (hplay : card.location = .playArea) :
      Pays b x cost (.booted c)
        { b with cards := b.cards.modify c ({ · with booted := true }) }
  | spend {amount : Nat} {player : Player} (hplayer : b.player? x.player = some player)
      (hspend : player.canSpend amount) :
      Pays b x (.payGhostRock amount) (.ghostRockSpent x.player amount)
        { b with players := modifyFirst (·.id = x.player) (·.spend amount) b.players }
  | move {cost : Cost} {destination : Location} {card : Card}
      (hd : cost.destination = some destination) (hcard : b.card? x.source = some card)
      (hlists : b.lists x.source card) (hne : destination ≠ card.location) :
      Pays b x cost (.moved x.source card.location destination)
        (b.moved x.source card destination)

/-- Booting a card as payment. -/
theorem payBoot_ends {b : Board} {x : Activation} (cost : Cost) {c : CardId}
    (hc : cost.boots? x = some c) (h : canBoot b c) :
    ∃ b', (payBoot c).ends b = (.ok (.booted c), b') ∧ Pays b x cost (.booted c) b' := by
  unfold canBoot Board.cardIs at h
  obtain ⟨card, hcard, hcan⟩ := Option.any_eq_true _ _ |>.mp h
  simp only [Bool.and_eq_true, Bool.not_eq_true', decide_eq_true_eq] at hcan
  refine ⟨_, ?_, .boot hc hcard hcan.1 hcan.2⟩
  unfold payBoot Board.boot
  rw [ends_bind_ok (Board.modifyCard_ends hcard _)]
  rfl

/-- Moving the source as payment: it moves, or its zone does not list it and nothing happens. -/
theorem payMove_ends {b : Board} {x : Activation} {cost : Cost} {destination : Location}
    {card : Card} (hd : cost.destination = some destination)
    (hcard : b.card? x.source = some card) (hne : destination ≠ card.location) :
    (∃ r b', (payMove x.source destination).ends b = (.ok r, b') ∧ Pays b x cost r b') ∨
      ∃ e, (payMove x.source destination).ends b = (.error e, b) := by
  unfold payMove
  by_cases hl : b.lists x.source card
  · refine .inl ⟨_, _, ?_, .move hd hcard hl hne⟩
    rw [ends_bind_ok (Board.moveCard_ends hcard hl)]
    rfl
  · rw [ends_bind_error (Board.moveCard_unlisted hcard (by simpa using hl))]
    exact .inr ⟨_, rfl⟩

/-- Paying a cost does what `Pays` says, or fails and does nothing. -/
theorem pay_ends (cost : Cost) (x : Activation) (b : Board) :
    (∃ r b', (cost.pay x).ends b = (.ok r, b') ∧ Pays b x cost r b') ∨
      ∃ e, (cost.pay x).ends b = (.error e, b) := by
  unfold pay
  rw [ends_bind_ok (ends_look b)]
  by_cases hcan : cost.canPay b x
  · simp only [hcan, Bool.not_true, Bool.false_eq_true, if_false]
    cases cost with
    | bootSelf =>
      obtain ⟨b', h⟩ := payBoot_ends (x := x) .bootSelf rfl hcan
      exact .inl ⟨_, b', h⟩
    | bootCard c =>
      obtain ⟨b', h⟩ := payBoot_ends (x := x) (.bootCard c) rfl hcan
      exact .inl ⟨_, b', h⟩
    | payGhostRock amount =>
      obtain ⟨player, hplayer, hspend⟩ := Option.any_eq_true _ _ |>.mp hcan
      refine .inl ⟨_, _, ?_, .spend hplayer hspend⟩
      rw [ends_bind_ok (Board.spend_ends hplayer hspend)]
      rfl
    | discardSelf =>
      obtain ⟨card, hcard, hne⟩ := Option.any_eq_true _ _ |>.mp hcan
      exact payMove_ends rfl hcard fun h => by simp [h] at hne
    | aceSelf =>
      obtain ⟨card, hcard, hne⟩ := Option.any_eq_true _ _ |>.mp hcan
      exact payMove_ends rfl hcard fun h => by simp [h] at hne
    | playAction =>
      obtain ⟨card, hcard, hhand⟩ := Option.any_eq_true _ _ |>.mp hcan
      refine payMove_ends rfl hcard fun h => ?_
      rw [← h] at hhand
      simp at hhand
  · simp only [hcan]
    exact .inr ⟨_, rfl⟩

/-- No cost moves the source into the play area. -/
theorem destination_ne_playArea {cost : Cost} {l : Location} (h : cost.destination = some l) :
    l ≠ .playArea := by
  cases cost <;> simp [destination] at h <;> subst h <;> decide

end Cost

/-! ## Reverting one payment -/

namespace CostReceipt

/-- Unbooting a card that was unbooted before its boot undoes the boot, whatever changed in between
if it commutes with unbooting. -/
theorem unboot_boot {cards : IdMap .card Card} {c : CardId} {card : Card} (c' : CardId)
    {f : Card → Card} (hget : cards.get? c = some card) (hboot : card.booted = false)
    (hf : ∀ a : Card, f { a with booted := false } = { f a with booted := false }) :
    ((cards.modify c ({ · with booted := true })).modify c' f).modify c
      ({ · with booted := false }) = cards.modify c' f := by
  have hcomm := IdMap.modify_comm (cards.modify c ({ · with booted := true })) (i := c') (j := c)
    (f := f) (g := ({ · with booted := false })) fun _ a => hf a
  have hback : (cards.modify c ({ · with booted := true })).modify c ({ · with booted := false }) =
      cards := by
    rw [IdMap.modify_modify]
    refine IdMap.modify_eq_self fun a ha => ?_
    obtain rfl : card = a := Option.some.inj (hget.symm.trans ha)
    simp only [Function.comp_apply, ← hboot]
  rw [hcomm, hback]

/-- Giving a player back what was taken undoes the payment. -/
theorem gain_spend {players : List Player} {p : PlayerId} {player : Player} {amount : Nat}
    (hplayer : players.find? (·.id = p) = some player) (hspend : player.canSpend amount) :
    modifyFirst (·.id = p) (·.gain amount) (modifyFirst (·.id = p) (·.spend amount) players) =
      players := by
  have htwice := modifyFirst_modifyFirst (p := fun a : Player => decide (a.id = p))
    (f := (·.spend amount)) (g := (·.gain amount)) (l := players) fun _ => rfl
  rw [htwice, modifyFirst_eq_self]
  intro a ha
  obtain rfl : player = a := Option.some.inj (hplayer.symm.trans ha)
  have hle : amount ≤ player.ghostRock := by simpa [Player.canSpend] using hspend
  simp [Player.gain, Player.spend, Nat.sub_add_cancel hle]

/-- A boot is reverted without a trace, also if a card has been resettled meanwhile. -/
theorem unboot_ends {b : Board} {c : CardId} {card : Card} (hget : b.cards.get? c = some card)
    (hboot : card.booted = false) :
    let booted : Board := { b with cards := b.cards.modify c ({ · with booted := true }) }
    (Board.unboot c).ends booted = (.ok (), b) ∧
      ∀ c' o l, (Board.unboot c).ends (booted.resettled c' o l) =
        (.ok (), b.resettled c' o l) := by
  intro booted
  have hcard : booted.card? c = some { card with booted := true } := IdMap.get?_modify_self hget _
  refine ⟨?_, fun c' o l => ?_⟩
  · have hback := unboot_boot c (f := id) hget hboot fun _ => rfl
    simp only [IdMap.modify_eq_self (f := id) fun _ _ => rfl] at hback
    unfold Board.unboot
    rw [Board.modifyCard_ends hcard, hback]
  · -- Resettling changes the card at most in that it leaves the town square.
    have hcard' : ∃ card', (booted.resettled c' o l).card? c = some card' := by
      have hget' : booted.cards.get? c = some { card with booted := true } := hcard
      simp only [Board.card?, Board.resettled, IdMap.get?_modify, hget']
      split <;> exact ⟨_, rfl⟩
    obtain ⟨card', hcard'⟩ := hcard'
    have hback := unboot_boot c' (f := fun a : Card =>
      { a with inTownSquare := a.inTownSquare && !decide (l = .playArea) }) hget hboot
      fun _ => rfl
    unfold Board.unboot
    rw [Board.modifyCard_ends hcard']
    simp only [booted, Board.resettled, hback]
    cases l <;> rfl

/-- A payment of ghost rock is reverted without a trace, also if a card has been resettled
meanwhile. -/
theorem gain_ends {b : Board} {p : PlayerId} {player : Player} {amount : Nat}
    (hplayer : b.player? p = some player) (hspend : player.canSpend amount) :
    let spent : Board := { b with players := modifyFirst (·.id = p) (·.spend amount) b.players }
    (Board.gain p amount).ends spent = (.ok (), b) ∧
      ∀ c o l, (Board.gain p amount).ends (spent.resettled c o l) =
        (.ok (), b.resettled c o l) := by
  intro spent
  have hback := gain_spend hplayer hspend
  have hplayer' : spent.player? p = some (player.spend amount) := by
    have hfind := find?_modifyFirst (p := fun a : Player => decide (a.id = p))
      (f := (·.spend amount)) (l := b.players) fun _ => rfl
    unfold Board.player? at hplayer ⊢
    rw [hfind, hplayer]
    rfl
  refine ⟨?_, fun c o l => ?_⟩
  · unfold Board.gain
    rw [Board.modifyPlayer_ends hplayer', hback]
  · have hplayer'' : (spent.resettled c o l).player? p = some (player.spend amount) := by
      simpa [Board.player?, Board.resettled] using hplayer'
    unfold Board.gain
    rw [Board.modifyPlayer_ends hplayer'']
    simp only [spent, Board.resettled, Board.players_modifyZone, hback]
    cases l <;> rfl

/-- Boots and payments of ghost rock are reverted without a trace, also if a card has been
resettled meanwhile. -/
theorem revert_still {b b' : Board} {x : Activation} {cost : Cost} {r : CostReceipt}
    (h : cost.Pays b x r b') (hstill : cost.destination = none) :
    r.revert.ends b' = (.ok (), b) ∧
      ∀ c o l, r.revert.ends (b'.resettled c o l) = (.ok (), b.resettled c o l) := by
  cases h with
  | boot _ hcard hboot => exact unboot_ends hcard hboot
  | spend hplayer hspend => exact gain_ends hplayer hspend
  | move hd => simp [hstill] at hd

/-- Reverting a move resettles the source where it came from. -/
theorem revert_moved {b : Board} {c : CardId} {card : Card} (h : b.Seats c card)
    {destination : Location} (hd : destination ≠ card.location) (hp : destination ≠ .playArea)
    (hz : (b.zone? card.owner destination).isSome) :
    (moved c card.location destination).revert.ends (b.moved c card destination) =
      (.ok (), b.resettled c card.owner card.location) := by
  have hseats := h.moved hd hz
  show (discard (Board.moveCard c card.location)).ends _ = _
  rw [ends_discard, Board.moveCard_ends hseats.found hseats.lists, Board.moved_back h hd hp]
  rfl

/-- Without a zone at its destination the source cannot come back. -/
theorem revert_moved_unlisted {b : Board} {c : CardId} {card : Card} (h : b.card? c = some card)
    {destination : Location} (hd : destination ≠ card.location)
    (hz : b.zone? card.owner destination = none) :
    ∃ e, (moved c card.location destination).revert.ends (b.moved c card destination) =
      (.error e, b.moved c card destination) := by
  have hfound : (b.moved c card destination).card? c =
      some (Board.arrived card card.location destination) := Board.card?_moved h
  have hunlisted : (b.moved c card destination).lists c
      (Board.arrived card card.location destination) = false := by
    have hzone : (b.moved c card destination).zone? card.owner destination = none := by
      show ((b.modifyZone card.owner (·.remove c) card.location).modifyZone card.owner (·.add c)
        destination).zone? card.owner destination = _
      rw [Board.zone?_modifyZone, if_pos rfl, Board.zone?_modifyZone, if_neg hd.symm, hz]
      rfl
    show Option.any _ ((b.moved c card destination).zone? card.owner destination) = false
    rw [hzone]
    rfl
  refine ⟨.refused (.notListed c destination), ?_⟩
  show (discard (Board.moveCard c card.location)).ends _ = _
  rw [ends_discard, Board.moveCard_unlisted hfound hunlisted]
  rfl

end CostReceipt

/-! ## The source of the costs -/

/-- A payment that moves nothing leaves the owner and the location of a card as they are. -/
theorem Cost.Pays.card? {b b' : Board} {x : Activation} {cost : Cost} {r : CostReceipt}
    (h : cost.Pays b x r b') (hstill : cost.destination = none) {c : CardId} {card : Card}
    (hcard : b.card? c = some card) :
    ∃ card', b'.card? c = some card' ∧ card'.owner = card.owner ∧
      card'.location = card.location := by
  cases h with
  | @boot _ c' _ hc _ hboot hplay =>
    have hget : b.cards.get? c = some card := hcard
    refine ⟨if c' = c then { card with booted := true } else card, ?_, ?_, ?_⟩
    · simp only [Board.card?, IdMap.get?_modify, hget, Option.map_some]
      split <;> rfl
    · split <;> rfl
    · split <;> rfl
  | spend => exact ⟨card, hcard, rfl, rfl⟩
  | move hd => simp [hstill] at hd

/-- A payment that moves nothing makes no card. -/
theorem Cost.Pays.card?_none {b b' : Board} {x : Activation} {cost : Cost} {r : CostReceipt}
    (h : cost.Pays b x r b') (hstill : cost.destination = none) {c : CardId}
    (hcard : b.card? c = none) : b'.card? c = none := by
  cases h with
  | boot =>
    have hget : b.cards.get? c = none := hcard
    simp only [Board.card?, IdMap.get?_modify, hget, Option.map_none, ite_self]
  | spend => exact hcard
  | move hd => simp [hstill] at hd

/-- A payment that moves nothing leaves all zones as they are. -/
theorem Cost.Pays.zone? {b b' : Board} {x : Activation} {cost : Cost} {r : CostReceipt}
    (h : cost.Pays b x r b') (hstill : cost.destination = none) (o : PlayerId) (l : Location) :
    b'.zone? o l = b.zone? o l := by
  cases h with
  | boot => cases l <;> rfl
  | spend => cases l <;> rfl
  | move hd => simp [hstill] at hd

/-- A payment that moves nothing leaves every card in its seat. -/
theorem Cost.Pays.seats {b b' : Board} {x : Activation} {cost : Cost} {r : CostReceipt}
    (h : cost.Pays b x r b') (hstill : cost.destination = none) {c : CardId} {card : Card}
    (hs : b.Seats c card) :
    ∃ card', b'.Seats c card' ∧ card'.owner = card.owner ∧ card'.location = card.location := by
  obtain ⟨card', hcard', ho, hl⟩ := h.card? hstill hs.found
  have hzone := h.zone? hstill
  refine ⟨card', ⟨hcard', ?_, ?_⟩, ho, hl⟩
  · rw [hzone, ho, hl]
    exact hs.listed
  · intro l z hz hne
    rw [hzone, ho] at hz
    exact hs.unlisted l z hz (hl ▸ hne)

/-- A payment that moves nothing leaves the private zones as they are. -/
theorem Cost.Pays.privateZones? {b b' : Board} {x : Activation} {cost : Cost} {r : CostReceipt}
    (h : cost.Pays b x r b') (hstill : cost.destination = none) (o : PlayerId) :
    b'.privateZones? o = b.privateZones? o := by
  cases h with
  | boot => rfl
  | spend => rfl
  | move hd => simp [hstill] at hd

/-- A payment that moves the source moves it to the cost's destination. -/
theorem Cost.Pays.moved {b b' : Board} {x : Activation} {cost : Cost} {r : CostReceipt}
    (h : cost.Pays b x r b') {destination : Location} (hd : cost.destination = some destination)
    {card : Card} (hcard : b.card? x.source = some card) :
    r = .moved x.source card.location destination ∧ b' = b.moved x.source card destination ∧
      destination ≠ card.location ∧ b.lists x.source card := by
  cases h with
  | boot hc => cases cost <;> simp [Cost.boots?] at hc <;> simp [Cost.destination] at hd
  | spend => simp [Cost.destination] at hd
  | @move _ destination' card' hd' hcard' hlists hne =>
    obtain rfl : destination' = destination := Option.some.inj (hd'.symm.trans hd)
    obtain rfl : card' = card := Option.some.inj (hcard'.symm.trans hcard)
    exact ⟨rfl, rfl, hne, hlists⟩

/-! ## All costs -/

namespace Payment

/-- The costs of a list that are paid one after the other before one cannot be. -/
def paidFrom (x : Activation) : Board → List Cost → List Cost
  | _, [] => []
  | b, cost :: rest =>
    match (cost.pay x).ends b with
    | (.ok _, b') => cost :: paidFrom x b' rest
    | (.error _, _) => []

/-- The costs that are paid before one cannot be: none if some cost by itself is unaffordable. -/
def paidBeforeFailure (b : Board) (x : Activation) (costs : List Cost) : List Cost :=
  if canPayAll b x costs then paidFrom x b costs else []

variable {title : String} {x : Activation}

/-- Of a cost that is paid and moves nothing, and what is paid behind it, the latter moves the
source if any does. -/
theorem moves_paidFrom_rest {b b' : Board} {cost : Cost} {r : CostReceipt}
    (h : (cost.pay x).ends b = (.ok r, b')) (hd : cost.destination = none) {rest : List Cost}
    (hmove : ∃ c ∈ paidFrom x b (cost :: rest), c.destination ≠ none) :
    ∃ c ∈ paidFrom x b' rest, c.destination ≠ none := by
  obtain ⟨c, hc, hc'⟩ := hmove
  rw [paidFrom, h] at hc
  rcases List.mem_cons.mp hc with rfl | hc
  · exact absurd hd hc'
  · exact ⟨c, hc, hc'⟩

/-- Of a list whose first cost fails, no cost is paid. -/
theorem paidFrom_failed {b b' : Board} {cost : Cost} {e : RulesError}
    (h : (cost.pay x).ends b = (.error e, b')) (rest : List Cost) :
    ¬∃ c ∈ paidFrom x b (cost :: rest), c.destination ≠ none := by
  rintro ⟨c, hc, -⟩
  rw [paidFrom, h] at hc
  exact absurd hc List.not_mem_nil

/-- A cost that is paid joins the receipts. -/
theorem payFrom_cons_ok {b b' : Board} {cost : Cost} {r : CostReceipt}
    (h : (cost.pay x).ends b = (.ok r, b')) (paid : List CostReceipt) (rest : List Cost) :
    (payFrom title x paid (cost :: rest)).ends b =
      (payFrom title x (r :: paid) rest).ends b' := by
  rw [payFrom, ends_bind, ends_attempt, h]

/-- A cost that fails has the receipts reverted. -/
theorem payFrom_cons_error {b b' : Board} {cost : Cost} {e : RulesError}
    (h : (cost.pay x).ends b = (.error e, b)) (paid : List CostReceipt) (rest : List Cost)
    {r : Except RulesError Unit} (hr : (revertAll paid).ends b = (r, b')) :
    ((payFrom title x paid (cost :: rest)).ends b).2 = b' := by
  rw [payFrom, ends_bind, ends_attempt, h]
  simp only
  rw [ends_bind, hr]
  cases r <;> rfl

/-- Reverting the latest receipt comes first. -/
theorem revertAll_cons {b b' : Board} {r : CostReceipt} (h : r.revert.ends b = (.ok (), b'))
    (paid : List CostReceipt) : (revertAll (r :: paid)).ends b = (revertAll paid).ends b' := by
  rw [revertAll, ends_bind_ok h]

/-- If no cost that moves the source is paid, a failure gives the board back. -/
theorem payFrom_still {target : Board} {e : RulesError} :
    ∀ (costs : List Cost) (b : Board) (paid : List CostReceipt),
      (revertAll paid).ends b = (.ok (), target) →
      (∀ cost ∈ paidFrom x b costs, cost.destination = none) →
      ((payFrom title x paid costs).ends b).1 = .error e →
      ((payFrom title x paid costs).ends b).2 = target
  | [], b, paid, _, _, herror => by simp [payFrom] at herror
  | cost :: rest, b, paid, hback, hstill, herror => by
    rcases cost.pay_ends x b with ⟨r, b', hpay, hpays⟩ | ⟨e', hpay⟩
    · have hpaid : paidFrom x b (cost :: rest) = cost :: paidFrom x b' rest := by
        rw [paidFrom, hpay]
      rw [hpaid] at hstill
      rw [payFrom_cons_ok hpay] at herror ⊢
      have hrevert := CostReceipt.revert_still hpays (hstill cost (by simp))
      refine payFrom_still rest b' (r :: paid) ?_ (fun c hc => hstill c (by simp [hc])) herror
      rw [revertAll_cons hrevert.1, hback]
    · exact payFrom_cons_error hpay paid rest hback

/-- If the source's owner has zones and a cost that moves the source is or was paid, a failure
leaves the board to which reverting leads from where the source is resettled. -/
theorem payFrom_settles {target : Board} {e : RulesError} :
    ∀ (costs : List Cost) (b : Board) (paid : List CostReceipt) (card : Card),
      b.Seats x.source card → (b.privateZones? card.owner).isSome →
      (revertAll paid).ends (b.resettled x.source card.owner card.location) = (.ok (), target) →
      ((revertAll paid).ends b = (.ok (), target) ∨
        ∃ cost ∈ paidFrom x b costs, cost.destination ≠ none) →
      ((payFrom title x paid costs).ends b).1 = .error e →
      ((payFrom title x paid costs).ends b).2 = target
  | [], b, paid, card, _, _, _, _, herror => by simp [payFrom] at herror
  | cost :: rest, b, paid, card, hs, hz, hsettled, hback, herror => by
    rcases cost.pay_ends x b with ⟨r, b', hpay, hpays⟩ | ⟨e', hpay⟩
    · rw [payFrom_cons_ok hpay] at herror ⊢
      cases hd : cost.destination with
      | none =>
        have hrevert := CostReceipt.revert_still hpays hd
        obtain ⟨card', hs', ho, hl⟩ := hpays.seats hd hs
        have hzones := hpays.privateZones? hd card.owner
        refine payFrom_settles rest b' (r :: paid) card' hs' (by rw [ho, hzones]; exact hz) ?_ ?_
          herror
        · rw [ho, hl, revertAll_cons (hrevert.2 _ _ _), hsettled]
        · rw [revertAll_cons hrevert.1]
          exact hback.imp_right (moves_paidFrom_rest hpay hd)
      | some destination =>
        -- The move is reverted first, which resettles the source where it was.
        have hp := Cost.destination_ne_playArea hd
        obtain ⟨hr, hb', hne, -⟩ := hpays.moved hd hs.found
        have hzone := Board.zone?_isSome hz hp
        have hs' := hs.moved hne hzone
        have hrevert : (revertAll (r :: paid)).ends b' = (.ok (), target) := by
          rw [hr, hb', revertAll_cons (CostReceipt.revert_moved hs hne hp hzone), hsettled]
        refine payFrom_settles rest b' (r :: paid) _ (hb' ▸ hs') ?_ ?_ (.inl hrevert) herror
        · rw [hb']
          exact (Board.privateZones?_moved b x.source card destination).trans hz
        · -- The source is at the end of a private zone: it is settled there.
          have hself := (Board.resettled_eq_self_iff hs').mpr (Board.settled_moved hne hp hzone)
          rw [← hb'] at hself
          rw [hself, hrevert]
    · have hback := hback.resolve_right (paidFrom_failed hpay rest)
      exact payFrom_cons_error hpay paid rest hback

/-- A card that no zone lists is moved by no cost, so if reverting fails now, it will still fail in
the same way when a later cost cannot be paid. -/
theorem payFrom_stranded {target : Board} {e e' : RulesError} :
    ∀ (costs : List Cost) (b : Board) (paid : List CostReceipt),
      (∃ card, b.card? x.source = some card ∧ card.location ≠ .playArea ∧
        b.privateZones? card.owner = none) →
      (revertAll paid).ends b = (.error e', target) →
      ((payFrom title x paid costs).ends b).1 = .error e →
      ((payFrom title x paid costs).ends b).2 = target
  | [], b, paid, _, _, herror => by simp [payFrom] at herror
  | cost :: rest, b, paid, ⟨card, hcard, hl, hz⟩, hback, herror => by
    rcases cost.pay_ends x b with ⟨r, b', hpay, hpays⟩ | ⟨e', hpay⟩
    · rw [payFrom_cons_ok hpay] at herror ⊢
      cases hd : cost.destination with
      | none =>
        have hrevert := CostReceipt.revert_still hpays hd
        have hback' : (revertAll (r :: paid)).ends b' = (.error e', target) := by
          rw [revertAll_cons hrevert.1, hback]
        obtain ⟨card', hcard', ho, hl'⟩ := hpays.card? hd hcard
        refine payFrom_stranded rest b' (r :: paid) ⟨card', hcard', hl' ▸ hl, ?_⟩ hback' herror
        rw [ho, hpays.privateZones? hd, hz]
      | some destination =>
        obtain ⟨-, -, -, hlists⟩ := hpays.moved hd hcard
        unfold Board.lists at hlists
        rw [Board.zone?_private b _ hl, hz] at hlists
        simp at hlists
    · exact payFrom_cons_error hpay paid rest hback

/-- If the source's owner has no zones and a cost that moves the source is paid, a failure leaves
the source at another location. -/
theorem payFrom_loses {target : Board} {e : RulesError} :
    ∀ (costs : List Cost) (b : Board) (paid : List CostReceipt) (card : Card),
      b.card? x.source = some card → b.privateZones? card.owner = none →
      (revertAll paid).ends b = (.ok (), target) →
      target.cardIs x.source (·.location = card.location) →
      (∃ cost ∈ paidFrom x b costs, cost.destination ≠ none) →
      ((payFrom title x paid costs).ends b).1 = .error e →
      ((payFrom title x paid costs).ends b).2 ≠ target
  | [], b, paid, card, _, _, _, _, _, herror => by simp [payFrom] at herror
  | cost :: rest, b, paid, card, hcard, hz, hback, htarget, hmove, herror => by
    rcases cost.pay_ends x b with ⟨r, b', hpay, hpays⟩ | ⟨e', hpay⟩
    · rw [payFrom_cons_ok hpay] at herror ⊢
      cases hd : cost.destination with
      | none =>
        have hrevert := CostReceipt.revert_still hpays hd
        obtain ⟨card', hcard', ho, hl⟩ := hpays.card? hd hcard
        have hback' : (revertAll (r :: paid)).ends b' = (.ok (), target) := by
          rw [revertAll_cons hrevert.1, hback]
        exact payFrom_loses rest b' (r :: paid) card' hcard'
          (by rw [ho, hpays.privateZones? hd, hz]) hback' (by rw [hl]; exact htarget)
          (moves_paidFrom_rest hpay hd hmove) herror
      | some destination =>
        have hp := Cost.destination_ne_playArea hd
        obtain ⟨hr, hb', hne, -⟩ := hpays.moved hd hcard
        have hzone : b.zone? card.owner destination = none := by
          rw [Board.zone?_private b _ hp, hz]
          rfl
        -- The move back fails, now and when a later cost cannot be paid.
        obtain ⟨e', hrevert⟩ := CostReceipt.revert_moved_unlisted hcard hne hzone
        have hfail : (revertAll (r :: paid)).ends b' = (.error e', b') := by
          rw [hr, hb', revertAll, ends_bind_error hrevert]
        have hcard' : b'.card? x.source =
            some (Board.arrived card card.location destination) := by
          rw [hb']
          exact Board.card?_moved hcard
        have hend := payFrom_stranded rest b' (r :: paid) ⟨_, hcard', hp, ?_⟩ hfail herror
        · rw [hend]
          rintro rfl
          rw [Board.cardIs, hcard'] at htarget
          have : destination = card.location := by simpa [Board.arrived] using htarget
          exact hne this
        · have hsome := Board.privateZones?_moved b x.source card destination
          rw [hz] at hsome
          rw [hb']
          show (b.moved x.source card destination).privateZones? card.owner = none
          exact Option.not_isSome_iff_eq_none.mp (by simpa using hsome)
    · exact absurd hmove (paidFrom_failed hpay rest)

/-- A cost that moves the source is paid only if there is a source. -/
theorem source_of_paidFrom :
    ∀ (costs : List Cost) (b : Board), (∃ cost ∈ paidFrom x b costs, cost.destination ≠ none) →
      ∃ card, b.card? x.source = some card
  | [], b, ⟨c, hc, _⟩ => by simp [paidFrom] at hc
  | cost :: rest, b, hmove => by
    rcases cost.pay_ends x b with ⟨r, b', hpay, hpays⟩ | ⟨e', hpay⟩
    · cases hd : cost.destination with
      | none =>
        obtain ⟨card', hcard'⟩ := source_of_paidFrom rest b' (moves_paidFrom_rest hpay hd hmove)
        cases hcard : b.card? x.source with
        | some card => exact ⟨card, rfl⟩
        | none => rw [hpays.card?_none hd hcard] at hcard'; simp at hcard'
      | some destination =>
        cases hpays with
        | boot hboots =>
          cases cost <;> simp [Cost.boots?] at hboots <;> simp [Cost.destination] at hd
        | spend => simp [Cost.destination] at hd
        | move _ hcard => exact ⟨_, hcard⟩
    · exact absurd hmove (paidFrom_failed hpay rest)

/-- What a failed payment leaves behind: the board as it was, exactly if no cost that moves the
source was paid before the failure, or if the source, of an owner who plays, is last in its zone and
takes part in nothing in the play area. -/
theorem failed_payAll_restores_iff {b : Board} (hb : b.Consistent) (costs : List Cost)
    {e : RulesError} (he : (payAll title x costs b).result = .error e) :
    (payAll title x costs b).state = b ↔
      (∀ cost ∈ paidBeforeFailure b x costs, cost.destination = none) ∨
        ∃ card, b.card? x.source = some card ∧ (b.privateZones? card.owner).isSome ∧
          b.Settled x.source card := by
  change ((payAll title x costs).ends b).1 = .error e at he
  show ((payAll title x costs).ends b).2 = b ↔ _
  unfold paidBeforeFailure
  unfold payAll at he ⊢
  rw [ends_bind_ok (ends_look b)] at he ⊢
  by_cases hcan : canPayAll b x costs
  · simp only [hcan, Bool.not_true, Bool.false_eq_true, if_false, if_true] at he ⊢
    have hnothing : (revertAll []).ends b = (.ok (), b) := rfl
    -- All that was paid is reverted without a trace, unless a cost moved the source.
    by_cases hstill : ∀ cost ∈ paidFrom x b costs, cost.destination = none
    · exact ⟨fun _ => .inl hstill, fun _ => payFrom_still costs b [] hnothing hstill he⟩
    · have hmove : ∃ cost ∈ paidFrom x b costs, cost.destination ≠ none := by
        simpa using hstill
      obtain ⟨card, hcard⟩ := source_of_paidFrom costs b hmove
      have hs := hb.seats hcard
      by_cases hz : (b.privateZones? card.owner).isSome
      · have hsettled : (revertAll []).ends (b.resettled x.source card.owner card.location) =
            (.ok (), b.resettled x.source card.owner card.location) := rfl
        -- Then the source is resettled if its owner has zones, and does not come back otherwise.
        have hend := payFrom_settles costs b [] card hs hz hsettled (.inr hmove) he
        rw [hend, Board.resettled_eq_self_iff hs]
        constructor
        · exact fun h => .inr ⟨card, hcard, hz, h⟩
        · rintro (h | ⟨card', hcard', -, h⟩)
          · exact absurd h hstill
          · obtain rfl : card = card' := Option.some.inj (hcard.symm.trans hcard')
            exact h
      · have hz' : b.privateZones? card.owner = none := by simpa using hz
        have hne := payFrom_loses costs b [] card hcard hz' hnothing (by simp [Board.cardIs, hcard])
          hmove he
        refine iff_of_false hne ?_
        rintro (h | ⟨card', hcard', hz'', -⟩)
        · exact hstill h
        · obtain rfl : card = card' := Option.some.inj (hcard.symm.trans hcard')
          exact hz hz''
  · -- Some cost is unaffordable by itself, and none is paid.
    simp only [hcan] at he ⊢
    exact ⟨fun _ => .inl (by simp), fun _ => rfl⟩

/-! ### A hand of two -/

/-- Two players with five ghost rock each, of whom the first holds two deeds. -/
def twoInHand : Board :=
  { Board.twoPlayer "Ann" "Bob" 5 with
    cards := (IdMap.empty.insert ⟨3⟩ { Card.new ⟨3⟩ "A" .deed ⟨0⟩ with location := .hand }).insert
      ⟨4⟩ { Card.new ⟨4⟩ "B" .deed ⟨0⟩ with location := .hand }
    privateZones := [(⟨0⟩, { PrivateZones.new ⟨0⟩ with hand := ⟨.hand, ⟨0⟩, [⟨3⟩, ⟨4⟩]⟩ }),
      (⟨1⟩, .new ⟨1⟩)]
    nextNumber := 5 }

/-- The first player's use of the first deed in hand. -/
def useOfFirst : Activation := .new ⟨0⟩ ⟨3⟩ ⟨0⟩ none

/-- Each deed is listed in the hand and nowhere else. -/
theorem twoInHand_consistent : twoInHand.Consistent := by
  have hcards : ∀ c card, twoInHand.card? c = some card →
      (c = ⟨3⟩ ∨ c = ⟨4⟩) ∧ card.owner = ⟨0⟩ ∧ card.location = .hand := by
    intro c card h
    simp only [Board.card?, twoInHand, IdMap.get?_insert, IdMap.get?_empty] at h
    split at h
    · rename_i hc
      obtain rfl := Option.some.inj h
      exact ⟨.inr hc.symm, rfl, rfl⟩
    · split at h
      · rename_i hc
        obtain rfl := Option.some.inj h
        exact ⟨.inl hc.symm, rfl, rfl⟩
      · simp at h
  constructor
  · intro c card h
    obtain ⟨hc, ho, hl⟩ := hcards c card h
    rw [ho, hl]
    rcases hc with rfl | rfl <;> exact ⟨_, rfl, rfl⟩
  · intro c card h o l z hz hmem
    obtain ⟨hc, ho, hl⟩ := hcards c card h
    rw [ho, hl]
    by_cases h0 : o = ⟨0⟩
    · subst h0
      cases l <;> obtain rfl := Option.some.inj hz <;> first | exact ⟨rfl, fun _ => rfl⟩ |
        exact absurd hmem List.not_mem_nil
    · -- No other player's zone lists a card.
      by_cases h1 : o = ⟨1⟩
      · subst h1
        cases l <;> obtain rfl := Option.some.inj hz <;> exact absurd hmem List.not_mem_nil
      · have hnone : twoInHand.privateZones? o = none := by
          simp [Board.privateZones?, twoInHand, Ne.symm h0, Ne.symm h1]
        cases l with
        | playArea =>
          obtain rfl := Option.some.inj hz
          exact absurd hmem List.not_mem_nil
        | _ => simp [Board.zone?, hnone] at hz

/-- The first deed is discarded, three ghost rock are paid, three more are not there. -/
theorem failed_payAll_restores_iff_twoInHand :
    twoInHand.Consistent ∧
      (payAll "A" useOfFirst [.discardSelf, .payGhostRock 3, .payGhostRock 3] twoInHand).result =
        .error (.paymentFailed "A" (.refused (.costUnpayable (.payGhostRock 3)))) ∧
      ((payAll "A" useOfFirst [.discardSelf, .payGhostRock 3, .payGhostRock 3] twoInHand).state =
          twoInHand ↔
        (∀ cost ∈ paidBeforeFailure twoInHand useOfFirst
            [.discardSelf, .payGhostRock 3, .payGhostRock 3], cost.destination = none) ∨
          ∃ card, twoInHand.card? useOfFirst.source = some card ∧
            (twoInHand.privateZones? card.owner).isSome ∧
            twoInHand.Settled useOfFirst.source card) :=
  ⟨twoInHand_consistent, rfl, failed_payAll_restores_iff twoInHand_consistent _ rfl⟩

/-- A failed payment does not always restore the board: here the first deed comes back behind the
second. -/
theorem failed_payAll_not_always_restores :
    ¬∀ (b : Board) (title : String) (x : Activation) (costs : List Cost) (e : RulesError),
      b.Consistent → (payAll title x costs b).result = .error e →
        (payAll title x costs b).state = b := by
  intro h
  have hsame := h twoInHand "A" useOfFirst [.discardSelf, .payGhostRock 3, .payGhostRock 3] _
    twoInHand_consistent rfl
  have hhands : (payAll "A" useOfFirst [.discardSelf, .payGhostRock 3, .payGhostRock 3]
      twoInHand).state.privateZones.map (·.2.hand.cards) = [[⟨4⟩, ⟨3⟩], []] := rfl
  rw [hsame] at hhands
  exact absurd hhands (by decide)

end Payment

end Doomtown
