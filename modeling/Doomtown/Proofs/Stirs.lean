import Doomtown.Proofs.Tidy

/-!
# What plays do to the board

Every play on the board is a chain of the changes that `Board.Stir` lists. `Board.Moves` says which
card such a chain can move besides: the card of a move, the source of a payment, or none. A payment
that fails moves cards and moves them back, so that on a tidy board all of them are where they were
(`Payment.rests_payAll_failed`).
-/

namespace Doomtown

open Play

namespace Board

variable {b b' b'' : Board} {c : CardId} {moving : Option CardId}

/-! ## Moving one card at most -/

/-- Play leads from one board to another and moves no card but the one given, if one is. -/
structure Moves (moving : Option CardId) (b b' : Board) : Prop where
  stirs : b.Stirs b'
  places : ∀ c, moving ≠ some c → b'.place? c = b.place? c

/-- Play leads from one board to another and moves no card. -/
abbrev Rests : Board → Board → Prop := Moves none

theorem Moves.refl (moving : Option CardId) (b : Board) : b.Moves moving b :=
  ⟨.refl, fun _ _ => rfl⟩

theorem Moves.trans (h : b.Moves moving b') (h' : b'.Moves moving b'') : b.Moves moving b'' :=
  ⟨h.stirs.trans h'.stirs, fun c hc => (h'.places c hc).trans (h.places c hc)⟩

/-- Who moves nothing moves no card but the one given. -/
theorem Rests.moves (h : b.Rests b') (moving : Option CardId) : b.Moves moving b' :=
  ⟨h.stirs, fun c _ => h.places c (by simp)⟩

theorem Still.rests (h : b.Still b') (hafield : ∀ c, b'.isAfield c → b.isAfield c) : b.Rests b' :=
  ⟨.single (.still h hafield), fun c _ => h.places c⟩

/-- A chain of plays each of which moves one card at most moves no other. -/
theorem moves_of_chain (h : Relation.ReflTransGen (Moves moving) b b') : b.Moves moving b' :=
  Play.link_of_chain (.refl moving) .trans h

/-! ## Cards, players and the round -/

/-- Changing something else of a card than its place moves nothing. -/
theorem rests_modifyCard (c : CardId) {f : Card → Card}
    (hplace : ∀ card, (f card).id = card.id ∧ (f card).owner = card.owner ∧
      (f card).location = card.location)
    (htown : ∀ card, (f card).inTownSquare → card.inTownSquare) :
    (modifyCard c f).Chains Rests := by
  refine .single fun b => ?_
  cases hcard : b.card? c with
  | none =>
    have hends : (modifyCard c f).ends b = (.error (.unknownId c.number), b) := by
      unfold modifyCard getCard
      simp [ends_bind, ends_discard, hcard, Except.map]
    rw [hends]
    exact .refl none b
  | some card =>
    rw [modifyCard_ends hcard]
    have hget : ∀ c', ({ b with cards := b.cards.modify c f } : Board).card? c' =
        if c = c' then (b.card? c').map f else b.card? c' := fun c' => IdMap.get?_modify _ _ _ _
    refine Still.rests ⟨rfl, rfl, fun c' => ?_, rfl, rfl⟩ fun c' hafield => ?_
    · unfold place?
      rw [hget]
      split
      · rw [Option.map_map]
        congr 1
        funext card'
        obtain ⟨hid, ho, hl⟩ := hplace card'
        simp [hid, ho, hl]
      · rfl
    · rcases (Bool.or_eq_true _ _).mp hafield with hpart | hin
      · exact (Bool.or_eq_true _ _).mpr (.inl hpart)
      · refine (Bool.or_eq_true _ _).mpr (.inr ?_)
        unfold cardIs at hin ⊢
        rw [hget] at hin
        split at hin
        · rw [Option.any_map] at hin
          obtain ⟨card', hcard', hin⟩ := (Option.any_eq_true _ _).mp hin
          rw [hcard']
          exact htown card' hin
        · exact hin

/-- A change that leaves cards, zones, the shootout and who plays alone moves nothing. -/
theorem rests_of_cards_eq (hcards : b'.cards = b.cards) (harea : b'.playArea = b.playArea)
    (hzones : b'.privateZones = b.privateZones) (hshootout : b'.shootout = b.shootout)
    (hplayers : b'.players.map (·.id) = b.players.map (·.id))
    (hnext : b'.nextNumber = b.nextNumber) : b.Rests b' := by
  have hcard : ∀ c, b'.card? c = b.card? c := fun c => by unfold card?; rw [hcards]
  refine Still.rests ⟨harea, hzones, fun c => ?_, hplayers, hnext⟩ fun c hafield => ?_
  · rw [place?, hcard, place?]
  · have hsame : b'.isAfield c = b.isAfield c := by
      rw [isAfield, isParticipating, cardIs, hshootout, hcard, isAfield, isParticipating, cardIs]
    rw [← hsame]
    exact hafield

theorem rests_modifyPlayer (p : PlayerId) {f : Player → Player}
    (hf : ∀ player, (f player).id = player.id) : (modifyPlayer p f).Chains Rests := by
  refine .single fun b => ?_
  cases hplayer : b.player? p with
  | none =>
    have hends : (modifyPlayer p f).ends b = (.error (.unknownId p.number), b) := by
      unfold modifyPlayer getPlayer
      simp [ends_bind, ends_discard, hplayer, Except.map]
    rw [hends]
    exact .refl none b
  | some player =>
    rw [modifyPlayer_ends hplayer]
    refine rests_of_cards_eq rfl rfl rfl rfl ?_ rfl
    dsimp only
    generalize b.players = players
    induction players with
    | nil => rfl
    | cons player' rest ih =>
      by_cases hp : player'.id = p
      · simp [modifyFirst, hp, hf]
      · simp [modifyFirst, hp, ih]

theorem rests_boot (c : CardId) : (boot c).Chains Rests :=
  rests_modifyCard c (fun _ => ⟨rfl, rfl, rfl⟩) fun _ h => h

theorem rests_unboot (c : CardId) : (unboot c).Chains Rests :=
  rests_modifyCard c (fun _ => ⟨rfl, rfl, rfl⟩) fun _ h => h

theorem rests_gain (p : PlayerId) (amount : Nat) : (gain p amount).Chains Rests :=
  rests_modifyPlayer p fun _ => rfl

theorem rests_spend (p : PlayerId) (amount : Nat) : (spend p amount).Chains Rests := by
  refine .bind (.bind .look fun b => ?_) fun player => .ite (rests_modifyPlayer p fun _ => rfl)
    (.fail _)
  cases b.player? p with
  | none => exact .fail _
  | some player => exact .answer _

theorem rests_change_round (f : Board → RoundState) :
    (change fun b => { b with round := f b } : Play Board Unit).Chains Rests :=
  .change fun _ => rests_of_cards_eq rfl rfl rfl rfl rfl rfl

theorem rests_takeTimestamp : takeTimestamp.Chains Rests :=
  .bind (.view _) fun _ => .bind (.change fun _ => rests_of_cards_eq rfl rfl rfl rfl rfl rfl)
    fun _ => .answer _

/-- Whoever is taken out of the shootout is not put into it. -/
theorem rests_removeFromShootout (b : Board) (c : CardId) : b.Rests (b.removeFromShootout c) := by
  refine Still.rests ⟨rfl, rfl, fun _ => rfl, rfl, rfl⟩ fun c' hafield => ?_
  rcases (Bool.or_eq_true _ _).mp hafield with hpart | hin
  · unfold isParticipating removeFromShootout at hpart
    rw [Option.any_map] at hpart
    obtain ⟨s, hs, hin⟩ := (Option.any_eq_true _ _).mp hpart
    rw [contains_remove, Bool.and_eq_true] at hin
    simp [isAfield, isParticipating, hs, hin.1]
  · exact (Bool.or_eq_true _ _).mpr (.inr hin)

theorem rests_sendHome (c : CardId) : (sendHome c).Chains Rests :=
  .bind (.change fun b => rests_removeFromShootout b c) fun _ =>
    rests_modifyCard c (fun _ => ⟨rfl, rfl, rfl⟩) fun _ h => by simp at h

/-! ## Moves -/

theorem moves_moved {card : Card} (hcard : b.card? c = some card) (hlists : b.lists c card)
    (destination : Location) : b.Moves (some c) (b.moved c card destination) := by
  refine ⟨.single (.moved hcard hlists destination), fun c' hc => ?_⟩
  rw [place?, card?_moved_other (fun heq => hc (congrArg some heq)), place?]

/-- A card that its zone lists moves; otherwise the move fails and nothing moves. -/
theorem moveCard_cases (c : CardId) (destination : Location) (b : Board) :
    (∃ e, (moveCard c destination).ends b = (.error e, b)) ∨
      ∃ card, b.card? c = some card ∧ b.lists c card ∧
        (moveCard c destination).ends b = (.ok card.location, b.moved c card destination) := by
  cases hcard : b.card? c with
  | none =>
    refine .inl ⟨.unknownId c.number, ?_⟩
    unfold moveCard getCard
    simp [ends_bind, hcard]
  | some card =>
    cases hlists : b.lists c card with
    | false => exact .inl ⟨_, moveCard_unlisted hcard hlists⟩
    | true => exact .inr ⟨card, rfl, hlists, moveCard_ends hcard hlists⟩

/-- A move moves its card or nothing. -/
theorem moves_moveCard (c : CardId) (destination : Location) :
    (moveCard c destination).Chains (Moves (some c)) := by
  refine .single fun b => ?_
  rcases moveCard_cases c destination b with ⟨e, hends⟩ | ⟨card, hcard, hlists, hends⟩
  · rw [hends]
    exact .refl _ b
  · rw [hends]
    exact moves_moved hcard hlists destination

/-- Play brings no card onto the board and takes none from it. -/
theorem card?_isSome_stirs (h : b.Stirs b') (c : CardId) :
    (b'.card? c).isSome = (b.card? c).isSome := by
  induction h with
  | refl => rfl
  | tail _ hstir ih =>
    rw [← ih]
    cases hstir with
    | still hstill _ => exact card?_isSome_of_place? (hstill.places c)
    | @moved c' card hcard' _ destination =>
      by_cases hc : c' = c
      · subst hc
        rw [card?_moved hcard', hcard']
        rfl
      · rw [card?_moved_other hc]

/-- Whoever is on the board stays there in play. -/
theorem card?_isSome_of_stirs (h : b.Stirs b')
    (hcard : (b.card? c).isSome) : (b'.card? c).isSome :=
  (card?_isSome_stirs h c).trans hcard

/-- A card that has been put back at the end of its zone is where it was. -/
theorem place?_resettled (b : Board) (c : CardId) (o : PlayerId) (l : Location) (c' : CardId) :
    (b.resettled c o l).place? c' = b.place? c' := by
  have hget : (b.resettled c o l).card? c' = if c = c' then (b.card? c').map fun card =>
      { card with inTownSquare := card.inTownSquare && !decide (l = .playArea) }
      else b.card? c' := IdMap.get?_modify _ _ _ _
  unfold place?
  rw [hget]
  split
  · rw [Option.map_map]
    rfl
  · rfl

end Board

open Board

/-! ## Payments -/

/-- The card that a payment moved, if it moved one. -/
def CostReceipt.moves? : CostReceipt → Option CardId
  | .moved c _ _ => some c
  | .booted _ | .ghostRockSpent .. => none

/-- Undoing a payment moves the card that the payment moved. -/
theorem CostReceipt.moves_revert {moving : Option CardId} (r : CostReceipt)
    (hr : ∀ c, r.moves? = some c → moving = some c) : r.revert.Chains (Moves moving) := by
  cases r with
  | booted c => exact (rests_unboot c).mono fun _ _ h => h.moves moving
  | ghostRockSpent p amount => exact (rests_gain p amount).mono fun _ _ h => h.moves moving
  | moved c origin destination =>
    rw [hr c rfl]
    exact .discard (moves_moveCard c origin)

namespace Payment

variable {title : String} {x : Activation}

theorem moves_revertAll {moving : Option CardId} :
    ∀ receipts : List CostReceipt, (∀ r ∈ receipts, ∀ c, r.moves? = some c → moving = some c) →
      (revertAll receipts).Chains (Moves moving)
  | [], _ => .answer _
  | r :: rest, h => .bind (r.moves_revert (h r List.mem_cons_self)) fun _ =>
      moves_revertAll rest fun r' hr' => h r' (List.mem_cons_of_mem r hr')

/-- Costs are paid one after the other if each can be paid by itself, and are refused otherwise. -/
theorem payAll_ends (title : String) (x : Activation) (costs : List Cost) (b : Board) :
    (payAll title x costs).ends b = if canPayAll b x costs then (payFrom title x [] costs).ends b
      else (.error (.refused (.costsUnaffordable title)), b) := by
  unfold payAll
  rw [ends_bind_ok (ends_look b)]
  by_cases hcan : canPayAll b x costs
  · simp only [hcan, Bool.not_true, Bool.false_eq_true, if_false, if_true]
  · simp only [hcan, Bool.not_false, if_true, Bool.false_eq_true, if_false]
    rfl

/-! ### One cost after the other -/

/-- How a payment ends if `P` holds of the costs that are left, the receipts so far and the board
after each cost that is paid: all costs are paid, or one fails and what is paid is reverted. -/
inductive Outcome (title : String) (P : List Cost → List CostReceipt → Board → Prop) :
    Except RulesError (List CostReceipt) × Board → Prop where
  | paid {paid : List CostReceipt} {b : Board} (h : P [] paid b) :
    Outcome title P (.ok paid.reverse, b)
  | reverted {rest : List Cost} {paid : List CostReceipt} {b b' : Board} {e cause : RulesError}
      (h : P rest paid b) (hreverts : ((revertAll paid).ends b).2 = b')
      (herror : ((revertAll paid).ends b).1 = .ok () → e = .paymentFailed title cause) :
    Outcome title P (.error e, b')

theorem outcome_payFrom {P : List Cost → List CostReceipt → Board → Prop}
    (hpays : ∀ {cost rest r paid b b'}, P (cost :: rest) paid b →
      (cost.pay x).ends b = (.ok r, b') → cost.Pays b x r b' → P rest (r :: paid) b') :
    ∀ (costs : List Cost) (paid : List CostReceipt) {b : Board}, P costs paid b →
      Outcome title P ((payFrom title x paid costs).ends b)
  | [], _, _, h => .paid h
  | cost :: rest, paid, b, h => by
    rcases cost.pay_ends x b with ⟨r, b', hpay, hpaid⟩ | ⟨cause, hpay⟩
    · rw [payFrom_cons_ok hpay]
      exact outcome_payFrom hpays rest (r :: paid) (hpays h hpay hpaid)
    · rw [payFrom, ends_bind, ends_attempt, hpay]
      dsimp only
      rw [ends_bind]
      rcases hrevert : (revertAll paid).ends b with ⟨e | _, b'⟩
      · have herror : ((revertAll paid).ends b).1 = .ok () → e = .paymentFailed title cause := by
          simp [hrevert]
        exact .reverted h (by rw [hrevert]) herror
      · exact .reverted h (by rw [hrevert]; rfl) fun _ => rfl

/-- The receipt of a cost names no other card as moved than the source. -/
theorem source_of_pays {b b' : Board} {cost : Cost} {r : CostReceipt} (h : cost.Pays b x r b')
    {c : CardId} (hc : r.moves? = some c) : x.source = c := by
  cases h with
  | boot => simp [CostReceipt.moves?] at hc
  | spend => simp [CostReceipt.moves?] at hc
  | move => exact Option.some.inj hc

/-- A payment whose receipt names no card as moved moves nothing. -/
theorem rests_of_pays {b b' : Board} {cost : Cost} {r : CostReceipt} (h : cost.Pays b x r b')
    (hr : r.moves? = none) : b.Rests b' := by
  cases h with
  | @boot _ c _ _ hcard =>
    have hrests := moves_of_chain (rests_boot c b)
    rw [boot, modifyCard_ends hcard] at hrests
    exact hrests
  | @spend amount _ hplayer hspend =>
    have hrests := moves_of_chain (rests_spend x.player amount b)
    rw [spend_ends hplayer hspend] at hrests
    exact hrests
  | move => simp [CostReceipt.moves?] at hr

/-- A payment moves the source or nothing. -/
theorem moves_of_pays {b b' : Board} {cost : Cost} {r : CostReceipt} (h : cost.Pays b x r b') :
    b.Moves (some x.source) b' := by
  cases hr : r.moves? with
  | none => exact (rests_of_pays h hr).moves _
  | some c =>
    cases h with
    | boot => simp [CostReceipt.moves?] at hr
    | spend => simp [CostReceipt.moves?] at hr
    | move _ hcard hlists => exact moves_moved hcard hlists _

/-- What the receipts of costs say about moves: none of another card than the source, and none at
all only if nothing has moved. -/
structure Accounts (x : Activation) (b : Board) (receipts : List CostReceipt) (b' : Board) :
    Prop where
  source : ∀ r ∈ receipts, ∀ c, r.moves? = some c → x.source = c
  moved : b.Rests b' ∨ (b.card? x.source).isSome ∧ ∃ r ∈ receipts, r.moves? = some x.source

theorem Accounts.nil (x : Activation) (b : Board) : Accounts x b [] b :=
  ⟨by simp, .inl (.refl none b)⟩

/-- A receipt joins those before it. -/
theorem Accounts.cons {b b₁ b₂ : Board} {paid : List CostReceipt} {cost : Cost} {r : CostReceipt}
    (h : Accounts x b paid b₁) (hstirs : b.Stirs b₁) (hpays : cost.Pays b₁ x r b₂) :
    Accounts x b (r :: paid) b₂ := by
  refine ⟨List.forall_mem_cons.mpr ⟨fun c => source_of_pays hpays, h.source⟩, ?_⟩
  cases hr : r.moves? with
  | none =>
    refine h.moved.imp (·.trans (rests_of_pays hpays hr)) fun ⟨hcard, r', hr', hmoves⟩ => ?_
    exact ⟨hcard, r', List.mem_cons_of_mem r hr', hmoves⟩
  | some c =>
    obtain rfl := source_of_pays hpays hr
    refine .inr ⟨?_, r, List.mem_cons_self, hr⟩
    rw [← card?_isSome_stirs hstirs]
    cases hpays with
    | boot => simp [CostReceipt.moves?] at hr
    | spend => simp [CostReceipt.moves?] at hr
    | move _ hcard => simp [hcard]

/-- The source is moved or nothing, and the receipts account for it, however far a payment gets. -/
theorem outcome_accounts (costs : List Cost) (b : Board) :
    Outcome title (fun _ paid b' => b.Moves (some x.source) b' ∧ Accounts x b paid b')
      ((payFrom title x [] costs).ends b) :=
  outcome_payFrom (fun ⟨hmoves, haccounts⟩ _ hpays =>
    ⟨hmoves.trans (moves_of_pays hpays), haccounts.cons hmoves.stirs hpays⟩) costs []
    ⟨.refl _ b, .nil x b⟩

/-- Paying costs moves the source or nothing, whether it fails or not. -/
theorem moves_payFrom (costs : List Cost) (b : Board) :
    b.Moves (some x.source) ((payFrom title x [] costs).ends b).2 := by
  have houtcome := @outcome_accounts title x costs b
  generalize (payFrom title x [] costs).ends b = ending at houtcome
  cases houtcome with
  | paid h => exact h.1
  | reverted h hreverts =>
    obtain ⟨hmoves, haccounts⟩ := h
    rw [← hreverts]
    exact hmoves.trans (moves_of_chain (moves_revertAll _ (fun r hr c hc =>
      congrArg some (haccounts.source r hr c hc)) _))

theorem moves_payAll (costs : List Cost) (b : Board) :
    b.Moves (some x.source) ((payAll title x costs).ends b).2 := by
  rw [payAll_ends]
  split
  · exact moves_payFrom costs b
  · exact .refl _ b

theorem accounts_payAll {receipts : List CostReceipt} {costs : List Cost} {b b' : Board}
    (h : (payAll title x costs).ends b = (.ok receipts, b')) : Accounts x b receipts b' := by
  rw [payAll_ends] at h
  split at h
  · have houtcome := @outcome_accounts title x costs b
    rw [h] at houtcome
    cases houtcome with
    | paid hpaid =>
      obtain ⟨-, hsource, hmoved⟩ := hpaid
      exact ⟨fun r hr => hsource r (List.mem_reverse.mp hr), hmoved.imp_right fun hmoved =>
        ⟨hmoved.1, by simpa using hmoved.2⟩⟩
  · simp at h

/-- On a tidy board a payment that fails leaves every card where it was. -/
theorem rests_payAll_failed {b b' : Board} (hb : b.Tidy) {costs : List Cost} {e : RulesError}
    (h : (payAll title x costs).ends b = (.error e, b')) : b.Rests b' := by
  have hmoves : b.Moves (some x.source) ((payAll title x costs).ends b).2 := moves_payAll costs b
  rw [h] at hmoves
  refine ⟨hmoves.stirs, fun c _ => ?_⟩
  -- The board is as it was, or the source was put back at the end of its zone.
  suffices hback : b' = b ∨ ∃ o l, b' = b.resettled x.source o l by
    rcases hback with rfl | ⟨o, l, rfl⟩
    · rfl
    · exact place?_resettled b x.source o l c
  rw [payAll_ends] at h
  split at h
  · by_cases hstill : ∀ cost ∈ paidFrom x b costs, cost.destination = none
    · left
      have hback := payFrom_still costs b [] rfl hstill (congrArg Prod.fst h)
      rw [h] at hback
      exact hback
    · right
      simp only [not_forall, exists_prop] at hstill
      obtain ⟨card, hcard⟩ := source_of_paidFrom costs b hstill
      have hback : ((payFrom title x [] costs).ends b).2 =
          b.resettled x.source card.owner card.location :=
        payFrom_settles costs b [] card (hb.consistent.seats hcard) (hb.homes x.source card hcard)
          rfl (.inr hstill) (congrArg Prod.fst h)
      rw [h] at hback
      exact ⟨_, _, hback⟩
  · exact .inl (congrArg Prod.snd h).symm

/-! ## Taking payments back -/

/-- Only boots are taken back, which moves nothing. -/
theorem rests_unpay (r : CostReceipt) : r.unpay.Chains Rests := by
  refine .single fun b => ?_
  unfold CostReceipt.unpay
  rw [ends_bind_ok (ends_look b)]
  by_cases hcan : r.canUnpay b
  · simp only [hcan, Bool.not_true, Bool.false_eq_true, if_false]
    cases r with
    | booted c => exact moves_of_chain (rests_unboot c b)
    | ghostRockSpent p amount => simp [CostReceipt.canUnpay] at hcan
    | moved c origin destination => simp [CostReceipt.canUnpay] at hcan
  · simp only [hcan, Bool.not_false, if_true]
    exact .refl none b

theorem rests_unpayAll (receipts : List CostReceipt) : (unpayAll receipts).Chains Rests := by
  unfold unpayAll
  induction receipts.reverse with
  | nil => exact .answer _
  | cons r rest ih => exact .bind (rests_unpay r) fun _ => ih

end Payment

end Doomtown
