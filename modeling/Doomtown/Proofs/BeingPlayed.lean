import Doomtown.Proofs.Upkeep

/-!
# Cards that are being played

Nothing on the board leads to a new card that is being played but a move of the card there
(`Board.Withholds`). Of the payments that is the cost of playing an action from the hand. If a later
cost fails the card goes back to the hand, since its owner has zones, so that reverting cannot get
stuck: an error other than that of a failed payment leaves no card there
(`Payment.refused_withholds`).
-/

namespace Doomtown

open Play

namespace Board

variable {b b' b'' : Board} {c : CardId} {card : Card}

/-- Whether a card is being played. -/
def isPlayed (b : Board) (c : CardId) : Bool := b.cardIs c (·.location = .beingPlayed)

/-- No card is being played that was not. -/
def Withholds (b b' : Board) : Prop := ∀ c, b'.isPlayed c → b.isPlayed c

theorem Withholds.refl (b : Board) : b.Withholds b := fun _ => id

theorem Withholds.trans (h : b.Withholds b') (h' : b'.Withholds b'') : b.Withholds b'' :=
  fun c hc => h c (h' c hc)

theorem Withholds.not_isPlayed (h : b.Withholds b') (hc : b.isPlayed c = false) :
    b'.isPlayed c = false :=
  Bool.eq_false_iff.mpr fun hplayed => Bool.eq_false_iff.mp hc (h c hplayed)

theorem withholds_of_chain (h : Relation.ReflTransGen Withholds b b') : b.Withholds b' :=
  Play.link_of_chain .refl .trans h

theorem isPlayed_of_place? (h : b'.place? c = b.place? c) : b'.isPlayed c = b.isPlayed c :=
  cardIs_of_place? h (· = .beingPlayed)

/-- What moves no card. -/
theorem Moves.withholds (h : b.Moves none b') : b.Withholds b' := fun c hc => by
  rwa [isPlayed_of_place? (h.places c (by simp))] at hc

/-- What moves one card can only let that one be played. -/
theorem Moves.isPlayed (h : b.Moves (some c) b') {c' : CardId} (hnow : b'.isPlayed c')
    (hbefore : b.isPlayed c' = false) : c' = c := by
  by_contra hne
  rw [isPlayed_of_place? (h.places c' fun heq => hne (Option.some.inj heq).symm), hbefore] at hnow
  simp at hnow

theorem isPlayed_moved (hcard : b.card? c = some card) (destination : Location) :
    (b.moved c card destination).isPlayed c = decide (destination = .beingPlayed) := by
  simp [isPlayed, cardIs, card?_moved hcard, arrived]

/-- A card that is moved elsewhere. -/
theorem withholds_moved (hcard : b.card? c = some card) {destination : Location}
    (hd : destination ≠ .beingPlayed) : b.Withholds (b.moved c card destination) := by
  intro c' hc'
  by_cases hc : c = c'
  · subst hc
    simp [isPlayed_moved hcard, hd] at hc'
  · rwa [isPlayed, cardIs, card?_moved_other hc] at hc'

theorem withholds_moveCard (c : CardId) {destination : Location} (hd : destination ≠ .beingPlayed) :
    (moveCard c destination).Chains Withholds := by
  refine .single fun b => ?_
  rcases moveCard_cases c destination b with ⟨err, hends⟩ | ⟨card, hcard, -, hends⟩
  · rw [hends]
    exact .refl b
  · rw [hends]
    exact withholds_moved hcard hd

/-! ## Owners who have zones -/

/-- Whether a card's owner has private zones. -/
def isHomed (b : Board) (c : CardId) : Bool :=
  ((b.card? c).map (·.owner)).any fun o => (b.privateZones? o).isSome

/-- A card is listed where it is, and its owner has private zones. -/
def Housed (b : Board) (c : CardId) : Prop := b.isHomed c ∧ (b.card? c).any (b.lists c)

/-- Whoever has private zones has them whatever is played. -/
theorem privateZones?_isSome_stir (h : b.Stir b') (p : PlayerId) :
    (b'.privateZones? p).isSome = (b.privateZones? p).isSome := by
  rw [Bool.eq_iff_iff, privateZones?_isSome_iff, privateZones?_isSome_iff]
  cases h with
  | still hstill _ => rw [hstill.privateZones]
  | moved => rw [owners_moved]

/-- A card stays the card of its owner. -/
theorem owner_stir (h : b.Stir b') (c : CardId) :
    (b'.card? c).map (·.owner) = (b.card? c).map (·.owner) := by
  cases h with
  | still hstill _ =>
    have hplace := congrArg (Option.map fun place => place.2.1) (hstill.places c)
    simpa [place?, Option.map_map, Function.comp_def] using hplace
  | @moved c' card hcard _ destination =>
    by_cases hc : c' = c
    · subst hc
      rw [card?_moved hcard, hcard]
      rfl
    · rw [card?_moved_other hc]

theorem isHomed_stirs (h : b.Stirs b') (c : CardId) : b'.isHomed c = b.isHomed c := by
  induction h with
  | refl => rfl
  | tail _ hstir ih =>
    unfold isHomed at ih ⊢
    rw [← ih, owner_stir hstir]
    simp only [privateZones?_isSome_stir hstir]

/-- A zone that another card has passed lists whom it listed. -/
theorem contains_passed {z : Zone} {c' : CardId} {leaves enters : Prop} [Decidable leaves]
    [Decidable enters] (hc : c' ≠ c) (hz : z.contains c) :
    (passed z c' leaves enters).contains c := by
  have hmem : c ∈ z.cards := by simpa [Zone.contains] using hz
  unfold passed
  split <;> split <;>
    simp [Zone.contains, Zone.add, Zone.remove, List.mem_erase_of_ne (Ne.symm hc), hmem]

/-- A card of an owner who has private zones is listed where it has moved to. -/
theorem lists_moved (hcard : b.card? c = some card) (hhomed : b.isHomed c)
    (destination : Location) :
    ((b.moved c card destination).card? c).any ((b.moved c card destination).lists c) := by
  have hzones : (b.privateZones? card.owner).isSome := by simpa [isHomed, hcard] using hhomed
  have hzone : (b.zone? card.owner destination).isSome := by
    by_cases hd : destination = .playArea
    · rw [hd]
      rfl
    · exact zone?_isSome hzones hd
  obtain ⟨z, hz⟩ := Option.isSome_iff_exists.mp hzone
  rw [card?_moved hcard, Option.any_some]
  show ((b.moved c card destination).zone? card.owner destination).any (·.contains c) = true
  rw [zone?_moved, hz]
  simp [passed, Zone.contains, Zone.add]

/-- A card that is listed where it is stays so whatever is played, if its owner has private
zones. -/
theorem Housed.stirs (h : b.Housed c) (hstirs : b.Stirs b') : b'.Housed c := by
  refine ⟨(isHomed_stirs hstirs c).trans h.1, ?_⟩
  induction hstirs with
  | refl => exact h.2
  | @tail b₁ b₂ hpast hstir ih =>
    have hhomed := (isHomed_stirs hpast c).trans h.1
    cases hstir with
    | still hstill _ =>
      obtain ⟨card, hcard, hlists⟩ := (Option.any_eq_true _ _).mp ih
      obtain ⟨card', hcard', -, howner, hlocation⟩ := card?_of_place? (hstill.places c).symm hcard
      rw [hcard', Option.any_some, lists, hstill.zone?, howner, hlocation]
      exact hlists
    | @moved c' card' hcard' _ destination =>
      by_cases hc : c' = c
      · -- The card itself is moved, and is listed where it arrives.
        subst hc
        exact lists_moved hcard' hhomed destination
      · obtain ⟨card, hcard, hlists⟩ := (Option.any_eq_true _ _).mp ih
        obtain ⟨z, hz, hcontains⟩ := (Option.any_eq_true _ _).mp hlists
        rw [card?_moved_other hc, hcard, Option.any_some, lists, zone?_moved, hz]
        exact contains_passed hc hcontains

/-- A card that is listed where it is can be moved. -/
theorem Housed.moveCard_ends (h : b.Housed c) (destination : Location) :
    ∃ l b', (moveCard c destination).ends b = (.ok l, b') := by
  obtain ⟨card, hcard, hlists⟩ := (Option.any_eq_true _ _).mp h.2
  exact ⟨_, _, Board.moveCard_ends hcard hlists⟩

/-- Whoever plays goes on playing. -/
theorem player?_isSome_stirs {p : PlayerId} (h : b.Stirs b') (hp : (b.player? p).isSome) :
    (b'.player? p).isSome := by
  have hmem : ∀ b : Board, (b.player? p).isSome ↔ p ∈ b.players.map (·.id) := fun b => by
    simp [Board.player?, List.find?_isSome]
  rw [hmem] at hp ⊢
  induction h with
  | refl => exact hp
  | @tail b₁ _ _ hstir ih =>
    cases hstir with
    | still hstill _ => rwa [hstill.players]
    | @moved c card _ _ destination =>
      have hsame : (b₁.moved c card destination).players = b₁.players := by simp [Board.moved]
      rwa [hsame]

end Board

open Board

/-! ## Reverting payments -/

variable {b b' : Board} {title : String} {x : Activation} {cost : Cost} {r : CostReceipt}

/-- A payment can be undone, whatever else is played in between. -/
def CostReceipt.Undoable (b : Board) (r : CostReceipt) : Prop :=
  ∀ b', b.Stirs b' → ∃ b'', r.revert.ends b' = (.ok (), b'')

theorem CostReceipt.Undoable.stirs (h : r.Undoable b) (hstirs : b.Stirs b') : r.Undoable b' :=
  fun b'' h' => h b'' (hstirs.trans h')

/-- A cost that is paid for a card whose owner has private zones can be undone. -/
theorem Cost.Pays.undoable (h : cost.Pays b x r b') (hstirs : b.Stirs b')
    (hhomed : b.isHomed x.source) : r.Undoable b' := by
  intro b'' hstirs'
  cases h with
  | @boot _ c _ _ hcard =>
    have hsome := card?_isSome_of_stirs (hstirs.trans hstirs') (c := c) (by rw [hcard]; rfl)
    obtain ⟨card', hcard'⟩ := Option.isSome_iff_exists.mp hsome
    exact ⟨_, modifyCard_ends hcard' _⟩
  | @spend amount _ hplayer =>
    have hsome := player?_isSome_stirs (hstirs.trans hstirs') (p := x.player) (by rw [hplayer]; rfl)
    obtain ⟨player', hplayer'⟩ := Option.isSome_iff_exists.mp hsome
    exact ⟨_, modifyPlayer_ends hplayer' _⟩
  | @move _ destination card _ hcard =>
    -- The card is listed where the payment has moved it to.
    have hhoused : (b.moved x.source card destination).Housed x.source :=
      ⟨(isHomed_stirs hstirs _).trans hhomed, lists_moved hcard hhomed destination⟩
    obtain ⟨l, b₁, hends⟩ := (hhoused.stirs hstirs').moveCard_ends card.location
    refine ⟨b₁, ?_⟩
    show (discard (Board.moveCard x.source card.location)).ends b'' = _
    rw [ends_discard, hends]
    rfl

namespace Payment

/-- Payments that can be undone are all reverted. -/
theorem revertAll_ends :
    ∀ (paid : List CostReceipt) {b : Board}, (∀ r ∈ paid, r.Undoable b) →
      ∃ b', (revertAll paid).ends b = (.ok (), b')
  | [], b, _ => ⟨b, rfl⟩
  | r :: rest, b, h => by
    obtain ⟨b₁, hrevert⟩ := h r List.mem_cons_self b .refl
    have hstirs : b.Stirs b₁ := by
      have hmoves : b.Moves r.moves? (r.revert.ends b).2 :=
        moves_of_chain (r.moves_revert (fun _ hc => hc) b)
      rw [hrevert] at hmoves
      exact hmoves.stirs
    obtain ⟨b', hends⟩ := revertAll_ends rest fun r' hr' =>
      (h r' (List.mem_cons_of_mem r hr')).stirs hstirs
    exact ⟨b', (revertAll_cons hrevert rest).trans hends⟩

/-- The owner of the source has private zones, and what was paid can be undone. -/
def Reversible (x : Activation) (paid : List CostReceipt) (b : Board) : Prop :=
  b.isHomed x.source ∧ ∀ r ∈ paid, r.Undoable b

/-- What is paid where the owner of the source has private zones can be undone. -/
theorem Reversible.pays {paid : List CostReceipt} (h : Reversible x paid b)
    (hpays : cost.Pays b x r b') : Reversible x (r :: paid) b' := by
  have hstirs := (moves_of_pays hpays).stirs
  exact ⟨(isHomed_stirs hstirs _).trans h.1, List.forall_mem_cons.mpr
    ⟨hpays.undoable hstirs h.1, fun r hr => (h.2 r hr).stirs hstirs⟩⟩

/-- Then all is reverted that was paid before a cost fails. -/
theorem payFrom_failed {costs : List Cost} {err : RulesError} (hhomed : b.isHomed x.source)
    (h : (payFrom title x [] costs).ends b = (.error err, b')) :
    ∃ cause, err = .paymentFailed title cause := by
  have houtcome : Outcome title (fun _ paid b' => Reversible x paid b')
      ((payFrom title x [] costs).ends b) :=
    outcome_payFrom (fun h _ hpays => h.pays hpays) costs [] ⟨hhomed, by simp⟩
  rw [h] at houtcome
  cases houtcome with
  | reverted hpaid _ herror =>
    obtain ⟨_, hreverts⟩ := revertAll_ends _ hpaid.2
    exact ⟨_, herror (by rw [hreverts])⟩

/-! ## Payments that let no card be played -/

/-- A receipt for no move from where cards are being played. -/
def FromElsewhere (r : CostReceipt) : Prop := ∀ c l, r ≠ .moved c .beingPlayed l

theorem withholds_revert (h : FromElsewhere r) : r.revert.Chains Withholds := by
  cases r with
  | booted c => exact (rests_unboot c).mono fun _ _ => Moves.withholds
  | ghostRockSpent p amount => exact (rests_gain p amount).mono fun _ _ => Moves.withholds
  | moved c origin destination =>
    exact .discard (withholds_moveCard c fun horigin => h c destination (by rw [horigin]))

theorem withholds_revertAll :
    ∀ paid : List CostReceipt, (∀ r ∈ paid, FromElsewhere r) → (revertAll paid).Chains Withholds
  | [], _ => .answer _
  | r :: rest, h => .bind (withholds_revert (h r List.mem_cons_self)) fun _ =>
      withholds_revertAll rest fun r' hr' => h r' (List.mem_cons_of_mem r hr')

/-- An action is played from the hand. -/
theorem hand_of_playAction (h : (Cost.playAction.pay x).ends b = (.ok r, b')) {card : Card}
    (hcard : b.card? x.source = some card) : card.location = .hand := by
  unfold Cost.pay at h
  rw [ends_bind_ok (ends_look b)] at h
  by_cases hcan : Cost.playAction.canPay b x
  · simpa [Cost.canPay, cardIs, hcard] using hcan
  · simp [hcan, ends_bind] at h

/-- A card whose owner has no private zones is only moved out of the play area, so that no cost lets
it be played. -/
theorem withholds_pay (hhomed : b.isHomed x.source = false)
    (h : (cost.pay x).ends b = (.ok r, b')) (hpays : cost.Pays b x r b') :
    b.Withholds b' ∧ FromElsewhere r := by
  cases hr : r.moves? with
  | none =>
    refine ⟨(rests_of_pays hpays hr).withholds, fun c l heq => ?_⟩
    simp [heq, CostReceipt.moves?] at hr
  | some c =>
    cases hpays with
    | boot => simp [CostReceipt.moves?] at hr
    | spend => simp [CostReceipt.moves?] at hr
    | @move _ destination card hd hcard hlists hne =>
      have hzones : b.privateZones? card.owner = none := by
        simpa [isHomed, hcard] using hhomed
      -- Only the play area lists cards of an owner without zones.
      have hplay : card.location = .playArea := by
        by_contra hl
        rw [lists, zone?_private b _ hl, hzones] at hlists
        simp at hlists
      refine ⟨withholds_moved hcard ?_, fun c l heq => ?_⟩
      · rintro rfl
        have haction : cost = .playAction := by
          cases cost <;> simp [Cost.destination] at hd
          rfl
        subst haction
        have hhand := hand_of_playAction h hcard
        rw [hplay] at hhand
        simp at hhand
      · obtain ⟨-, hl, -⟩ := CostReceipt.moved.inj heq
        rw [hplay] at hl
        simp at hl

theorem withholds_payFrom (costs : List Cost) (hhomed : b.isHomed x.source = false) :
    b.Withholds ((payFrom title x [] costs).ends b).2 := by
  have houtcome : Outcome title (fun _ paid b' => b'.isHomed x.source = false ∧ b.Withholds b' ∧
      ∀ r ∈ paid, FromElsewhere r) ((payFrom title x [] costs).ends b) := by
    refine outcome_payFrom (fun ⟨hhomed, hwithholds, hpaid⟩ hpay hpays => ?_) costs []
      ⟨hhomed, .refl b, by simp⟩
    obtain ⟨hnext, hr⟩ := withholds_pay hhomed hpay hpays
    exact ⟨(isHomed_stirs (moves_of_pays hpays).stirs _).trans hhomed, hwithholds.trans hnext,
      List.forall_mem_cons.mpr ⟨hr, hpaid⟩⟩
  generalize (payFrom title x [] costs).ends b = ending at houtcome
  cases houtcome with
  | paid h => exact h.2.1
  | reverted h hreverts =>
    obtain ⟨-, hwithholds, hpaid⟩ := h
    rw [← hreverts]
    exact hwithholds.trans (withholds_of_chain (withholds_revertAll _ hpaid _))

/-- A payment that is refused lets no card be played, unless a cost fails after others were paid. -/
theorem refused_withholds {costs : List Cost} {err : RulesError}
    (h : (payAll title x costs).ends b = (.error err, b')) :
    (∃ cause, err = .paymentFailed title cause) ∨ b.Withholds b' := by
  rw [payAll_ends] at h
  split at h
  · -- Reverting can only get stuck at a move back, which needs the owner's zones.
    cases hhomed : b.isHomed x.source with
    | true => exact .inl (payFrom_failed hhomed h)
    | false =>
      have hwithholds : b.Withholds ((payFrom title x [] costs).ends b).2 :=
        withholds_payFrom costs hhomed
      rw [h] at hwithholds
      exact .inr hwithholds
  · obtain rfl : b = b' := congrArg Prod.snd h
    exact .inr (.refl b)

/-- A card that is being played once all costs are paid, and was not before, is the source, and a
receipt names it as moved. -/
theorem isPlayed_payAll {costs : List Cost} {receipts : List CostReceipt} {c : CardId}
    (h : (payAll title x costs).ends b = (.ok receipts, b')) (hnow : b'.isPlayed c)
    (hbefore : b.isPlayed c = false) :
    x.source = c ∧ ∃ r ∈ receipts, r.moves? = some c := by
  have hmoves : b.Moves (some x.source) ((payAll title x costs).ends b).2 := moves_payAll costs b
  rw [h] at hmoves
  obtain rfl := hmoves.isPlayed hnow hbefore
  refine ⟨rfl, ?_⟩
  rcases (accounts_payAll h).moved with hrests | ⟨-, hmoved⟩
  · simp [hrests.withholds.not_isPlayed hbefore] at hnow
  · exact hmoved

end Payment

end Doomtown
