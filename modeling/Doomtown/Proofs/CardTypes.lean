import Doomtown.Proofs.Stirs

/-!
# Cards keep their types

A card is of the type with which it was created. No play on the board changes that
(`Board.SameTypes`), whether it succeeds or fails.
-/

namespace Doomtown

open Play

/-! ## On the board -/

namespace Board

variable {b b' b'' : Board}

/-- Every card stays on the board as a card of its type. -/
def SameTypes (b b' : Board) : Prop :=
  ∀ c card, b.card? c = some card → ∃ card', b'.card? c = some card' ∧ card'.type = card.type

theorem SameTypes.refl (b : Board) : b.SameTypes b := fun _ card hcard => ⟨card, hcard, rfl⟩

theorem SameTypes.trans (h : b.SameTypes b') (h' : b'.SameTypes b'') : b.SameTypes b'' := by
  intro c card hcard
  obtain ⟨card', hcard', htype⟩ := h c card hcard
  obtain ⟨card'', hcard'', htype'⟩ := h' c card' hcard'
  exact ⟨card'', hcard'', htype'.trans htype⟩

theorem sameTypes_of_chain (h : Relation.ReflTransGen SameTypes b b') : b.SameTypes b' :=
  link_of_chain .refl .trans h

theorem sameTypes_change {f : Board → Board} (hf : ∀ b, (f b).cards = b.cards) :
    (change f).Chains SameTypes :=
  .change fun b c card hcard => ⟨card, by rw [Board.card?, hf]; exact hcard, rfl⟩

theorem sameTypes_modifyCard (c : CardId) {f : Card → Card}
    (hf : ∀ card, (f card).type = card.type) : (modifyCard c f).Chains SameTypes := by
  refine .bind (.discard (.bind .look fun b => ?_)) fun _ => .change fun b c' card hcard => ?_
  · cases b.card? c with
    | some card => exact .answer _
    | none => exact .fail _
  · have hget : ({ b with cards := b.cards.modify c f } : Board).card? c' =
        if c = c' then (b.card? c').map f else b.card? c' := IdMap.get?_modify _ _ _ _
    by_cases hc : c = c'
    · exact ⟨f card, by rw [hget, if_pos hc, hcard, Option.map_some], hf card⟩
    · exact ⟨card, by rw [hget, if_neg hc, hcard], rfl⟩

theorem sameTypes_modifyPlayer (p : PlayerId) (f : Player → Player) :
    (modifyPlayer p f).Chains SameTypes := by
  refine .bind (.discard (.bind .look fun b => ?_)) fun _ => sameTypes_change fun _ => rfl
  cases b.player? p with
  | some player => exact .answer _
  | none => exact .fail _

theorem sameTypes_boot (c : CardId) : (boot c).Chains SameTypes :=
  sameTypes_modifyCard c fun _ => rfl

theorem sameTypes_unboot (c : CardId) : (unboot c).Chains SameTypes :=
  sameTypes_modifyCard c fun _ => rfl

theorem sameTypes_gain (p : PlayerId) (amount : Nat) : (gain p amount).Chains SameTypes :=
  sameTypes_modifyPlayer p _

theorem sameTypes_spend (p : PlayerId) (amount : Nat) : (spend p amount).Chains SameTypes := by
  refine .bind (.bind .look fun b => ?_) fun player =>
    .ite (sameTypes_modifyPlayer p _) (.fail _)
  cases b.player? p with
  | some player => exact .answer _
  | none => exact .fail _

theorem sameTypes_sendHome (c : CardId) : (sendHome c).Chains SameTypes :=
  .bind (sameTypes_change fun _ => rfl) fun _ => sameTypes_modifyCard c fun _ => rfl

theorem sameTypes_takeTimestamp : takeTimestamp.Chains SameTypes :=
  .bind (.view _) fun _ => .bind (sameTypes_change fun _ => rfl) fun _ => .answer _

theorem sameTypes_moveCard (c : CardId) (destination : Location) :
    (moveCard c destination).Chains SameTypes := by
  refine .single fun b => ?_
  rcases moveCard_cases c destination b with ⟨err, hends⟩ | ⟨card, hcard, -, hends⟩
  · rw [hends]
    exact .refl b
  · rw [hends]
    intro c' card' hcard'
    by_cases hc : c = c'
    · subst hc
      obtain rfl := Option.some.inj (hcard.symm.trans hcard')
      exact ⟨_, card?_moved hcard, rfl⟩
    · exact ⟨card', by rw [card?_moved_other hc, hcard'], rfl⟩

end Board

open Board

/-! ## Payments -/

theorem CostReceipt.sameTypes_revert (r : CostReceipt) : r.revert.Chains SameTypes := by
  cases r with
  | booted c => exact sameTypes_unboot c
  | ghostRockSpent p amount => exact sameTypes_gain p amount
  | moved c origin _ => exact .discard (sameTypes_moveCard c origin)

namespace Payment

theorem sameTypes_revertAll :
    ∀ receipts : List CostReceipt, (revertAll receipts).Chains SameTypes
  | [] => .answer _
  | r :: rest => .bind r.sameTypes_revert fun _ => sameTypes_revertAll rest

theorem sameTypes_pay (cost : Cost) (x : Activation) : (cost.pay x).Chains SameTypes := by
  have hmove : ∀ destination, (Cost.payMove x.source destination).Chains SameTypes :=
    fun destination => .bind (sameTypes_moveCard x.source destination) fun _ => .answer _
  refine .bind .look fun b => .ite (.bind (.fail _) fun _ => ?_) ?_
  all_goals
    cases cost with
    | bootSelf => exact .bind (sameTypes_boot _) fun _ => .answer _
    | bootCard c => exact .bind (sameTypes_boot _) fun _ => .answer _
    | payGhostRock amount => exact .bind (sameTypes_spend _ _) fun _ => .answer _
    | discardSelf | aceSelf | playAction => exact hmove _

theorem sameTypes_payAll (title : String) (x : Activation) (costs : List Cost) :
    (payAll title x costs).Chains SameTypes := by
  have hfrom : ∀ (costs : List Cost) (paid : List CostReceipt),
      (payFrom title x paid costs).Chains SameTypes := by
    intro costs
    induction costs with
    | nil => exact fun paid => .answer _
    | cons cost rest ih =>
      refine fun paid => .bind (.attempt (sameTypes_pay cost x)) fun r => ?_
      cases r with
      | ok receipt => exact ih (receipt :: paid)
      | error cause => exact .bind (sameTypes_revertAll paid) fun _ => .fail _
  exact .bind .look fun b => .ite (.bind (.fail _) fun _ => hfrom costs []) (hfrom costs [])

theorem sameTypes_unpayAll (receipts : List CostReceipt) :
    (unpayAll receipts).Chains SameTypes := by
  unfold unpayAll
  induction receipts.reverse with
  | nil => exact .answer _
  | cons r rest ih =>
    refine .bind (.bind .look fun b => ?_) fun _ => ih
    exact .ite (.bind (.fail _) fun _ => r.sameTypes_revert) r.sameTypes_revert

/-- Cards keep their types where costs are taken back, whether all of them are or not. -/
theorem sameTypes_of_unpayAll {receipts : List CostReceipt} {b b' : Board}
    {r : Except RulesError Unit} (h : (unpayAll receipts).ends b = (r, b')) : b.SameTypes b' := by
  have hchain := sameTypes_unpayAll receipts b
  rw [h] at hchain
  exact sameTypes_of_chain hchain

end Payment

end Doomtown
