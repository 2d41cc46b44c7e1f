import Doomtown.Proofs.JointPayment
import Doomtown.Proofs.Retractable

/-!
# Refunds are whole

Payments that can be taken back are boots, and what is paid at one time are boots of different
cards. So if each of them can be taken back by itself, all can be taken back one after the other,
whatever has become of the board since: the cards are unbooted, and nothing else changes
(`Payment.TakenBack`). If one of them cannot be taken back, none is (`Payment.refund_whole`).
-/

namespace Doomtown

open Play

/-! ## What is refunded -/

namespace Payment

variable {b b₁ b₂ : Board} {r : CostReceipt} {l receipts : List CostReceipt}

/-- A board on which all payments that receipts are for have been taken back. -/
structure TakenBack (receipts : List CostReceipt) (b b' : Board) : Prop where
  /-- Each of them was for a card that was booted and is not any more. -/
  unbooted : ∀ r ∈ receipts, ∃ c, r = .booted c ∧ b.cardIs c (·.booted) ∧ b'.cardIs c (!·.booted)
  /-- Cards are as they were but for those boots. -/
  cards : ∀ c, b'.card? c = (b.card? c).map fun card =>
    { card with booted := card.booted && !decide (.booted c ∈ receipts) }
  rest : b' = { b with cards := b'.cards }

theorem TakenBack.nil (b : Board) : TakenBack [] b b :=
  ⟨by simp, fun c => by cases b.card? c <;> simp, rfl⟩

/-- Whoever takes back a payment has unbooted a card that was booted. -/
theorem takenBack_of_unpay (h : r.unpay.ends b = (.ok (), b₁)) : TakenBack [r] b b₁ := by
  by_cases hcan : r.canUnpay b
  · rw [CostReceipt.unpay_ends hcan] at h
    cases r with
    | booted c =>
      obtain ⟨card, hcard, hbooted⟩ := (Option.any_eq_true _ _).mp hcan
      have hends : (Board.unboot c).ends b = (.ok (), b₁) := h
      rw [Board.unboot, Board.modifyCard_ends hcard] at hends
      obtain ⟨-, rfl⟩ := Prod.mk.inj hends
      have hget : ∀ c', ({ b with cards := b.cards.modify c ({ · with booted := false }) } :
          Board).card? c' = (b.card? c').map fun card =>
            { card with booted := card.booted && !decide (CostReceipt.booted c' ∈ [.booted c]) } := by
        intro c'
        have hmodify := IdMap.get?_modify b.cards c c' ({ · with booted := false })
        by_cases hc : c = c'
        · subst hc
          simpa [Board.card?] using hmodify
        · simpa [Board.card?, hc, Ne.symm hc] using hmodify
      refine ⟨fun r hr => ?_, hget, rfl⟩
      obtain rfl := List.mem_singleton.mp hr
      refine ⟨c, rfl, hcan, ?_⟩
      rw [Board.cardIs, hget c, hcard]
      simp
    | _ => simp [CostReceipt.canUnpay] at hcan
  · -- What cannot be taken back is not, so the play would have failed.
    unfold CostReceipt.unpay at h
    rw [ends_bind_ok (ends_look b)] at h
    simp only [hcan, Bool.not_false, if_true] at h
    rw [ends_bind_error (ends_fail _ b)] at h
    simp at h

/-- One refund after the other is one refund. -/
theorem TakenBack.cons (h : TakenBack [r] b b₁) (hrest : TakenBack l b₁ b₂) :
    TakenBack (r :: l) b b₂ := by
  have hcards : ∀ c, b₂.card? c = (b.card? c).map fun card =>
      { card with booted := card.booted && !decide (.booted c ∈ r :: l) } := by
    intro c
    rw [hrest.cards, h.cards, Option.map_map]
    congr 1
    funext card
    simp [Bool.and_assoc]
  -- A card that is booted between the two was booted before.
  have hbooted : ∀ {c}, b₁.cardIs c (·.booted) → b.cardIs c (·.booted) := by
    intro c hc
    rw [Board.cardIs, h.cards] at hc
    unfold Board.cardIs
    cases hcard : b.card? c <;> simp_all
  refine ⟨fun r' hr' => ?_, hcards, ?_⟩
  · rcases List.mem_cons.mp hr' with rfl | hmem
    · obtain ⟨c, rfl, hbefore, -⟩ := h.unbooted r' List.mem_cons_self
      refine ⟨c, rfl, hbefore, ?_⟩
      obtain ⟨card, hcard, -⟩ := (Option.any_eq_true _ _).mp hbefore
      rw [Board.cardIs, hcards, hcard]
      simp
    · obtain ⟨c, rfl, hbefore, hafter⟩ := hrest.unbooted r' hmem
      exact ⟨c, rfl, hbooted hbefore, hafter⟩
  · rw [hrest.rest, h.rest]

/-- Whoever takes payments back has refunded them. -/
theorem takenBack_of_unpayEach :
    ∀ {l : List CostReceipt} {b b' : Board}, (unpayEach l).ends b = (.ok (), b') → TakenBack l b b'
  | [], b, b', h => by
    obtain rfl := (Prod.mk.inj h).2
    exact .nil b
  | r :: rest, b, b', h => by
    rw [unpayEach] at h
    obtain ⟨_, b₁, hunpay, hrest⟩ := ok_of_bind h
    exact (takenBack_of_unpay hunpay).cons (takenBack_of_unpayEach hrest)

theorem takenBack_of_unpayAll {b' : Board} (h : (unpayAll receipts).ends b = (.ok (), b')) :
    TakenBack receipts b b' := by
  have htaken := takenBack_of_unpayEach (l := receipts.reverse) h
  exact ⟨fun r hr => htaken.unbooted r (List.mem_reverse.mpr hr),
    fun c => by simpa using htaken.cards c, htaken.rest⟩

end Payment

namespace Engine

variable {e : Engine} {a : AbilityId} {x : ActivationId} {activation : Activation}

/-- How an attempt to retract ends if nothing is refunded in part. -/
inductive RefundsWhole (e : Engine) (a : AbilityId) : Except RulesError Bool × Engine → Prop where
  | nothing : RefundsWhole e a (.ok false, e)
  | all {x : ActivationId} {activation : Activation} {b : Board}
      (hlatest : e.latestRetractable? a = some x) (hget : e.activations.get? x = some activation)
      (hcan : Payment.canUnpayAll e.board activation.receipts)
      (htaken : Payment.TakenBack activation.receipts e.board b) :
      RefundsWhole e a (.ok true, e.retracted a x activation b)

/-- An activation is not retracted if not all that was paid for it can be taken back. -/
theorem retract_of_not_canUnpayAll (hlatest : e.latestRetractable? a = some x)
    (hget : e.activations.get? x = some activation)
    (hcan : ¬Payment.canUnpayAll e.board activation.receipts) (p : PlayerId) :
    (retract a p).ends e = (.ok false, e) := by
  have hnot : ¬canRetract e.board p activation := fun h => hcan (canRetract_iff.mp h).2.2
  unfold retract
  rw [ends_bind_ok (ends_look e)]
  simp only [hlatest, hget, hnot]
  rfl

/-- Nor is the queue run then. -/
theorem takeBack_of_retract {p : PlayerId} (h : (retract a p).ends e = (.ok false, e))
    (fuel : Nat) : (takeBack fuel a p).ends e = (.ok (some false), e) := by
  unfold takeBack settleIf
  rw [ends_bind_ok h]
  rfl

end Engine

/-- What can be retracted in a run is retracted, and its payments are taken back. -/
theorem Moment.Reached.retract_of_can {m : Moment} (h : m.Reached) {a : AbilityId}
    {x : ActivationId} {activation : Activation} {p : PlayerId}
    (hlatest : m.engine.latestRetractable? a = some x)
    (hget : m.engine.activations.get? x = some activation)
    (hcan : Engine.canRetract m.engine.board p activation) :
    ∃ b, (Engine.retract a p).ends m.engine = (.ok true, m.engine.retracted a x activation b) ∧
      Payment.TakenBack activation.receipts m.engine.board b := by
  obtain ⟨_, ability, hget', -, -, hpaid⟩ := h.latest hlatest
  obtain rfl := Option.some.inj (hget.symm.trans hget')
  obtain ⟨-, hstage, hunpayable⟩ := Engine.canRetract_iff.mp hcan
  obtain ⟨b, hends⟩ :=
    Payment.unpayAll_ends (hpaid (by simp [hstage, ActivationStage.rank])) hunpayable
  exact ⟨b, Engine.retract_of_can hlatest hget hcan hends, Payment.takenBack_of_unpayAll hends⟩

/-- No attempt to retract in a run fails or refunds a part of a payment. -/
theorem Moment.Reached.refundsWhole {m : Moment} (h : m.Reached) (a : AbilityId) (p : PlayerId) :
    m.engine.RefundsWhole a ((Engine.retract a p).ends m.engine) := by
  have hretracts := m.engine.retract_ends a p
  generalize hending : (Engine.retract a p).ends m.engine = ending at hretracts
  cases hretracts with
  | refused => exact .nothing
  | retracted hlatest hget hcan hpay =>
    exact .all hlatest hget (Engine.canRetract_iff.mp hcan).2.2 (Payment.takenBack_of_unpayAll hpay)
  | failed hlatest hget hcan =>
    -- Nothing fails that can be taken back.
    obtain ⟨b, hends, -⟩ := h.retract_of_can hlatest hget hcan
    rw [hending] at hends
    simp at hends

/-! ## All or nothing -/

/-- What was paid at one time is taken back whole or not at all, whatever has become of the board:
if each payment can be taken back, all are, and only their cards are unbooted; if not, retracting
answers no and changes nothing. So no attempt to retract in any run fails or refunds a part. -/
theorem Payment.refund_whole :
    (∀ {title : String} {x : Activation} {costs : List Cost} {b₀ b₁ : Board}
      {receipts : List CostReceipt}, (payAll title x costs).ends b₀ = (.ok receipts, b₁) →
      ∀ b, canUnpayAll b receipts →
        ∃ b', (unpayAll receipts).ends b = (.ok (), b') ∧ TakenBack receipts b b') ∧
      (∀ (e : Engine) (a : AbilityId) (x : ActivationId) (activation : Activation),
        e.latestRetractable? a = some x → e.activations.get? x = some activation →
        ¬canUnpayAll e.board activation.receipts →
        ∀ p, (Engine.retract a p).ends e = (.ok false, e) ∧
          ∀ fuel, (Engine.takeBack fuel a p).ends e = (.ok (some false), e)) ∧
      ∀ m : Moment, m.Reached → ∀ a p,
        m.engine.RefundsWhole a ((Engine.retract a p).ends m.engine) := by
  refine ⟨fun hpaid b hcan => ?_, fun e a x activation hlatest hget hcan p => ?_,
    fun m hreached a p => ?_⟩
  · -- A card that is unbooted cannot be unbooted again, but no card was booted twice.
    obtain ⟨b', hends⟩ := unpayAll_of_nodup (nodup_of_payAll hpaid) hcan
    exact ⟨b', hends, takenBack_of_unpayAll hends⟩
  · have hrefused := Engine.retract_of_not_canUnpayAll hlatest hget hcan p
    exact ⟨hrefused, Engine.takeBack_of_retract hrefused⟩
  · exact hreached.refundsWhole a p

/-- Two deeds are booted as payment, and both are unbooted as it is taken back. -/
theorem Payment.refund_whole_twoInPlay :
    ∃ b b', (payAll "A" useOfFirst [.bootSelf, .bootCard ⟨4⟩]).ends twoInPlay =
        (.ok [.booted ⟨3⟩, .booted ⟨4⟩], b) ∧
      canUnpayAll b [.booted ⟨3⟩, .booted ⟨4⟩] ∧
      (unpayAll [.booted ⟨3⟩, .booted ⟨4⟩]).ends b = (.ok (), b') ∧
      TakenBack [.booted ⟨3⟩, .booted ⟨4⟩] b b' := by
  let b := ((payAll "A" useOfFirst [.bootSelf, .bootCard ⟨4⟩]).ends twoInPlay).2
  have hpaid : (payAll "A" useOfFirst [.bootSelf, .bootCard ⟨4⟩]).ends twoInPlay =
      (.ok [.booted ⟨3⟩, .booted ⟨4⟩], b) := rfl
  have hcan : canUnpayAll b [.booted ⟨3⟩, .booted ⟨4⟩] = true := rfl
  obtain ⟨b', hends, htaken⟩ := refund_whole.1 hpaid b hcan
  exact ⟨b, b', hpaid, hcan, hends, htaken⟩

end Doomtown
