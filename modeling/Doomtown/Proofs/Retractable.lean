import Doomtown.Proofs.Filings

/-!
# What can be retracted, and whether it can be now

The stack of an ability lists activations of it that are filed, started and not retracted, in the
order in which they were started (`Moment.Stacked`). An activation that has paid has a receipt for
each cost, and if all its payments can be taken back they are boots of different cards
(`Ability.PaidWith`). So taking them back never gets stuck: a player retracts the latest activation
of an ability exactly if it is the player's own, still chooses its targets and has paid with nothing
but cards that are booted now (`Moment.Reached.retract_eq_true_iff`).
-/

namespace Doomtown

open Play

/-! ## Receipts -/

/-- There is a receipt for each cost, and those of a payment that can be taken back are of different
cards. -/
structure Ability.PaidWith (a : Ability) (receipts : List CostReceipt) : Prop where
  each : receipts.map (·.isReversible) = a.costs.map (·.isReversible)
  distinct : (∀ r ∈ receipts, r.isReversible) → receipts.Nodup

/-- The receipt for a cost can be taken back if payments of the cost can. -/
theorem Cost.Pays.isReversible {b b' : Board} {x : Activation} {cost : Cost} {r : CostReceipt}
    (h : cost.Pays b x r b') : r.isReversible = cost.isReversible := by
  cases h with
  | boot hc => cases cost <;> simp [Cost.boots?] at hc <;> rfl
  | spend => rfl
  | move hd => cases cost <;> simp [Cost.destination] at hd <;> rfl

/-- What can be taken back now is of a kind that can be. -/
theorem CostReceipt.isReversible_of_canUnpay {b : Board} {r : CostReceipt} (h : r.canUnpay b) :
    r.isReversible := by
  cases r with
  | booted => rfl
  | _ => simp [CostReceipt.canUnpay] at h

/-- A card that is booted stays so when a card is booted. -/
theorem CostReceipt.canUnpay_boot {b : Board} {r : CostReceipt} (h : r.canUnpay b) (c : CardId) :
    r.canUnpay { b with cards := b.cards.modify c ({ · with booted := true }) } := by
  cases r with
  | booted c' =>
    simp only [CostReceipt.canUnpay, Board.cardIs, Board.card?, IdMap.get?_modify] at h ⊢
    split
    · obtain ⟨card, hcard, -⟩ := (Option.any_eq_true _ _).mp h
      simp [hcard]
    · exact h
  | _ => simp [CostReceipt.canUnpay] at h

namespace Payment

variable {a : Ability} {x : Activation} {b b' : Board} {receipts : List CostReceipt}

/-- What is paid so far and what is left to be paid make up the costs, and if boots only were paid
so far, the cards are booted and differ. -/
structure Tallies (costs rest : List Cost) (paid : List CostReceipt) (b : Board) : Prop where
  each : paid.reverse.map (·.isReversible) ++ rest.map (·.isReversible) =
    costs.map (·.isReversible)
  distinct : (∀ r ∈ paid, r.isReversible) → (∀ r ∈ paid, r.canUnpay b) ∧ paid.Nodup

theorem Tallies.pays {costs rest : List Cost} {cost : Cost} {paid : List CostReceipt}
    {r : CostReceipt} (h : Tallies costs (cost :: rest) paid b) (hpays : cost.Pays b x r b') :
    Tallies costs rest (r :: paid) b' where
  each := by
    rw [← h.each, List.reverse_cons, List.map_append, List.append_assoc]
    simp [hpays.isReversible]
  distinct hall := by
    obtain ⟨hcan, hnodup⟩ := h.distinct fun r' hr' => hall r' (List.mem_cons_of_mem _ hr')
    have hreversible := hall r List.mem_cons_self
    cases hpays with
    | @boot _ c card _ hcard hboot _ =>
      have hget : b.cards.get? c = some card := hcard
      -- The card was not booted, so it is none of those that were booted before.
      have hnew : CostReceipt.booted c ∉ paid := fun hmem => by
        have hbooted := hcan _ hmem
        simp [CostReceipt.canUnpay, Board.cardIs, hcard, hboot] at hbooted
      refine ⟨fun r' hr' => ?_, List.nodup_cons.mpr ⟨hnew, hnodup⟩⟩
      rcases List.mem_cons.mp hr' with rfl | hr'
      · simp [CostReceipt.canUnpay, Board.cardIs, Board.card?, IdMap.get?_modify, hget]
      · exact CostReceipt.canUnpay_boot (hcan r' hr') c
    | spend => simp [CostReceipt.isReversible] at hreversible
    | move => simp [CostReceipt.isReversible] at hreversible

theorem tallies_of_payAll {title : String} {costs : List Cost}
    (h : (payAll title x costs).ends b = (.ok receipts, b')) :
    Tallies costs [] receipts.reverse b' := by
  rw [payAll_ends] at h
  split at h
  · have houtcome : Outcome title (Tallies costs) ((payFrom title x [] costs).ends b) :=
      outcome_payFrom (fun htallies _ hpays => htallies.pays hpays) costs []
        ⟨rfl, fun _ => ⟨by simp, List.nodup_nil⟩⟩
    rw [h] at houtcome
    cases houtcome with
    | paid htallies => rwa [List.reverse_reverse]
  · simp at h

/-- No card is booted twice by costs that are paid and can be taken back. -/
theorem nodup_of_payAll {title : String} {costs : List Cost}
    (h : (payAll title x costs).ends b = (.ok receipts, b'))
    (hall : ∀ r ∈ receipts, r.isReversible) : receipts.Nodup :=
  List.nodup_reverse.mp
    ((tallies_of_payAll h).distinct fun r hr => hall r (List.mem_reverse.mp hr)).2

theorem paidWith_of_payAll (h : (payAll a.title x a.costs).ends b = (.ok receipts, b')) :
    a.PaidWith receipts :=
  ⟨by simpa using (tallies_of_payAll h).each, nodup_of_payAll h⟩

/-- Payments of different cards that can each be taken back can all be. -/
theorem unpayEach_ends :
    ∀ {l : List CostReceipt} {b : Board}, (∀ r ∈ l, r.canUnpay b) → l.Nodup →
      ∃ b', (unpayEach l).ends b = (.ok (), b')
  | [], b, _, _ => ⟨b, rfl⟩
  | r :: rest, b, hcan, hnodup => by
    have hself := hcan r List.mem_cons_self
    obtain ⟨hother, hrest⟩ := List.nodup_cons.mp hnodup
    cases r with
    | booted c =>
      obtain ⟨card, hcard, -⟩ := (Option.any_eq_true _ _).mp hself
      let unbooted : Board := { b with cards := b.cards.modify c ({ · with booted := false }) }
      have hunpay : (CostReceipt.booted c).unpay.ends b = (.ok (), unbooted) := by
        rw [CostReceipt.unpay_ends hself]
        exact Board.modifyCard_ends hcard _
      -- The other cards are booted still.
      have hstill : ∀ r ∈ rest, r.canUnpay unbooted := fun r hr => by
        have hcan' := hcan r (List.mem_cons_of_mem _ hr)
        cases r with
        | booted c' =>
          have hne : c ≠ c' := fun heq => hother (heq ▸ hr)
          simpa [CostReceipt.canUnpay, Board.cardIs, Board.card?, IdMap.get?_modify, hne, unbooted]
            using hcan'
        | _ => simp [CostReceipt.canUnpay] at hcan'
      obtain ⟨b', hends⟩ := unpayEach_ends hstill hrest
      exact ⟨b', by rw [unpayEach, ends_bind_ok hunpay, hends]⟩
    | _ => simp [CostReceipt.canUnpay] at hself

/-- Payments that differ are taken back if each of them can be. -/
theorem unpayAll_of_nodup (hnodup : (∀ r ∈ receipts, r.isReversible) → receipts.Nodup)
    (hcan : canUnpayAll b receipts) : ∃ b', (unpayAll receipts).ends b = (.ok (), b') := by
  have hall : ∀ r ∈ receipts, r.canUnpay b := List.all_eq_true.mp hcan
  have hdiffer := hnodup fun r hr => CostReceipt.isReversible_of_canUnpay (hall r hr)
  exact unpayEach_ends (fun r hr => hall r (List.mem_reverse.mp hr)) (List.nodup_reverse.mpr hdiffer)

theorem unpayAll_ends (hpaid : a.PaidWith receipts) (hcan : canUnpayAll b receipts) :
    ∃ b', (unpayAll receipts).ends b = (.ok (), b') :=
  unpayAll_of_nodup hpaid.distinct hcan

end Payment

namespace Moment

variable {m : Moment} {d : Deed} {a : AbilityId} {x : ActivationId} {p : PlayerId}

/-- What is filed as paid has paid the costs of its ability. -/
theorem Reached.paid (h : m.Reached) {activation : Activation} {ability : Ability}
    (hget : m.engine.activations.get? x = some activation)
    (hability : m.engine.ability? activation.ability = some ability)
    (hrank : 2 ≤ activation.stage.rank) : ability.PaidWith activation.receipts := by
  let Paid (m : Moment) : Prop := ∀ x activation ability,
    m.engine.activations.get? x = some activation →
    m.engine.ability? activation.ability = some ability → 2 ≤ activation.stage.rank →
    ability.PaidWith activation.receipts
  have hall : Paid m := by
    refine h.invariant (P := Paid) (fun b x activation a hget => ?_) fun {m} hreached hpaid d => ?_
    · simp [start, Engine.new, IdMap.get?_empty] at hget
    -- Of the ways in which a record comes about only one notes receipts.
    intro x activation' ability hget' hability' hrank
    cases hreached.sound.files hreached.ready hget' with
    | played => simp [Engine.begun, ActivationStage.rank] at hrank
    | offered =>
      unfold Engine.proposed at hrank
      split at hrank <;> simp [ActivationStage.rank] at hrank
    | accepted => simp [ActivationStage.rank] at hrank
    | paid _ hget _ hability hpay =>
      have hkept := (Moment.passage hreached.sound d).ability? hability
      obtain rfl := Option.some.inj (hkept.symm.trans hability')
      exact Payment.paidWith_of_payAll hpay
    | goes hget hcarries =>
      rw [hcarries.ability] at hability'
      rw [hcarries.receipts]
      refine hpaid x _ ability hget
        (hreached.sourced.ability_after hreached.sound hget hability') ?_
      by_contra hunpaid
      have := hcarries.unpaid.mpr (by omega)
      omega
  exact hall x activation ability hget hability hrank

/-! ## Stacks -/

/-- What is on the stack of an ability is filed for it, started and not retracted, and the
activations lie in the order in which they were started. -/
structure Stacked (m : Moment) : Prop where
  filed : ∀ a x, x ∈ m.engine.stack a → ∃ activation, m.engine.activations.get? x = some activation ∧
    activation.ability = a ∧ activation.stage ≠ .idle ∧ activation.deactivated = false
  sorted : ∀ a, (m.engine.stack a).Pairwise (·.number < ·.number)

/-- What is on a stack has been given its number. -/
theorem Ready.stacked (h : m.Ready) (hmem : x ∈ m.engine.stack a) :
    x.number < m.engine.nextActivation :=
  h.retractable _ (Engine.mem_stack_iff.mp hmem)

theorem Stacked.sorted_after (h : m.Stacked) (hready : m.Ready) (d : Deed) (a : AbilityId) :
    ((m.after d).engine.stack a).Pairwise (·.number < ·.number) := by
  cases m.restacks d a with
  | keeps hstack => exact hstack ▸ h.sorted a
  | starts p hgives hability haction hlegal hafter =>
    rw [hafter, Engine.stack_entered, List.pairwise_append]
    refine ⟨h.sorted a, List.pairwise_singleton _ _, fun x hx y hy => ?_⟩
    rw [List.mem_singleton.mp hy]
    exact hready.stacked hx
  | retracts p hgives hlatest hget hcan hafter =>
    rw [hafter, Engine.stack_retracted]
    exact (h.sorted a).sublist (List.dropLast_sublist _)
  | drops hnil => exact hnil ▸ List.Pairwise.nil

/-- What is on a stack was on it before or has just been started. -/
theorem mem_stack_after (hmem : x ∈ (m.after d).engine.stack a) :
    x ∈ m.engine.stack a ∨ ∃ p ability, m.gives d = some (.activate a p) ∧
      m.engine.ability? a = some ability ∧ x = ⟨m.engine.nextActivation⟩ ∧
      (m.after d).engine = m.engine.entered a (Engine.begun a ability p) := by
  cases m.restacks d a with
  | keeps hstack => exact .inl (hstack ▸ hmem)
  | @starts p ability hgives hability haction hlegal hafter =>
    rw [hafter, Engine.stack_entered, List.mem_append, List.mem_singleton] at hmem
    exact hmem.imp_right fun hx => ⟨p, ability, hgives, hability, hx, hafter⟩
  | retracts p hgives hlatest hget hcan hafter =>
    rw [hafter, Engine.stack_retracted] at hmem
    exact .inl ((List.dropLast_sublist _).subset hmem)
  | drops hnil => simp [hnil] at hmem

/-- All that is below the last of a stack was started before. -/
theorem Stacked.split (h : m.Stacked) (hlatest : m.engine.latestRetractable? a = some x) :
    ∃ front, m.engine.stack a = front ++ [x] ∧ ∀ y ∈ front, y.number < x.number := by
  obtain ⟨front, hfront⟩ := Engine.stack_of_latest hlatest
  have hsorted := h.sorted a
  rw [hfront, List.pairwise_append] at hsorted
  exact ⟨front, hfront, fun y hy => hsorted.2.2 y hy x (List.mem_singleton.mpr rfl)⟩

/-- The latest activation of a stack is no more on it when it is retracted. -/
theorem Stacked.not_mem_of_retracts (h : m.Stacked) {activation : Activation} {b : Board}
    (hlatest : m.engine.latestRetractable? a = some x)
    (hafter : (m.after d).engine = m.engine.retracted a x activation b) :
    x ∉ (m.after d).engine.stack a := by
  obtain ⟨front, hfront, hbelow⟩ := h.split hlatest
  rw [hafter, Engine.stack_retracted, hfront, List.dropLast_concat]
  exact fun hmem => absurd (hbelow x hmem) (Nat.lt_irrefl _)

theorem Stacked.filed_after (h : m.Stacked) (hsound : m.Sound) (hready : m.Ready) (d : Deed)
    (hmem : x ∈ (m.after d).engine.stack a) :
    ∃ activation, (m.after d).engine.activations.get? x = some activation ∧
      activation.ability = a ∧ activation.stage ≠ .idle ∧ activation.deactivated = false := by
  rcases mem_stack_after hmem with hold | ⟨p, ability, -, -, rfl, hafter⟩
  · obtain ⟨activation, hget, hof, hstarted, hactive⟩ := h.filed a x hold
    -- It is on the stack of its own ability only.
    have hsame : ∀ {a'}, x ∈ m.engine.stack a' → a' = a := fun hmem' => by
      obtain ⟨activation', hget', hof', -⟩ := h.filed _ x hmem'
      obtain rfl := Option.some.inj (hget.symm.trans hget')
      exact hof'.symm.trans hof
    cases m.refiles d x with
    | stays hdeactivated =>
      rw [hget, Option.map_some] at hdeactivated
      obtain ⟨activation', hget', heq⟩ := Option.map_eq_some_iff.mp hdeactivated
      obtain ⟨hof', -, hstarted'⟩ := hsound.files_of_filed hget (hsound.files hready hget')
      exact ⟨activation', hget', hof'.trans hof, hstarted' hstarted, heq.trans hactive⟩
    | enters hx =>
      have hlt := hready.stacked hold
      rw [hx] at hlt
      exact absurd hlt (Nat.lt_irrefl _)
    | declines hstarts =>
      -- What is offered has not started.
      obtain ⟨q, hrunning, htaken⟩ := frontTaken_of_starts hstarts
      have hfits := hsound.fits x
      rw [partsOf_idle hrunning, StepQueue.partsOf_begin (p := .offer) htaken.order rfl] at hfits
      obtain ⟨_, hsome, -, hidle, -⟩ := follows_of_fits hfits (by decide)
      obtain rfl := Option.some.inj (hget.symm.trans hsome)
      exact absurd hidle hstarted
    | clears a' hmem' hnil =>
      obtain rfl := hsame hmem'
      simp [hnil] at hmem
    | retracts hgives hlatest hget' hcan hafter =>
      obtain rfl := hsame (Engine.mem_stack_of_latest hlatest)
      exact absurd hmem (h.not_mem_of_retracts hlatest hafter)
  · refine ⟨Engine.begun a ability p, ?_, rfl, by simp [Engine.begun], rfl⟩
    rw [hafter]
    exact Engine.get?_entered ..

theorem Reached.stacked (h : m.Reached) : m.Stacked :=
  h.invariant (fun b => ⟨fun a x hmem => by simp [start, Engine.new, Engine.stack] at hmem,
      fun a => by simp [start, Engine.new, Engine.stack]⟩)
    fun hreached hstacked d =>
      ⟨fun _ _ => hstacked.filed_after hreached.sound hreached.ready d,
        hstacked.sorted_after hreached.ready d⟩

/-- The latest activation of an ability is filed for it, and if its costs are paid there are receipts
for them. -/
theorem Reached.latest (h : m.Reached) (hlatest : m.engine.latestRetractable? a = some x) :
    ∃ activation ability, m.engine.activations.get? x = some activation ∧
      activation.ability = a ∧ m.engine.ability? a = some ability ∧
      (2 ≤ activation.stage.rank → ability.PaidWith activation.receipts) := by
  obtain ⟨activation, hget, rfl, -⟩ := h.stacked.filed a x (Engine.mem_stack_of_latest hlatest)
  obtain ⟨ability, hability, -⟩ := h.sourced.filed x activation hget
  exact ⟨activation, ability, hget, rfl, hability, h.paid hget hability⟩

/-- The latest activation of an ability is retracted exactly if it can be. -/
theorem Reached.retract_eq_true_iff (h : m.Reached) :
    ((Engine.retract a p).ends m.engine).1 = .ok true ↔
      ∃ x activation, m.engine.latestRetractable? a = some x ∧
        m.engine.activations.get? x = some activation ∧
        Engine.canRetract m.engine.board p activation := by
  constructor
  · intro htrue
    have hretracts := m.engine.retract_ends a p
    generalize (Engine.retract a p).ends m.engine = ending at hretracts htrue
    cases hretracts with
    | refused => simp at htrue
    | failed => simp at htrue
    | retracted hlatest hget hcan => exact ⟨_, _, hlatest, hget, hcan⟩
  · rintro ⟨x, activation, hlatest, hget, hcan⟩
    obtain ⟨_, ability, hget', -, -, hpaid⟩ := h.latest hlatest
    obtain rfl := Option.some.inj (hget.symm.trans hget')
    obtain ⟨-, hstage, hunpayable⟩ := Engine.canRetract_iff.mp hcan
    obtain ⟨b, hunpay⟩ :=
      Payment.unpayAll_ends (hpaid (by simp [hstage, ActivationStage.rank])) hunpayable
    rw [Engine.retract_of_can hlatest hget hcan hunpay]

end Moment

end Doomtown
