import Doomtown.Proofs.BoardPlays
import Doomtown.Proofs.Refund

/-!
# Refunds and later payments

A receipt for a boot names the card and no more. Between a payment and its retraction the card can
be unbooted by an order, by the retraction of another activation or as the board is set up, and by
nothing else (`Moment.Reached.isBooted_after_iff`). If nothing of the kind is done, a card that a
retraction unboots has stayed booted since it was booted as payment; otherwise it has not, and what
is undone then is what booted the card last, be it the payment for another activation
(`Moment.refund_since_payment`, `Moment.refund_undoes_later_payment`).
-/

namespace Doomtown

open Play

/-! ## What keeps a card booted -/

namespace Board

variable {b b' b'' : Board} {c c' : CardId}

/-- Whether a card is booted. -/
def isBooted (b : Board) (c : CardId) : Bool := b.cardIs c (·.booted)

/-- A card that is booted stays so. -/
def KeepsBooted (c : CardId) (b b' : Board) : Prop := b.isBooted c → b'.isBooted c

theorem keepsBooted_of_cards (h : b'.cards = b.cards) : b.KeepsBooted c b' := by
  intro hbooted
  rwa [isBooted, cardIs, card?, h]

theorem keepsBooted_change {f : Board → Board} (hf : ∀ b, (f b).cards = b.cards) :
    (change f).Chains (KeepsBooted c) :=
  .change fun b => keepsBooted_of_cards (hf b)

/-- To change a card is not to unboot another one. -/
theorem keepsBooted_modify {f : Card → Card} (hf : c' = c → ∀ card, card.booted → (f card).booted) :
    b.KeepsBooted c { b with cards := b.cards.modify c' f } := by
  intro hbooted
  obtain ⟨card, hcard, hcard'⟩ := (Option.any_eq_true _ _).mp hbooted
  have hget : b.cards.get? c = some card := hcard
  simp only [isBooted, cardIs, card?, IdMap.get?_modify, hget, Option.map_some]
  split
  · rename_i heq
    exact hf heq card hcard'
  · exact hcard'

theorem keepsBooted_modifyCard {f : Card → Card}
    (hf : c' = c → ∀ card, card.booted → (f card).booted) :
    (modifyCard c' f).Chains (KeepsBooted c) :=
  .bind (.discard (chains_getCard c')) fun _ => .change fun _ => keepsBooted_modify hf

theorem keepsBooted_modifyPlayer (p : PlayerId) (f : Player → Player) :
    (modifyPlayer p f).Chains (KeepsBooted c) :=
  .bind (.discard (chains_getPlayer p)) fun _ => keepsBooted_change fun _ => rfl

theorem keepsBooted_spend (p : PlayerId) (amount : Nat) : (spend p amount).Chains (KeepsBooted c) :=
  .bind (chains_getPlayer p) fun _ => .ite (keepsBooted_modifyPlayer p _) (.fail _)

theorem keepsBooted_sendHome (c' : CardId) : (sendHome c').Chains (KeepsBooted c) :=
  .bind (keepsBooted_change fun _ => rfl) fun _ => keepsBooted_modifyCard fun _ _ _ => rfl

theorem keepsBooted_takeTimestamp : takeTimestamp.Chains (KeepsBooted c) :=
  .bind (.view _) fun _ => .bind (keepsBooted_change fun _ => rfl) fun _ => .answer _

theorem keepsBooted_moved (card : Card) (destination : Location) :
    b.KeepsBooted c (b.moved c' card destination) :=
  keepsBooted_modify fun _ _ hbooted => hbooted

theorem keepsBooted_moveCard (c' : CardId) (destination : Location) :
    (moveCard c' destination).Chains (KeepsBooted c) := by
  refine .single fun b => ?_
  rcases moveCard_cases c' destination b with ⟨err, hends⟩ | ⟨card, -, -, hends⟩
  · rw [hends]
    exact id
  · rw [hends]
    exact keepsBooted_moved card destination

theorem keepsBooted_of_chain (h : Relation.ReflTransGen (KeepsBooted c) b b') :
    b.KeepsBooted c b' :=
  link_of_chain (fun _ => id) (fun h h' => h' ∘ h) h

end Board

open Board

/-! ## Payments -/

namespace Payment

variable {b₀ b b' : Board} {c : CardId} {x : Activation} {title : String} {costs : List Cost}
variable {receipts : List CostReceipt} {r : CostReceipt}

/-- To pay a cost is to unboot nothing, and to boot a card that was not booted if the receipt says
so. -/
theorem keepsBooted_of_pays {cost : Cost} (h : cost.Pays b x r b') :
    b.KeepsBooted c b' ∧ (r = .booted c → b.isBooted c = false ∧ b'.isBooted c) := by
  cases h with
  | @boot _ c' card _ hcard hboot _ =>
    have hget : b.cards.get? c' = some card := hcard
    refine ⟨keepsBooted_modify fun _ _ _ => rfl, fun hr => ?_⟩
    obtain rfl := CostReceipt.booted.inj hr
    refine ⟨by simp [isBooted, cardIs, hcard, hboot], ?_⟩
    simp [isBooted, cardIs, card?, IdMap.get?_modify, hget]
  | spend => exact ⟨keepsBooted_of_cards rfl, by simp⟩
  | move => exact ⟨keepsBooted_moved _ _, by simp⟩

/-- What has been paid since a board has unbooted nothing on it, and has booted the cards that the
receipts name. -/
structure Boots (b₀ : Board) (paid : List CostReceipt) (b : Board) : Prop where
  keeps : ∀ c, b₀.KeepsBooted c b
  newly : ∀ c, .booted c ∈ paid → b₀.isBooted c = false ∧ b.isBooted c

theorem Boots.nil (b : Board) : Boots b [] b := ⟨fun _ => id, by simp⟩

theorem Boots.pays {paid : List CostReceipt} {cost : Cost} (h : Boots b₀ paid b)
    (hpays : cost.Pays b x r b') : Boots b₀ (r :: paid) b' where
  keeps c := (keepsBooted_of_pays hpays).1 ∘ h.keeps c
  newly c hmem := by
    obtain ⟨hkeeps, hnew⟩ := keepsBooted_of_pays (c := c) hpays
    rcases List.mem_cons.mp hmem with hr | hmem
    · obtain ⟨hunbooted, hbooted⟩ := hnew hr.symm
      refine ⟨?_, hbooted⟩
      cases hbefore : b₀.isBooted c with
      | false => rfl
      | true => exact (h.keeps c hbefore).symm.trans hunbooted
    · obtain ⟨hunbooted, hbooted⟩ := h.newly c hmem
      exact ⟨hunbooted, hkeeps hbooted⟩

/-- Undoing payments unboots no card but those that the receipts name. -/
theorem keepsBooted_revertAll :
    ∀ receipts : List CostReceipt, .booted c ∉ receipts →
      (revertAll receipts).Chains (KeepsBooted c)
  | [], _ => .answer _
  | r :: rest, hnone => by
    obtain ⟨hother, hrest⟩ := not_or.mp (mt List.mem_cons.mpr hnone)
    refine .bind ?_ fun _ => keepsBooted_revertAll rest hrest
    cases r with
    | booted c' => exact keepsBooted_modifyCard fun heq => absurd (heq ▸ rfl) hother
    | ghostRockSpent p amount => exact keepsBooted_modifyPlayer p _
    | moved c' origin _ => exact .discard (keepsBooted_moveCard c' origin)

theorem outcome_boots (title : String) (x : Activation) (costs : List Cost) (b : Board) :
    Outcome title (fun _ paid b' => Boots b paid b') ((payFrom title x [] costs).ends b) :=
  outcome_payFrom (fun hboots _ hpays => hboots.pays hpays) costs [] (.nil b)

/-- A payment unboots nothing, whether it succeeds or fails. -/
theorem keepsBooted_payAll (title : String) (x : Activation) (costs : List Cost) :
    (payAll title x costs).Chains (KeepsBooted c) := by
  refine .single fun b => ?_
  rw [payAll_ends]
  split
  · have houtcome := outcome_boots title x costs b
    generalize (payFrom title x [] costs).ends b = ending at houtcome
    cases houtcome with
    | paid hboots => exact hboots.keeps c
    | @reverted _ paid b₁ _ _ _ hboots hreverts =>
      -- What is undone was not booted before.
      intro hbooted
      have hnone : .booted c ∉ paid := fun hmem => by
        simp [(hboots.newly c hmem).1] at hbooted
      have hkeeps := keepsBooted_of_chain (keepsBooted_revertAll paid hnone b₁)
      rw [hreverts] at hkeeps
      exact hkeeps (hboots.keeps c hbooted)
  · exact id

/-- The cards that receipts name were not booted before the payment and are booted after it. -/
theorem boots_of_payAll (h : (payAll title x costs).ends b = (.ok receipts, b')) :
    Boots b receipts b' := by
  rw [payAll_ends] at h
  split at h
  · have houtcome := outcome_boots title x costs b
    rw [h] at houtcome
    cases houtcome with
    | paid hboots => exact ⟨hboots.keeps, fun c hmem => hboots.newly c (List.mem_reverse.mp hmem)⟩
  · simp at h

/-- Whoever takes payments back unboots the cards that the receipts name, and no other. -/
theorem TakenBack.isBooted (h : TakenBack receipts b b') (c : CardId) :
    b'.isBooted c = (b.isBooted c && !decide (.booted c ∈ receipts)) := by
  rw [Board.isBooted, cardIs, h.cards, Board.isBooted, cardIs]
  cases b.card? c <;> simp

end Payment

theorem Board.suits_keepsBooted (c : CardId) : Suits (KeepsBooted c) where
  refl _ := id
  trans h h' := h' ∘ h
  takeTimestamp := keepsBooted_takeTimestamp
  moveCard := keepsBooted_moveCard
  payAll := Payment.keepsBooted_payAll

namespace Engine

variable {e : Engine} {c : CardId}

/-- Of all that scripts order only to unboot a card and to retract can unboot it. -/
theorem keepsBooted_order (o : Order) (hunboot : o ≠ .unboot c) (hretract : ∀ a p, o ≠ .retract a p) :
    e.board.KeepsBooted c (o.carryOut.ends e).2.board := by
  have hsuits := suits_keepsBooted c
  have hboard : ∀ {α : Type} {p : Play Board α}, p.Chains (KeepsBooted c) →
      e.board.KeepsBooted c ((onBoard p).ends e).2.board := fun hp =>
    hsuits.boards_of_chain (hsuits.onBoard hp e)
  have hplain : ∀ {α : Type} {p : Play Engine α}, p.Chains (Boards (KeepsBooted c)) →
      e.board.KeepsBooted c (p.ends e).2.board := fun hp => hsuits.boards_of_chain (hp e)
  cases o with
  | unboot c' => exact hboard (keepsBooted_modifyCard fun heq => absurd (heq ▸ rfl) hunboot)
  | retract a p => exact absurd rfl (hretract a p)
  | shift c' l => exact hplain (.discard (hsuits.onBoard (keepsBooted_moveCard c' l)))
  | move c' l => exact hplain (.discard (hsuits.relocate c' l))
  | message | note | respond => exact id
  | register a => exact hplain (hsuits.register a)
  | unregister a => exact hplain (hsuits.unregister a)
  | activate a p => exact hplain (hsuits.activate a p)
  | resume => exact hplain chains_resume
  | withdraw i => exact hplain (hsuits.withdraw i)
  | beginRound =>
    exact hplain (.bind (.change fun _ => keepsBooted_of_cards rfl) fun _ => .bind .look fun _ =>
      .bind (.log _) fun _ => hsuits.raise _ _)
  | setPhase | setWindow | setActivePlayer => exact hboard (keepsBooted_change fun _ => rfl)
  | spend p n => exact hboard (keepsBooted_spend p n)
  | sendHome c' => exact hboard (keepsBooted_sendHome c')
  | gain p | modifyRank p | setCheatin p | restrict p => exact hboard (keepsBooted_modifyPlayer p _)
  | boot => exact hboard (keepsBooted_modifyCard fun _ _ _ => rfl)
  | addControl | setInfluence | setBlank | setController =>
    exact hboard (keepsBooted_modifyCard fun _ _ hbooted => hbooted)

/-- To note that a headline was used unboots nothing. -/
theorem keepsBooted_conclude (a : Ability) (x : ActivationId) (activation : Activation) :
    e.board.KeepsBooted c ((conclude a x activation).ends e).2.board := by
  have hsuits := suits_keepsBooted c
  have hnote : (noteHeadline a.source).Chains (Boards (KeepsBooted c)) :=
    .bind .look fun _ => .ite (hsuits.onBoard (keepsBooted_change fun _ => rfl)) (.pure _)
  exact hsuits.boards_of_chain (hsuits.conclude hnote x activation e)

end Engine

namespace Moment

variable {m : Moment} {d : Deed} {c : CardId} {x : ActivationId} {receipts : List CostReceipt}
variable {before since ds : List Deed} {b : Board}

/-! ## What unboots a card -/

/-- How a deed unboots a card: by an order to unboot it, by the retraction of an activation that was
paid for with it, or as the board is set up. -/
inductive Unboots (m : Moment) (c : CardId) : Deed → Prop where
  | ordered {d : Deed} (hgives : m.gives d = some (.unboot c)) : Unboots m c d
  | retracted {d : Deed} {a : AbilityId} {p : PlayerId} {x : ActivationId} {activation : Activation}
      (hgives : m.gives d = some (.retract a p))
      (hlatest : m.engine.latestRetractable? a = some x)
      (hget : m.engine.activations.get? x = some activation)
      (hcan : Engine.canRetract m.engine.board p activation)
      (hpaid : .booted c ∈ activation.receipts) : Unboots m c d
  | setUp {f : Board → Board} (hidle : m.running = none)
      (hboard : (f m.engine.board).isBooted c = false) : Unboots m c (.call (.board f))

/-- A card that is booted stays so, unless the deed unboots it. -/
theorem Reached.isBooted_after (h : m.Reached) (hbooted : m.engine.board.isBooted c)
    (hnot : ¬m.Unboots c d) : (m.after d).engine.board.isBooted c := by
  refine (suits_keepsBooted c).after m d (fun f hidle hd _ => ?_) (fun o hgives => ?_)
    (fun a x activation _ => Engine.keepsBooted_conclude a x activation) hbooted
  · subst hd
    by_contra hunbooted
    exact hnot (.setUp hidle (by simpa using hunbooted))
  · by_cases hretract : ∃ a p, o = .retract a p
    · obtain ⟨a, p, rfl⟩ := hretract
      intro _
      have hwhole := h.refundsWhole a p
      show ((Engine.retract a p).ends m.engine).2.board.isBooted c = true
      have hretracts := m.engine.retract_ends a p
      generalize hending : (Engine.retract a p).ends m.engine = ending at hwhole hretracts
      cases hretracts with
      | refused => exact hbooted
      | failed => cases hwhole
      | @retracted x activation b hlatest hget hcan hpay =>
        -- What is retracted was not paid for with the card.
        have hunpaid : .booted c ∉ activation.receipts := fun hmem =>
          hnot (.retracted hgives hlatest hget hcan hmem)
        have htaken := (Payment.takenBack_of_unpayAll hpay).isBooted c
        show b.isBooted c = true
        simpa [hunpaid, hbooted] using htaken
    · refine Engine.keepsBooted_order o ?_ fun a p heq => hretract ⟨a, p, heq⟩
      rintro rfl
      exact hnot (.ordered hgives)

/-- What is said to unboot a card does. -/
theorem Reached.isBooted_of_unboots (h : m.Reached) (hbooted : m.engine.board.isBooted c)
    (hunboots : m.Unboots c d) : (m.after d).engine.board.isBooted c = false := by
  cases hunboots with
  | ordered hgives =>
    rw [(after_gives hgives).1]
    obtain ⟨card, hcard, -⟩ := (Option.any_eq_true _ _).mp hbooted
    have hget : m.engine.board.cards.get? c = some card := hcard
    show ((Engine.onBoard (Board.unboot c)).ends m.engine).2.board.isBooted c = false
    rw [Engine.onBoard, ends_within, Board.unboot, Board.modifyCard_ends hcard]
    simp [isBooted, cardIs, card?, IdMap.get?_modify, hget]
  | @retracted _ a p x activation hgives hlatest hget hcan hpaid =>
    obtain ⟨b, hends, htaken⟩ := h.retract_of_can hlatest hget hcan
    rw [(after_gives hgives).1]
    show ((Engine.retract a p).ends m.engine).2.board.isBooted c = false
    rw [hends]
    show b.isBooted c = false
    simpa [hpaid] using htaken.isBooted c
  | @setUp f hidle hboard =>
    obtain ⟨e, running⟩ := m
    obtain rfl : running = none := hidle
    exact hboard

/-- A booted card is unbooted by those deeds, and by no other. -/
theorem Reached.isBooted_after_iff (h : m.Reached) (hbooted : m.engine.board.isBooted c) :
    (m.after d).engine.board.isBooted c ↔ ¬m.Unboots c d :=
  ⟨fun hstill hunboots => by simp [h.isBooted_of_unboots hbooted hunboots] at hstill,
    h.isBooted_after hbooted⟩

/-- A card is booted at each moment of a run. -/
def StaysBooted (m : Moment) (c : CardId) (ds : List Deed) : Prop :=
  ∀ front, front <+: ds → (m.run front).engine.board.isBooted c

/-- A booted card stays so in a run exactly if no deed of it unboots the card. -/
theorem Reached.staysBooted_iff (h : m.Reached) (hbooted : m.engine.board.isBooted c) :
    m.StaysBooted c ds ↔ Along (fun m d => ¬m.Unboots c d) m ds := by
  induction ds generalizing m with
  | nil =>
    refine iff_of_true (fun front hfront => ?_) trivial
    rw [List.prefix_nil.mp hfront]
    exact hbooted
  | cons d ds ih =>
    have hnext := h.after d
    constructor
    · intro hstays
      have hafter : (m.after d).engine.board.isBooted c := hstays [d] (by simp)
      refine ⟨(h.isBooted_after_iff hbooted).mp hafter, (ih hnext hafter).mp fun front hfront => ?_⟩
      exact hstays (d :: front) ((List.prefix_cons_inj d).mpr hfront)
    · rintro ⟨hnot, hrest⟩ front hfront
      have hafter := (h.isBooted_after_iff hbooted).mpr hnot
      cases front with
      | nil => exact hbooted
      | cons d' front =>
        obtain ⟨rfl, hrestFront⟩ := List.cons_prefix_cons.mp hfront
        exact (ih hnext hafter).mpr hrest front hrestFront

/-! ## The payment for an activation -/

/-- By a deed the costs of an activation are paid, with these receipts. -/
inductive PaysFor (m : Moment) (d : Deed) (x : ActivationId) : List CostReceipt → Prop where
  | paid {i : StepId} {activation : Activation} {a : Ability} {receipts : List CostReceipt}
      {b : Board} (hstarts : m.starts? d = some ⟨i, .resolve x .payCosts⟩)
      (hget : m.engine.activations.get? x = some activation)
      (hability : m.engine.ability? activation.ability = some a)
      (hpay : (Payment.payAll a.title activation a.costs).ends m.engine.board =
        (.ok receipts, b)) : PaysFor m d x receipts

/-- A card that is booted as payment was not booted before, and is booted then. -/
theorem Sound.isBooted_of_paysFor (h : m.Sound) (hpays : m.PaysFor d x receipts)
    (hmem : .booted c ∈ receipts) :
    m.engine.board.isBooted c = false ∧ (m.after d).engine.board.isBooted c := by
  cases hpays with
  | @paid i activation a _ b hstarts hget hability hpay =>
    obtain ⟨hunbooted, hbooted⟩ := (Payment.boots_of_payAll hpay).newly c hmem
    obtain ⟨hlive, q, -, hafter⟩ := h.pays_in_turn hstarts hget
    refine ⟨hunbooted, ?_⟩
    rw [hafter]
    show ((Engine.resolve x .payCosts).ends { m.engine with queue := q }).2.board.isBooted c = true
    rw [Engine.resolve_live (e := { m.engine with queue := q }) .payCosts hget hlive hability]
    -- What follows the payment unboots nothing.
    have hsuits := suits_keepsBooted c
    have hfollows := hsuits.boards_of_chain (Play.Chains.bind
      (hsuits.afterMoves (receipts.filterMap Engine.movedBy?))
      (fun _ => .discard (hsuits.post (.resolve x .chooseTargets)))
      { m.engine with
        queue := q
        board := b
        activations := m.engine.activations.modify x
          ({ · with receipts := receipts, stage := .costsPaid }) }) hbooted
    dsimp only
    rw [Engine.payCosts_paid (e := { m.engine with queue := q }) hpay]
    exact hfollows

/-- What is unpaid before a deed and paid after it is paid by the deed. -/
theorem Reached.paysFor (h : m.Reached) {activation activation' : Activation}
    (hget : m.engine.activations.get? x = some activation) (hunpaid : activation.stage.rank < 2)
    (hget' : (m.after d).engine.activations.get? x = some activation')
    (hpaid : 2 ≤ activation'.stage.rank) : m.PaysFor d x activation'.receipts := by
  cases h.sound.files h.ready hget' with
  | played => simp [Engine.begun, ActivationStage.rank] at hpaid
  | offered =>
    unfold Engine.proposed at hpaid
    split at hpaid <;> simp [ActivationStage.rank] at hpaid
  | accepted => simp [ActivationStage.rank] at hpaid
  | paid hstarts hbefore _ hability hpay => exact .paid hstarts hbefore hability hpay
  | goes hbefore hcarries =>
    obtain rfl := Option.some.inj (hget.symm.trans hbefore)
    have := hcarries.unpaid.mpr hunpaid
    omega

/-- The receipts of an activation that has paid are those of a payment in the run. -/
theorem exists_payment {activation : Activation}
    (hget : ((start b).run ds).engine.activations.get? x = some activation)
    (hrank : 2 ≤ activation.stage.rank) :
    ∃ before d since, ds = before ++ d :: since ∧
      ((start b).run before).PaysFor d x activation.receipts := by
  induction ds using List.reverseRecOn generalizing activation with
  | nil => simp [run, start, Engine.new, IdMap.get?_empty] at hget
  | append_singleton ds d ih =>
    -- The last deed pays for the activation, or it had been paid for and keeps its receipts.
    have hreached : ((start b).run ds).Reached := ⟨b, ds, rfl⟩
    rw [run_append] at hget
    cases hreached.sound.files hreached.ready (d := d) hget with
    | played => simp [Engine.begun, ActivationStage.rank] at hrank
    | offered =>
      unfold Engine.proposed at hrank
      split at hrank <;> simp [ActivationStage.rank] at hrank
    | accepted => simp [ActivationStage.rank] at hrank
    | paid hstarts hbefore _ hability hpay =>
      exact ⟨ds, d, [], rfl, .paid hstarts hbefore hability hpay⟩
    | @goes paid _ hget hcarries =>
      have hpaid : 2 ≤ paid.stage.rank := by
        by_contra hunpaid
        have := hcarries.unpaid.mpr (by omega)
        omega
      obtain ⟨before, d', since, rfl, hpays⟩ := ih hget hpaid
      rw [hcarries.receipts]
      exact ⟨before, d', since ++ [d], by simp, hpays⟩

/-! ## The retraction -/

/-- The retraction of the latest activation of an ability takes back what was paid for it by a deed
of the run, with other deeds since. -/
structure RefundsPayment (b : Board) (before : List Deed) (d : Deed) (since : List Deed)
    (a : AbilityId) (p : PlayerId) (x : ActivationId) (receipts : List CostReceipt) : Prop where
  latest : ((start b).run (before ++ d :: since)).engine.latestRetractable? a = some x
  pays : ((start b).run before).PaysFor d x receipts
  /-- It unboots the cards that were booted as payment, and no other. -/
  unboots : ∀ c, ((start b).run (before ++ d :: since)).engine.board.isBooted c ∧
    ((Engine.retract a p).ends
      ((start b).run (before ++ d :: since)).engine).2.board.isBooted c = false ↔
        .booted c ∈ receipts
  /-- They have stayed booted since, unless a deed has unbooted them. -/
  stays : ∀ c, .booted c ∈ receipts →
    (((start b).run (before ++ [d])).StaysBooted c since ↔
      Along (fun m d => ¬m.Unboots c d) ((start b).run (before ++ [d])) since)
  /-- They have not if they were booted once more as payment for an activation. -/
  later : ∀ c, .booted c ∈ receipts → ∀ mid d' rest y others, since = mid ++ d' :: rest →
    ((start b).run (before ++ d :: mid)).PaysFor d' y others → .booted c ∈ others →
      ¬((start b).run (before ++ [d])).StaysBooted c since

/-- The cards that a retraction unboots were booted as payment for the activation, and have stayed
booted since exactly if nothing was done that unboots them. -/
theorem refund_since_payment (b : Board) (ds : List Deed) (a : AbilityId) (p : PlayerId)
    (htrue : ((Engine.retract a p).ends ((start b).run ds).engine).1 = .ok true) :
    ∃ before d since x receipts, ds = before ++ d :: since ∧
      RefundsPayment b before d since a p x receipts := by
  have hreached : ((start b).run ds).Reached := ⟨b, ds, rfl⟩
  obtain ⟨x, activation, hlatest, hget, hcan⟩ := hreached.retract_eq_true_iff.mp htrue
  obtain ⟨b', hends, htaken⟩ := hreached.retract_of_can hlatest hget hcan
  have hstage := Engine.stage_of_canRetract hcan
  obtain ⟨before, d, since, rfl, hpays⟩ :=
    exists_payment hget (by simp [hstage, ActivationStage.rank])
  have hbefore : ((start b).run before).Reached := ⟨b, before, rfl⟩
  have hafter : ((start b).run (before ++ [d])).Reached := ⟨b, before ++ [d], rfl⟩
  have hpaid : ∀ c, .booted c ∈ activation.receipts →
      ((start b).run (before ++ [d])).engine.board.isBooted c := fun c hmem => by
    rw [run_append]
    exact (hbefore.sound.isBooted_of_paysFor hpays hmem).2
  refine ⟨before, d, since, x, activation.receipts, rfl, hlatest, hpays, fun c => ?_,
    fun c hmem => hafter.staysBooted_iff (hpaid c hmem), ?_⟩
  · rw [hends]
    show _ ∧ b'.isBooted c = false ↔ _
    rw [htaken.isBooted c]
    constructor
    · rintro ⟨hbooted, hunbooted⟩
      simpa [hbooted] using hunbooted
    · intro hmem
      obtain ⟨c', heq, hbooted, -⟩ := htaken.unbooted _ hmem
      obtain rfl := CostReceipt.booted.inj heq
      exact ⟨hbooted, by simp [hmem]⟩
  · rintro c hmem mid d' rest y others rfl hother hothers hstays
    -- To be booted as payment it must have been unbooted before.
    have hmid : ((start b).run (before ++ d :: mid)).Reached := ⟨b, _, rfl⟩
    have hunbooted := (hmid.sound.isBooted_of_paysFor hother hothers).1
    have hbooted := hstays mid (List.prefix_append mid _)
    rw [← run_append, List.append_assoc, List.singleton_append, hunbooted] at hbooted
    simp at hbooted

/-- The deed has an action that boots it and is aimed at a player, one that unboots it, and one that
boots it. -/
def threeActions : List Deed :=
  [.call (.attach ⟨3⟩ {
      kind := .action
      costs := [.bootSelf]
      targets := [⟨"target", .players fun _ _ _ => true⟩]
      handler := some fun _ => .done }),
    .call (.attach ⟨3⟩ {
      kind := .action
      handler := some fun activation => .just (.unboot activation.source) }),
    .call (.attach ⟨3⟩ {
      kind := .action
      costs := [.bootSelf]
      handler := some fun _ => .done }),
    .call (.order (.activate ⟨0⟩ ⟨0⟩))]

/-- While a target is asked for, the deed is unbooted by its second action. -/
def unbootedMeanwhile : List Deed :=
  [.turn, .call (.order (.activate ⟨1⟩ ⟨0⟩)), .turn, .turn, .turn, .go, .go, .turn, .turn,
    .call (.order (.activate ⟨2⟩ ⟨0⟩))]

/-- The deed is booted for the first action and, when it is unbooted, for the third one. -/
def bootedTwice : List Deed := threeActions ++ .turn :: (unbootedMeanwhile ++ [.turn])

theorem refund_since_payment_bootedTwice :
    ((Engine.retract ⟨0⟩ ⟨0⟩).ends ((start deedInPlay).run bootedTwice).engine).1 = .ok true ∧
      ∃ before d since x receipts, bootedTwice = before ++ d :: since ∧
        RefundsPayment deedInPlay before d since ⟨0⟩ ⟨0⟩ x receipts := by
  have htrue : ((Engine.retract ⟨0⟩ ⟨0⟩).ends
      ((start deedInPlay).run bootedTwice).engine).1 = .ok true := by decide +kernel
  exact ⟨htrue, refund_since_payment deedInPlay bootedTwice ⟨0⟩ ⟨0⟩ htrue⟩

/-- A deed of a run pays for an activation if that is unpaid before it and paid after it. -/
theorem paysFor_of_stages {b : Board} {ds : List Deed} {d : Deed} {x : ActivationId}
    {receipts : List CostReceipt}
    (hunpaid : (((start b).run ds).engine.activations.get? x).map (·.stage) =
      some .legalityChecked)
    (hpaid : ((((start b).run ds).after d).engine.activations.get? x).map
      (fun activation => (activation.stage, activation.receipts)) = some (.costsPaid, receipts)) :
    ((start b).run ds).PaysFor d x receipts := by
  obtain ⟨activation, hget, hstage⟩ := Option.map_eq_some_iff.mp hunpaid
  obtain ⟨activation', hget', heq⟩ := Option.map_eq_some_iff.mp hpaid
  obtain ⟨hstage', rfl⟩ := Prod.mk.inj heq
  exact Reached.paysFor ⟨b, ds, rfl⟩ hget (by simp [hstage, ActivationStage.rank]) hget'
    (by simp [hstage', ActivationStage.rank])

/-- A deed that is booted for one activation, unbooted, and booted for another one, is unbooted when
the first one is retracted: it has not stayed booted, and the payment for the second is undone. -/
theorem refund_undoes_later_payment :
    ((start deedInPlay).run threeActions).PaysFor .turn ⟨0⟩ [.booted ⟨3⟩] ∧
      ((start deedInPlay).run (threeActions ++ .turn :: unbootedMeanwhile)).PaysFor .turn ⟨2⟩
        [.booted ⟨3⟩] ∧
      ¬((start deedInPlay).run (threeActions ++ [.turn])).StaysBooted ⟨3⟩
        (unbootedMeanwhile ++ [.turn]) ∧
      ((start deedInPlay).run bootedTwice).engine.latestRetractable? ⟨0⟩ = some ⟨0⟩ ∧
      ((start deedInPlay).run bootedTwice).engine.board.isBooted ⟨3⟩ ∧
      ((Engine.retract ⟨0⟩ ⟨0⟩).ends ((start deedInPlay).run bootedTwice).engine).1 = .ok true ∧
      ((Engine.retract ⟨0⟩ ⟨0⟩).ends
        ((start deedInPlay).run bootedTwice).engine).2.board.isBooted ⟨3⟩ = false := by
  refine ⟨paysFor_of_stages ?_ ?_, paysFor_of_stages ?_ ?_, fun hstays => ?_, ?_, ?_, ?_, ?_⟩
  case refine_5 =>
    -- Before the second payment the deed was unbooted.
    have hbooted := hstays unbootedMeanwhile (List.prefix_append _ _)
    have hunbooted : (((start deedInPlay).run (threeActions ++ [.turn])).run
        unbootedMeanwhile).engine.board.isBooted ⟨3⟩ = false := by decide +kernel
    simp [hunbooted] at hbooted
  all_goals decide +kernel

end Moment

end Doomtown
