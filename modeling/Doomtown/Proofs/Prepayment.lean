import Doomtown.Proofs.Beginnings
import Doomtown.Proofs.BeingPlayed
import Doomtown.Proofs.Conservation
import Doomtown.Proofs.Crossings
import Doomtown.Proofs.Requests

/-!
# Payment on the board that was judged

While no script runs, an activation that starts has its costs paid by the next step, on the board
and with the counts of uses on which it was found legal. So each of its costs can be paid by itself
then: the payment pays all of them, or fails as one cost takes from the board what another one needs
(`Moment.Reached.pays_as_judged`). It is not cancelled for want of what its costs take.
-/

namespace Doomtown

open Play

/-! ## Payments that were affordable -/

/-- What can be paid depends on who pays and for which card. -/
theorem Cost.canPay_congr {x y : Activation} (hsource : x.source = y.source)
    (hplayer : x.player = y.player) (b : Board) (cost : Cost) : cost.canPay b x = cost.canPay b y := by
  cases cost <;> simp only [canPay, hsource, hplayer]

namespace Payment

variable {title : String} {x y : Activation} {b b' : Board}

theorem canPayAll_congr (hsource : x.source = y.source) (hplayer : x.player = y.player)
    (b : Board) (costs : List Cost) : canPayAll b x costs = canPayAll b y costs :=
  congrArg costs.all (funext (Cost.canPay_congr hsource hplayer b))

/-- A payment of all costs gives a receipt for each. -/
theorem length_payFrom {costs : List Cost} {receipts : List CostReceipt}
    (h : (payFrom title x [] costs).ends b = (.ok receipts, b')) :
    receipts.length = costs.length := by
  have houtcome : Outcome title (fun rest paid _ => paid.length + rest.length = costs.length)
      ((payFrom title x [] costs).ends b) := by
    refine outcome_payFrom (fun hlength _ _ => ?_) costs [] (Nat.zero_add _)
    simp only [List.length_cons] at hlength ⊢
    omega
  rw [h] at houtcome
  cases houtcome with
  | paid hlength => rwa [List.length_reverse]

/-- Where each cost can be paid by itself, all are paid or the payment fails as such. -/
theorem payAll_affordable {costs : List Cost} (hhomed : b.isHomed x.source)
    (hcan : canPayAll b x costs = true) :
    (∃ receipts b', (payAll title x costs).ends b = (.ok receipts, b') ∧
      receipts.length = costs.length) ∨
      ∃ cause b', (payAll title x costs).ends b = (.error (.paymentFailed title cause), b') := by
  rw [payAll_ends, if_pos hcan]
  rcases hpay : (payFrom title x [] costs).ends b with ⟨err | receipts, b'⟩
  · obtain ⟨cause, rfl⟩ := payFrom_failed hhomed hpay
    exact .inr ⟨cause, b', rfl⟩
  · exact .inl ⟨receipts, b', rfl, length_payFrom hpay⟩

end Payment

namespace Engine

variable {e : Engine} {x : ActivationId} {a : Ability} {activation : Activation}

/-- A step that pays costs does not fail once they are paid. -/
theorem payCosts_ok {receipts : List CostReceipt} {b : Board}
    (hpay : (Payment.payAll a.title activation a.costs).ends e.board = (.ok receipts, b)) :
    ((payCosts a x activation).ends e).1 = .ok () := by
  obtain ⟨e₂, kinds, hfollowed, -⟩ := afterMoves_posts (receipts.filterMap movedBy?) (e := { e with
    board := b
    activations := e.activations.modify x ({ · with receipts := receipts, stage := .costsPaid }) })
    (Payment.isSome_of_movedBy hpay)
  rw [payCosts_paid hpay, ends_bind_ok hfollowed]
  rfl

theorem payCosts_failed {title : String} {cause : RulesError} {b : Board}
    (hpay : (Payment.payAll a.title activation a.costs).ends e.board =
      (.error (.paymentFailed title cause), b)) :
    (payCosts a x activation).ends e =
      (.error (.paymentFailed title cause), { e with
        board := b
        activations := e.activations.modify x ({ · with cancelled := true }) }) := by
  have hattempt : (attempt (onBoard (Payment.payAll a.title activation a.costs))).ends e =
      (.ok (.error (.paymentFailed title cause)), { e with board := b }) := by
    rw [ends_attempt, onBoard, ends_within, hpay]
  unfold payCosts
  rw [ends_bind_ok hattempt]
  rfl

end Engine

namespace Moment

variable {m : Moment} {d : Deed} {x : ActivationId} {a : Ability} {activation : Activation}

/-! ## The next step -/

/-- A step is the next one: whatever the queue does by itself, it starts that one first. -/
structure IsNext (m : Moment) (s : Step) : Prop where
  idle : m.running = none
  starts : m.starts? .turn = some s
  first : ∀ ds : List Deed, (∀ d ∈ ds, d.Unasked) →
    m.run ds = m ∨ ∃ ds', m.run ds = (m.after .turn).run ds'

/-- While no script runs the queue by itself can only take a turn. -/
theorem run_unasked (hidle : m.running = none) (ds : List Deed) (h : ∀ d ∈ ds, d.Unasked) :
    m.run ds = m ∨ ∃ ds', m.run ds = (m.after .turn).run ds' := by
  induction ds with
  | nil => exact .inl rfl
  | cons d ds ih =>
    cases d with
    | turn => exact .inr ⟨ds, rfl⟩
    | go =>
      have hstays : m.after .go = m := by
        unfold after
        rw [hidle]
      rw [run_cons, hstays]
      exact ih fun d hd => h d (List.mem_cons_of_mem _ hd)
    | call c => exact (h _ List.mem_cons_self).elim
    | answer p n => exact (h _ List.mem_cons_self).elim

/-- What is in front of the queue is the next step, unless it waits for an answer. -/
theorem isNext_of_front {s : Step} {rest : List Step} (hidle : m.running = none)
    (hqueue : m.engine.queue.running = none) (hfront : m.engine.queue.steps = s :: rest)
    (hkind : ∀ p, s.kind ≠ .prompt p) : m.IsNext s := by
  refine ⟨hidle, ?_, run_unasked hidle⟩
  unfold starts?
  rw [hidle, StepQueue.begin?_front hqueue hfront hkind]
  rfl

/-! ## The payment -/

/-- How the next turn pays the costs of an activation. -/
inductive Pays (m : Moment) (x : ActivationId) (a : Ability) (activation : Activation) : Prop where
  /-- Each of them is paid. -/
  | paid {receipts : List CostReceipt} {b : Board} {e' : Engine}
      (hpay : (Payment.payAll a.title activation a.costs).ends m.engine.board = (.ok receipts, b))
      (hall : receipts.length = a.costs.length)
      (hturn : Engine.turn.ends m.engine = (.ok none, e')) (hafter : m.after .turn = ⟨e', none⟩)
      (hfiled : e'.activations.get? x =
        some { activation with receipts := receipts, stage := .costsPaid }) : Pays m x a activation
  /-- The payment fails although each of them could be paid by itself. -/
  | failed {cause : RulesError} {e' : Engine}
      (hturn : Engine.turn.ends m.engine = (.error (.paymentFailed a.title cause), e'))
      (hafter : m.after .turn = ⟨e', none⟩)
      (hfiled : e'.activations.get? x = some { activation with cancelled := true }) :
    Pays m x a activation

/-- The payment of a live activation that is in front of the queue is what the next turn does. -/
theorem turn_payCosts {i : StepId} {rest : List Step} {e : Engine}
    (he : e = { m.engine with queue := m.engine.queue.started rest }) (hidle : m.running = none)
    (hqueue : m.engine.queue.running = none)
    (hfront : m.engine.queue.steps = ⟨i, .resolve x .payCosts⟩ :: rest)
    (hget : e.activations.get? x = some activation) (hlive : activation.isLive)
    (hability : e.ability? activation.ability = some a) :
    (Engine.turn.ends m.engine =
      match (Engine.payCosts a x activation).ends e with
      | (.ok _, e₁) => (.ok none, e₁.finished)
      | (.error err, e₁) => (.error err, e₁.finished)) ∧
      m.after .turn = ⟨((Engine.payCosts a x activation).ends e).2.finished, none⟩ := by
  have hstep : (Engine.runStep ⟨i, .resolve x .payCosts⟩).ends e =
      (Engine.payCosts a x activation).ends e := by
    rw [Engine.runStep_kind]
    exact Engine.resolve_live .payCosts hget hlive hability
  have hturn := Engine.turn_runs hqueue hfront (by simp)
  rw [← he, hstep] at hturn
  refine ⟨hturn, ?_⟩
  obtain ⟨e₀, running⟩ := m
  obtain rfl : running = none := hidle
  show turn e₀ = _
  unfold turn
  simp only [StepQueue.begin?_front hqueue hfront (by simp), Engine.opening, Engine.asStep_ends]
  rw [← hstep, he]

/-- Costs that can each be paid by themselves are all paid by their turn, or the payment fails. -/
theorem Sound.pays (h : m.Sound) (hidle : m.running = none) {i : StepId} {rest : List Step}
    (hqueue : m.engine.queue.running = none)
    (hfront : m.engine.queue.steps = ⟨i, .resolve x .payCosts⟩ :: rest)
    (hget : m.engine.activations.get? x = some activation)
    (hability : m.engine.ability? activation.ability = some a)
    (hhomed : m.engine.board.isHomed activation.source)
    (hcan : Payment.canPayAll m.engine.board activation a.costs = true) : m.Pays x a activation := by
  obtain ⟨-, hfits⟩ := h.fits_front (x := x) (p := .pay) hidle rfl
    (StepQueue.frontTaken_begin (StepQueue.begin?_front hqueue hfront (by simp)))
  obtain ⟨activation', hget', hlive, -, hnone⟩ := follows_of_fits hfits (by decide)
  obtain rfl := Option.some.inj (hget.symm.trans hget')
  let e : Engine := { m.engine with queue := m.engine.queue.started rest }
  obtain ⟨hturn, hafter⟩ :=
    turn_payCosts (e := e) rfl hidle hqueue hfront hget hlive hability
  rcases @Payment.payAll_affordable a.title _ _ _ hhomed hcan with
    ⟨receipts, b, hpay, hall⟩ | ⟨cause, b, hpay⟩
  · have hok := Engine.payCosts_ok (e := e) (x := x) hpay
    have hfiled := Engine.payCosts_filed (e := e) hget hnone hpay
    generalize (Engine.payCosts a x activation).ends e = ending at hturn hafter hok hfiled
    obtain ⟨r, e₁⟩ := ending
    obtain rfl : r = .ok () := hok
    exact .paid hpay hall hturn hafter hfiled
  · rw [Engine.payCosts_failed (e := e) hpay] at hturn hafter
    exact .failed hturn hafter (IdMap.get?_modify_self hget _)

/-- What starts while no script runs has its costs paid by the next step, on the board and with the
counts of uses on which it was found legal; if cards are where they are listed and of players who
keep them, all of them are paid or the payment fails. -/
theorem Reached.pays_as_judged (h : m.Reached) (hidle : m.running = none)
    (hstarts : .reached .legalityChecked ∈ happenings x m d) :
    ∃ a judged activation i, m.Begins d x a judged ∧
      (m.after d).IsNext ⟨i, .resolve x .payCosts⟩ ∧
      (m.after d).engine.activations.get? x = some activation ∧
      (m.engine.board.Tidy → (m.after d).Pays x a activation) := by
  obtain ⟨a, judged, hbegins⟩ := h.sound.begins h.ready hstarts
  obtain ⟨choice, hget⟩ := hbegins.filed
  obtain ⟨hidle', hqueue, rest, hfront⟩ := hbegins.first hidle
  refine ⟨a, judged, _, _, hbegins, isNext_of_front hidle' hqueue hfront (by simp), hget,
    fun htidy => ?_⟩
  have hability := (Moment.passage h.sound d).ability? hbegins.ability
  -- The activation is of an ability of its card.
  obtain ⟨a', hability', hsource⟩ := (h.after d).sourced.filed x _ hget
  obtain rfl : a = a' := Option.some.inj (hability.symm.trans hability')
  obtain ⟨card, hcard, -, hcan⟩ := Legality.card_of_check hbegins.legal
  rw [hsource] at hcard
  rw [← hbegins.board] at hcard hcan htidy
  refine (h.after d).sound.pays hidle' hqueue hfront hget hability ?_ ?_
  · have hhome := htidy.homes _ card hcard
    rw [Board.isHomed, hcard]
    exact hhome
  · exact (Payment.canPayAll_congr rfl rfl _ _).trans hcan

/-- Rounds set off a deed that boots for it. The next turn offers it for the round that begins. -/
def bootingDeed : List Deed :=
  [.call (.board fun b => ((Board.createCard ⟨0⟩ "A" .deed .playArea).ends b).2),
    .call (.attach ⟨3⟩ {
      kind := .forced
      triggers := [(.beginRound, fun _ _ => true)]
      costs := [.bootSelf]
      handler := some fun _ => .done }),
    .call (.order .beginRound), .turn, .go]

theorem setsUp_bootingDeed : Along SetsUp (start (.twoPlayer "Ann" "Bob" 0)) bootingDeed := by
  refine ⟨?_, by rintro _ ⟨⟩, by rintro _ ⟨⟩, by rintro _ ⟨⟩, by rintro _ ⟨⟩, trivial⟩
  rintro _ ⟨⟩
  exact .created (by decide) "A" .deed .playArea

theorem pays_as_judged_bootingDeed :
    ((start (.twoPlayer "Ann" "Bob" 0)).run bootingDeed).running = none ∧
      .reached .legalityChecked ∈
        happenings ⟨0⟩ ((start (.twoPlayer "Ann" "Bob" 0)).run bootingDeed) .turn ∧
      ∃ a activation i,
        (((start (.twoPlayer "Ann" "Bob" 0)).run bootingDeed).after .turn).IsNext
          ⟨i, .resolve ⟨0⟩ .payCosts⟩ ∧
        (((start (.twoPlayer "Ann" "Bob" 0)).run bootingDeed).after .turn).Pays ⟨0⟩ a
          activation := by
  have hidle : ((start (.twoPlayer "Ann" "Bob" 0)).run bootingDeed).running = none := by
    decide +kernel
  have hstarts : .reached .legalityChecked ∈
      happenings ⟨0⟩ ((start (.twoPlayer "Ann" "Bob" 0)).run bootingDeed) .turn := by
    decide +kernel
  obtain ⟨a, judged, activation, i, -, hnext, -, hpays⟩ :=
    Reached.pays_as_judged ⟨_, _, rfl⟩ hidle hstarts
  exact ⟨hidle, hstarts, a, activation, i, hnext, hpays (tidy_run (sound_start _)
    (Board.tidy_twoPlayer "Ann" "Bob" 0) setsUp_bootingDeed)⟩

end Moment

end Doomtown
