import Doomtown.Proofs.BeingPlayed
import Doomtown.Proofs.Retraction
import Doomtown.Proofs.Sources
import Doomtown.Proofs.Steady
import Mathlib.Data.List.Induction

/-!
# How cards come to be played

Plays that do not pay costs let no card be played that was not, but for orders to move one there
(`Engine.Withholds`). So whenever a card comes to be played in a run in which no such order is given
and no step fails, the costs of an activation of one of its abilities are paid, and the activation
goes on from there (`Moment.Sound.plays`).
-/

namespace Doomtown

open Play

namespace Engine

variable {e e' e'' : Engine}

/-! ## Plays that let no card be played -/

/-- No card is being played that was not. -/
def Withholds (e e' : Engine) : Prop := e.board.Withholds e'.board

theorem withholds_of_chain (h : Relation.ReflTransGen Withholds e e') : e.Withholds e' :=
  link_of_chain (fun _ => .refl _) (fun h h' => h.trans h') h

section Plays

variable {α : Type}

theorem withholds_ends {p : Play Engine α} (hp : p.Chains Withholds) (e : Engine) :
    e.Withholds (p.ends e).2 :=
  withholds_of_chain (hp e)

/-- Plays that move no card. -/
theorem withholds_of_rests {p : Play Engine α} (hp : p.Chains Rests) : p.Chains Withholds :=
  hp.mono fun _ _ h => h.withholds

theorem withholds_of_tends {p : Play Engine α} (hp : p.Chains Tends) : p.Chains Withholds :=
  withholds_of_rests (rests_of_tends hp)

theorem withholds_onBoard {p : Play Board α} (hp : p.Chains Board.Withholds) :
    (onBoard p).Chains Withholds :=
  .single fun e => Board.withholds_of_chain (hp e.board)

theorem withholds_change {f : Engine → Engine} (hf : ∀ e, (f e).board = e.board) :
    (change f).Chains Withholds :=
  withholds_of_rests (rests_change hf)

theorem withholds_moveCard (c : CardId) {destination : Location} (hd : destination ≠ .beingPlayed) :
    (moveCard c destination).Chains Withholds :=
  .bind (withholds_onBoard (Board.withholds_moveCard c hd)) fun origin =>
    withholds_of_tends (tends_afterMove c origin destination)

theorem withholds_conclude (a : Ability) (x : ActivationId) (activation : Activation) :
    (conclude a x activation).Chains Withholds := by
  refine .bind (withholds_change fun _ => rfl) fun _ => .bind ?_ fun _ =>
    .bind (withholds_change fun _ => rfl) fun _ => .bind ?_ fun _ =>
    .bind (withholds_of_tends (handles_tends.raise _ _)) fun _ =>
    .discard (withholds_of_tends (tends_post _))
  · exact .bind .look fun _ =>
      .ite (withholds_of_tends (tends_onBoard (Board.rests_change_round _))) (.pure _)
  · exact .bind .look fun _ => .ite (.discard (withholds_moveCard a.source (by decide))) (.pure _)

theorem withholds_close (task : Task) : task.close.Chains Withholds := by
  cases task with
  | plain => exact .answer _
  | event event => exact withholds_of_rests (rests_openWindow event)
  | effect a x activation => exact withholds_conclude a x activation

end Plays

end Engine

/-- An order to move a card where cards are being played. -/
def Order.isToBePlayed : Order → Bool
  | .move _ l | .shift _ l => l = .beingPlayed
  | _ => false

theorem Engine.withholds_order (o : Order) (ho : o.isToBePlayed = false) :
    o.carryOut.Chains Engine.Withholds := by
  cases o with
  | shift c l =>
    have hl : l ≠ .beingPlayed := by simpa [Order.isToBePlayed] using ho
    exact .discard (Engine.withholds_onBoard (Board.withholds_moveCard c hl))
  | move c l =>
    have hl : l ≠ .beingPlayed := by simpa [Order.isToBePlayed] using ho
    exact .discard (Engine.withholds_moveCard c hl)
  | _ => exact Engine.withholds_of_rests (Engine.rests_order _ (by simp) (by simp))

namespace Moment

variable {m : Moment} {d : Deed} {x : ActivationId} {c : CardId}

/-! ## How cards come to be played -/

/-- No step fails by a deed, and no card is put by order, or as the board is set up, where cards are
being played. -/
structure Fair (m : Moment) (d : Deed) : Prop where
  succeeds : m.fails d = false
  orders : (m.gives d).any (·.isToBePlayed) = false
  setUp : ∀ f, d = .call (.board f) → m.engine.board.Withholds (f m.engine.board)

/-- A card comes to be played by the payment for an activation of an ability of it. -/
structure Plays (m : Moment) (d : Deed) (x : ActivationId) (c : CardId) : Prop where
  paid : m.occurrence d = some (x, .paid)
  source : ∃ activation, (m.after d).engine.activations.get? x = some activation ∧
    activation.source = c ∧ ∃ r ∈ activation.receipts, r.moves? = some c
  before : m.engine.board.isPlayed c = false
  now : (m.after d).engine.board.isPlayed c

theorem call_withholds (hrunning : m.running = none) {call : Call} (hfair : m.Fair (.call call)) :
    m.engine.Withholds (call.play.ends m.engine).2 := by
  obtain ⟨e, running⟩ := m
  obtain rfl : running = none := hrunning
  cases call with
  | order o =>
    have ho : o.isToBePlayed = false := by simpa [gives] using hfair.orders
    exact Engine.withholds_ends (.discard (Engine.withholds_order o ho)) e
  | board f => exact hfair.setUp f rfl
  | attach card design =>
    exact Engine.withholds_ends
      (Engine.withholds_of_rests (.discard (Engine.rests_addAbility card design))) e
  | refresh card =>
    exact Engine.withholds_ends (Engine.withholds_of_tends (Engine.tends_refresh card)) e
  | clear ability =>
    have htends := Engine.tends_clearRetractable ability
    exact Engine.withholds_ends (Engine.withholds_of_tends htends) e
  | raise event change =>
    exact Engine.withholds_ends (Engine.withholds_of_tends (Engine.handles_tends.raise event _)) e
  | queue label body | ask player title buttons source answers =>
    exact Engine.withholds_ends (.discard (Engine.withholds_of_tends (Engine.tends_post _))) e

/-- A step that is done as a whole lets a card be played only if it pays costs. -/
theorem runStep_withholds {e : Engine} {s : Step} (hopening : e.opening s.kind = none) :
    e.Withholds ((Engine.runStep s).ends e).2 ∨
      ∃ x activation a, s.kind = .resolve x .payCosts ∧
        e.activations.get? x = some activation ∧ activation.isLive ∧
        e.ability? activation.ability = some a ∧
        ((Engine.runStep s).ends e) = (Engine.payCosts a x activation).ends e := by
  rw [Engine.runStep_kind]
  obtain ⟨i, kind⟩ := s
  dsimp only at hopening ⊢
  cases kind with
  | task label body => simp [Engine.opening] at hopening
  | prompt p => exact .inl (.refl _)
  | window w =>
    have hadvance := Engine.handles_tends.advance w
    exact .inl (Engine.withholds_ends (Engine.withholds_of_tends hadvance) e)
  | complete y => exact .inl (.refl _)
  | event event change =>
    cases change with
    | script body => simp [Engine.opening] at hopening
    | emitted y =>
      have hfire : (Engine.fire event (.emitted y)).Chains Engine.Withholds :=
        .bind (Engine.withholds_change fun _ => rfl) fun _ =>
          Engine.withholds_of_rests (Engine.rests_openWindow event)
      exact .inl (Engine.withholds_ends hfire e)
  | resolve y stage =>
    by_cases hfound : ∃ activation a, e.activations.get? y = some activation ∧
        activation.isLive ∧ e.ability? activation.ability = some a
    · obtain ⟨activation, a, hget, hlive, hability⟩ := hfound
      rw [Engine.resolve_live stage hget hlive hability]
      cases stage with
      | payCosts => exact .inr ⟨y, activation, a, rfl, hget, hlive, hability, rfl⟩
      | chooseTargets =>
        have hfill := Engine.tends_fillSlots a y activation a.targets
        exact .inl (Engine.withholds_ends (Engine.withholds_of_tends hfill) e)
      | execute => simp [Engine.opening, hget, hability, hlive] at hopening
    · -- A stage that comes too late does nothing.
      rw [Engine.resolve_idle stage fun activation a hget hlive hability =>
        hfound ⟨activation, a, hget, hlive, hability⟩]
      exact .inl (.refl _)

theorem respond_withholds (e : Engine) (p : PlayerId) (n : Nat) :
    e.Withholds (respond e p n).engine := by
  unfold respond
  cases e.queue.beginAnswer? with
  | none => exact .refl _
  | some ipq =>
    obtain ⟨i, ⟨view, player, reply⟩, q⟩ := ipq
    dsimp only
    split
    · -- What the answer does is done by the step, which leaves the board as it is otherwise.
      have hstep : ∀ {p : Play Engine Unit}, p.Chains Engine.Tends →
          e.Withholds ((Engine.asStep q p).ends e).2 := fun {p} hp => by
        rw [Engine.asStep_ends]
        have hends := Engine.withholds_ends (Engine.withholds_of_tends hp) { e with queue := q }
        exact hends
      cases reply with
      | script answers => exact .refl _
      | target y slot choices => exact hstep (Engine.tends_chooseTarget y slot choices n)
      | offer y alternatives =>
        exact hstep (.ite (Engine.tends_dropActivation y) (Engine.handles_tends.accept y _))
    · exact .refl _

theorem go_withholds {e : Engine} {task : Task} {script : Script}
    (hfair : Fair ⟨e, some ⟨task, script⟩⟩ .go) : e.Withholds (go e task script).engine := by
  cases script with
  | done =>
    -- The end of an effect moves a card, but to the discard pile.
    have hclose := Engine.withholds_ends (Engine.withholds_close task) e
    exact hclose
  | fail err => exact .refl _
  | look next => exact .refl _
  | order o next =>
    have ho : o.isToBePlayed = false := by simpa [gives] using hfair.orders
    exact Engine.withholds_ends (Engine.withholds_order o ho) e
  | raise event change next =>
    exact Engine.withholds_ends (Engine.withholds_of_tends (Engine.handles_tends.raise event _)) e
  | queue label body next | prompt player title buttons source answers next =>
    exact Engine.withholds_ends (Engine.withholds_of_tends (Engine.tends_post _)) e

/-- Costs whose payment does not fail let no card be played but the source, which a receipt names as
moved then. -/
theorem payCosts_plays {e e' : Engine} {a : Ability} {activation : Activation}
    (hend : (Engine.payCosts a x activation).ends e = (.ok (), e'))
    (hbefore : e.board.isPlayed c = false) (hnow : e'.board.isPlayed c) :
    ∃ receipts b,
      (Payment.payAll a.title activation a.costs).ends e.board = (.ok receipts, b) ∧
      activation.source = c ∧ ∃ r ∈ receipts, r.moves? = some c := by
  rcases hpay : (Payment.payAll a.title activation a.costs).ends e.board with ⟨err | receipts, b⟩
  · have hrefused := Engine.payCosts_refused (x := x) hpay
    rw [hend] at hrefused
    obtain rfl : e'.board = b := congrArg (·.board) hrefused
    rcases Payment.refused_withholds hpay with ⟨cause, rfl⟩ | hwithholds
    · -- A payment that fails after costs were paid fails the step.
      have hattempt : (attempt (Engine.onBoard
          (Payment.payAll a.title activation a.costs))).ends e =
          (.ok (.error (.paymentFailed a.title cause)), { e with board := e'.board }) := by
        rw [ends_attempt, Engine.onBoard, ends_within, hpay]
      unfold Engine.payCosts at hend
      rw [ends_bind_ok hattempt] at hend
      simp [ends_bind, Engine.modifyActivation] at hend
    · simp [hwithholds.not_isPlayed hbefore] at hnow
  · refine ⟨receipts, b, rfl, ?_⟩
    rw [Engine.payCosts_paid hpay] at hend
    -- What follows the payment moves no card, so the payment itself has.
    have hrest : (do
        Engine.afterMoves (receipts.filterMap Engine.movedBy?)
        discard (Engine.post (.resolve x .chooseTargets)) : Play Engine Unit).Chains
          Engine.Withholds :=
      Engine.withholds_of_tends
        (.bind (Engine.tends_afterMoves _) fun _ => .discard (Engine.tends_post _))
    have hpaid := Engine.withholds_ends hrest { e with
      board := b
      activations := e.activations.modify x
        ({ · with receipts := receipts, stage := .costsPaid }) }
    rw [hend] at hpaid
    exact Payment.isPlayed_payAll hpay (hpaid c hnow) hbefore

/-- A turn that lets a card be played is the payment for an activation, which goes on from there. -/
theorem Sound.turn_plays (h : m.Sound) (hrunning : m.running = none) (hfair : m.Fair .turn)
    (hbefore : m.engine.board.isPlayed c = false) (hnow : (m.after .turn).engine.board.isPlayed c) :
    ∃ x, m.Plays .turn x c ∧ (m.after .turn).OnTrack x := by
  have hsteady : m.Steady .turn := ⟨hfair.succeeds, by simp [withdraws, hrunning]⟩
  have hnew : ¬m.engine.Withholds (m.after .turn).engine := fun hwithholds => by
    simp [Board.Withholds.not_isPlayed hwithholds hbefore] at hnow
  have hafter : m.after .turn = turn m.engine := by
    unfold Moment.after
    simp only [hrunning]
  cases hbegin : m.engine.queue.begin? with
  | none =>
    rw [hafter, turn, hbegin] at hnew
    exact absurd (.refl _) hnew
  | some sq =>
    obtain ⟨s, q⟩ := sq
    cases hopening : m.engine.opening s.kind with
    | some r =>
      rw [hafter, turn, hbegin] at hnew
      simp only [hopening] at hnew
      exact absurd (.refl _) hnew
    | none =>
      have hstarts : m.starts? .turn = some s := by simp [starts?, hrunning, hbegin]
      obtain ⟨q', e₁, -, htaken, hend, hafter'⟩ := hsteady.whole hstarts hopening
      have hnow₁ : e₁.board.isPlayed c := by
        rw [hafter'] at hnow
        exact hnow
      rw [hafter'] at hnew
      rcases runStep_withholds (e := { m.engine with queue := q' }) hopening with
        hwithholds | ⟨x, activation, a, hkind, hget, hlive, hability, hpay⟩
      · rw [hend] at hwithholds
        exact absurd hwithholds hnew
      · rw [hend] at hpay
        obtain ⟨receipts, b, hpaid, hsource, hmoved⟩ := payCosts_plays hpay.symm hbefore hnow₁
        -- Nothing else of the activation waits.
        have hpart : s.kind.part? = some (x, .pay) := by rw [hkind]; rfl
        obtain ⟨-, hfits⟩ := h.fits_front hrunning hpart htaken
        obtain ⟨-, -, -, -, hnone⟩ := follows_of_fits hfits (by decide)
        have hkept : activation.deactivated = false := (Activation.isLive_iff.mp hlive).2.1
        have hfiled : (m.after .turn).engine.activations.get? x =
            some { activation with receipts := receipts, stage := .costsPaid } := by
          have hends := Engine.payCosts_filed hget hnone hpaid
          rw [← hpay] at hends
          rw [hafter']
          exact hends
        have hon : (m.after .turn).OnTrack x := by
          rw [hafter']
          exact onTrack_finished (Engine.payCosts_onTrack hget hkept hnone hpay.symm)
        refine ⟨x, ⟨?_, ⟨_, hfiled, hsource, hmoved⟩, hbefore, hnow⟩, hon⟩
        have hget' : m.engine.activations.get? x = some activation := hget
        have hability' : m.engine.ability? activation.ability = some a := hability
        have hpaid' : (Payment.payAll a.title activation a.costs).ends m.engine.board =
            (.ok receipts, b) := hpaid
        have hpays : m.engine.pays x := by
          simp [Engine.pays, hget', hability', hlive, hpaid', Except.isOk, Except.toBool]
        simp [occurrence, hrunning, hbegin, hkind, Engine.occurrence, hpays]

/-- A card that comes to be played is paid with for an activation, which goes on from there. -/
theorem Sound.plays (h : m.Sound) (hfair : m.Fair d) (hbefore : m.engine.board.isPlayed c = false)
    (hnow : (m.after d).engine.board.isPlayed c) :
    ∃ x, m.Plays d x c ∧ (m.after d).OnTrack x := by
  have hold : m.engine.Withholds (m.after d).engine →
      ∃ x, m.Plays d x c ∧ (m.after d).OnTrack x := fun hwithholds => by
    simp [Board.Withholds.not_isPlayed hwithholds hbefore] at hnow
  obtain ⟨e, running⟩ := m
  cases running with
  | none =>
    cases d with
    | call call => exact hold (call_withholds rfl hfair)
    | turn => exact h.turn_plays rfl hfair hbefore hnow
    | answer p n => exact hold (respond_withholds e p n)
    | go => exact hold (.refl _)
  | some r =>
    obtain ⟨task, script⟩ := r
    cases d with
    | go => exact hold (go_withholds hfair)
    | _ => cases task <;> cases script <;> exact hold (.refl _)

end Moment

end Doomtown
