import Doomtown.Proofs.RemainingUses

/-!
# Scripts and payments that leave cards and entries alone

A script is calm from some state on if each of its orders queues no step, moves no card and touches
no entry of an ability, and if it does not fail (`Script.Calm`). Run as a step it may withdraw
steps, and no more becomes of the queue (`Script.Calm.ends`). Costs that move no card leave cards
and entries alone likewise, however their payment ends (`Engine.payCosts_ends`).
-/

namespace Doomtown

open Play

/-! ## Scripts -/

/-- A script that, run from a state on, does not fail, queues nothing, moves no card and touches no
entry of an ability. -/
inductive Script.Calm : Script → Engine → Prop where
  | done {e : Engine} : Calm .done e
  | look {next : View → Script} {e : Engine} (h : (next e.sight).Calm e) : Calm (.look next) e
  | order {o : Order} {next : Except RulesError o.Reply → Script} {e : Engine}
      (hleaves : e.Leaves (o.carryOut.ends e).2)
      (hqueue : (o.carryOut.ends e).2.queue.nextId = e.queue.nextId)
      (h : (next (o.carryOut.ends e).1).Calm (o.carryOut.ends e).2) : Calm (.order o next) e

namespace Engine

variable {e e' e'' : Engine}

/-- While a step runs that has queued nothing, steps that wait were withdrawn at most. -/
structure Thins (e e' : Engine) : Prop where
  running : e'.queue.running = some []
  steps : e'.queue.steps.Sublist e.queue.steps

/-- An order that queues nothing withdraws a step at most. -/
theorem thins_order (o : Order) (hrunning : e.queue.running = some [])
    (hqueue : (o.carryOut.ends e).2.queue.nextId = e.queue.nextId) :
    e.Thins (o.carryOut.ends e).2 := by
  cases e.obeys_order o with
  | posts kinds hposts =>
    rw [StepQueue.pushAll_running hrunning] at hposts
    rw [hposts] at hqueue
    obtain rfl : kinds = [] := List.length_eq_zero_iff.mp (by simpa using hqueue)
    exact ⟨by rw [hposts]; rfl, by rw [hposts]⟩
  | enters kind henters =>
    rw [henters, StepQueue.nextId_pushNext] at hqueue
    exact absurd hqueue (Nat.succ_ne_self _)
  | withdraws i hwithdraws =>
    obtain ⟨hsteps, hchildren, hisRunning, -⟩ := e.queue.withdraw_sublist i
    rw [← hwithdraws] at hsteps hchildren hisRunning
    refine ⟨?_, hsteps⟩
    unfold StepQueue.isRunning StepQueue.children at *
    rw [hrunning] at hchildren hisRunning
    obtain ⟨own, hown⟩ := Option.isSome_iff_exists.mp hisRunning
    rw [hown, Option.getD_some, Option.getD_some] at hchildren
    rw [hown, List.eq_nil_of_sublist_nil hchildren]

end Engine

/-- A calm script ends without an error. -/
theorem Script.Calm.ends {script : Script} {e : Engine} (h : script.Calm e)
    (hrunning : e.queue.running = some []) :
    ∃ e', script.run.ends e = (.ok (), e') ∧ e.Leaves e' ∧ e.Thins e' := by
  -- Each order hands on that the step which runs has queued nothing.
  induction h with
  | done => exact ⟨_, rfl, .refl _, hrunning, .refl _⟩
  | look _ ih => exact ih hrunning
  | @order o next e hleaves hqueue _ ih =>
    have hthins := Engine.thins_order o hrunning hqueue
    obtain ⟨e', hends, hleaves', hthins'⟩ := ih hthins.running
    exact ⟨e', hends, hleaves.trans hleaves', hthins'.running, hthins'.steps.trans hthins.steps⟩

/-! ## Payments -/

/-- The receipt of a cost that moves no card names none. -/
theorem Cost.Pays.moves?_eq_none {b b' : Board} {x : Activation} {cost : Cost} {r : CostReceipt}
    (h : cost.Pays b x r b') (hstay : cost.destination = none) : r.moves? = none := by
  cases h with
  | boot => rfl
  | spend => rfl
  | move hd => simp [hstay] at hd

namespace Payment

variable {costs : List Cost}

/-- What is left to pay moves no card, and what was paid has moved none. -/
structure Staying (b : Board) (costs : List Cost) (paid : List CostReceipt) (b' : Board) :
    Prop where
  costs : ∀ cost ∈ costs, cost.destination = none
  paid : ∀ r ∈ paid, r.moves? = none
  board : b.Rests b'

theorem outcome_staying (title : String) (x : Activation) (b : Board)
    (hstay : ∀ cost ∈ costs, cost.destination = none) :
    Outcome title (Staying b) ((payFrom title x [] costs).ends b) := by
  refine outcome_payFrom (fun h _ hpays => ?_) costs [] ⟨hstay, by simp, .refl none b⟩
  have hdestination := h.costs _ List.mem_cons_self
  have hmoves := hpays.moves?_eq_none hdestination
  exact ⟨fun cost hcost => h.costs cost (List.mem_cons_of_mem _ hcost),
    List.forall_mem_cons.mpr ⟨hmoves, h.paid⟩, h.board.trans (rests_of_pays hpays hmoves)⟩

/-- Costs that move no card are paid without moving one, or their payment fails without moving
one. -/
theorem payAll_staying (title : String) (x : Activation) (b : Board)
    (hstay : ∀ cost ∈ costs, cost.destination = none) :
    b.Rests ((payAll title x costs).ends b).2 ∧
      ∀ receipts, ((payAll title x costs).ends b).1 = .ok receipts →
        receipts.filterMap Engine.movedBy? = [] := by
  rw [payAll_ends]
  split
  · have houtcome := outcome_staying title x b hstay
    generalize (payFrom title x [] costs).ends b = ending at houtcome
    cases houtcome with
    | @paid paid b' h =>
      refine ⟨h.board, fun receipts hreceipts => ?_⟩
      obtain rfl := Except.ok.inj hreceipts
      refine List.filterMap_eq_nil_iff.mpr fun r hr => ?_
      have hmoves := h.paid r (List.mem_reverse.mp hr)
      rw [Engine.moves?_eq] at hmoves
      exact Option.map_eq_none_iff.mp hmoves
    | @reverted _ paid b₁ b' _ _ h hreverts =>
      have hback : (revertAll paid).Chains Board.Rests :=
        moves_revertAll paid fun r hr c hc => by simp [h.paid r hr] at hc
      refine ⟨h.board.trans (hreverts ▸ Board.moves_of_chain (hback b₁)), by simp⟩
  · exact ⟨.refl none b, by simp⟩

end Payment

namespace Engine

variable {e e' : Engine} {a : Ability} {x : ActivationId} {activation : Activation}

/-- How the payment of costs ends that move no card. -/
inductive PayEnds (e : Engine) (x : ActivationId) (activation : Activation) :
    Except RulesError Unit × Engine → Prop where
  | paid {e' : Engine} {activation' : Activation} (h : e.Leaves e')
      (hfiled : e'.activations.get? x = some activation')
      (hability : activation'.ability = activation.ability)
      (hqueue : e'.queue = e.queue.push (.resolve x .chooseTargets)) :
    PayEnds e x activation (.ok (), e')
  | cancelled {e' : Engine} (h : e.Leaves e') (hqueue : e'.queue = e.queue) :
    PayEnds e x activation (.ok (), e')
  | failed {title : String} {cause : RulesError} {e' : Engine} :
    PayEnds e x activation (.error (.paymentFailed title cause), e')

theorem payCosts_ends (hstay : ∀ cost ∈ a.costs, cost.destination = none)
    (hget : e.activations.get? x = some activation) :
    e.PayEnds x activation ((payCosts a x activation).ends e) := by
  obtain ⟨hrests, hreceipts⟩ := Payment.payAll_staying a.title activation e.board hstay
  rcases hpay : (Payment.payAll a.title activation a.costs).ends e.board with ⟨err | receipts, b⟩
  · rw [hpay] at hrests
    have hattempt : (attempt (onBoard (Payment.payAll a.title activation a.costs))).ends e =
        (.ok (.error err), { e with board := b }) := by
      rw [ends_attempt, onBoard, ends_within, hpay]
    have hleaves : ∀ activations, e.Leaves { e with board := b, activations := activations } :=
      fun _ => (leaves_board hrests).trans (leaves_of_eq rfl rfl rfl rfl)
    unfold payCosts
    rw [ends_bind_ok hattempt]
    cases err with
    | paymentFailed => exact .failed
    | _ => exact .cancelled (hleaves _) rfl
  · rw [hpay] at hrests hreceipts
    rw [payCosts_paid hpay, hreceipts receipts rfl]
    exact .paid ((leaves_board hrests).trans (leaves_of_eq rfl rfl rfl rfl))
      (IdMap.get?_modify_self hget _) rfl rfl

end Engine

end Doomtown
