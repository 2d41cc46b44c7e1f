import Doomtown.Proofs.AcceptedOffers
import Doomtown.Proofs.DoubleOffer
import Doomtown.Proofs.TriggerChains

/-!
# Forced triggers, turn by turn

The queue goes from one state of the engine to another by turns that each run a step
(`Engine.Turns`). For each kind of step on the way of a forced trigger that costs nothing and is
aimed at nothing, one lemma says what its turn leaves: the event is applied and its window opened,
the ability is offered, pays nothing, chooses nothing and takes effect, and its end is announced.
Each of these steps was queued by the one before it, so it is run before all that waits behind.
-/

namespace Doomtown

open Play

namespace Engine

/-! ## Turns in a row -/

/-- The numbers of the steps that the queue runs in some turns, in the order in which they run. -/
def stepsRun : Nat → Engine → List StepId
  | 0, _ => []
  | fuel + 1, e => (e.queue.begin?.map (·.1.id)).toList ++
    match turn.ends e with
    | (.ok none, e') => stepsRun fuel e'
    | _ => []

/-- Turns of the queue lead from one state to another, and these steps are run in them. -/
inductive Turns : Engine → List StepId → Engine → Prop where
  | nil (e : Engine) : Turns e [] e
  | cons {e e₁ e' : Engine} {s : Step} {q : StepQueue} {l : List StepId}
      (hbegin : e.queue.begin? = some (s, q)) (hturn : turn.ends e = (.ok none, e₁))
      (h : Turns e₁ l e') : Turns e (s.id :: l) e'

variable {e e₁ e' : Engine} {l l' : List StepId}

theorem Turns.trans (h : e.Turns l e₁) (h' : e₁.Turns l' e') : e.Turns (l ++ l') e' := by
  induction h with
  | nil => exact h'
  | cons hbegin hturn _ ih => exact .cons hbegin hturn (ih h')

/-- What the queue does in more turns it does from where it came to. -/
theorem Turns.settle_add (h : e.Turns l e') (fuel : Nat) :
    (settle (l.length + fuel)).ends e = (settle fuel).ends e' := by
  induction h with
  | nil => rw [List.length_nil, Nat.zero_add]
  | cons _ hturn _ ih =>
    rw [List.length_cons, Nat.add_right_comm, settle_succ, ends_bind_ok hturn]
    exact ih

theorem Turns.stepsRun_add (h : e.Turns l e') (fuel : Nat) :
    e.stepsRun (l.length + fuel) = l ++ e'.stepsRun fuel := by
  induction h with
  | nil => rw [List.length_nil, Nat.zero_add, List.nil_append]
  | cons hbegin hturn _ ih =>
    rw [List.length_cons, Nat.add_right_comm, stepsRun, hbegin, hturn]
    exact congrArg _ ih

/-- The queue has not stopped yet. -/
theorem Turns.settle (h : e.Turns l e') : (settle l.length).ends e = (.ok none, e') :=
  h.settle_add 0

/-- Whoever runs the queue until it stops takes these turns first. -/
theorem Turns.passed (h : e.Turns l e') {fuel : Nat} {r : Except RulesError (Option QueueStatus)}
    {e₂ : Engine} (hends : (Engine.settle fuel).ends e = (r, e₂)) (hr : r ≠ .ok none) :
    ∃ k, fuel = l.length + k ∧ (Engine.settle k).ends e' = (r, e₂) := by
  have hlong : l.length ≤ fuel := by
    by_contra hless
    obtain ⟨k, hk⟩ := Nat.exists_eq_add_of_le (Nat.le_of_not_le hless)
    have hstopped : e.runsOut fuel = false := by
      unfold runsOut
      rw [hends]
      rcases r with _ | _ | _
      · rfl
      · exact absurd rfl hr
      · rfl
    have hsame := settle_more hstopped k
    rw [← hk, h.settle, hends] at hsame
    exact hr (Prod.mk.inj hsame).1.symm
  obtain ⟨k, rfl⟩ := Nat.exists_eq_add_of_le hlong
  exact ⟨k, rfl, (h.settle_add k).symm.trans hends⟩

/-! ## The turn of a step -/

variable {s : Step} {i : StepId} {rest : List Step}

/-- A step at the front that is no prompt is run by a turn. -/
theorem turns_of_step (hidle : e.queue.running = none) (hfront : e.queue.steps = s :: rest)
    (hkind : ∀ p, s.kind ≠ .prompt p)
    (hrun : (runStep s).ends { e with queue := e.queue.started rest } = (.ok (), e₁)) :
    e.Turns [s.id] e₁.finished := by
  refine .cons (StepQueue.begin?_front hidle hfront hkind) ?_ (.nil _)
  rw [turn_runs hidle hfront hkind, hrun]

/-- The engine once an event was raised by a step, in front of what waits. -/
def heralding (e : Engine) (data : EventData) (rest : List Step) : Engine :=
  { e with
    board := { e.board with clock := e.board.clock + 1 }
    queue := ⟨⟨e.queue.nextStep, .event ⟨e.board.clock + 1, data⟩ (.script .done)⟩ :: rest, none,
      e.queue.nextId + 1⟩ }

/-- A step that raises an event puts it in front of what waits. -/
theorem turns_heralding {label : String} {data : EventData} (hidle : e.queue.running = none)
    (hfront : e.queue.steps = ⟨i, .task label (.raise data .done .done)⟩ :: rest) :
    e.Turns [i] (e.heralding data rest) :=
  turns_of_step hidle hfront (by simp) rfl

/-- Listeners that are there to trigger are told nothing. -/
theorem notifyEach_triggers {subscriptions : List Subscription}
    (h : ∀ s ∈ subscriptions, s.listener = .trigger) (e : Engine) :
    (notifyEach subscriptions).ends e = (.ok (), e) := by
  induction subscriptions with
  | nil => rfl
  | cons s more ih =>
    have hnotify : (notify s).ends e = (.ok (), e) := by
      unfold notify
      rw [h s List.mem_cons_self]
      rfl
    exact (ends_bind_ok hnotify _).trans (ih fun t ht => h t (.tail _ ht))

/-- The queue once an event was applied: its window is in front of what waits. -/
def windowed (e : Engine) (event : GameEvent) (rest : List Step) : StepQueue where
  steps := restOf event e.queue.nextId (e.collect event).pending ++ rest
  running := none
  nextId := e.queue.nextId + (restOf event e.queue.nextId (e.collect event).pending).length

/-- An event whose listeners are all there to trigger changes what its change does, and opens its
window. -/
theorem turns_event {event : GameEvent} {c : EventChange} (hidle : e.queue.running = none)
    (hfront : e.queue.steps = ⟨i, .event event c⟩ :: rest) (hqueue : e₁.queue = e.queue)
    (hchange : (applyChange c).ends { e with queue := e.queue.started rest } =
      (.ok (), { e₁ with queue := e.queue.started rest }))
    (hlisten : ∀ s ∈ e₁.registrar.listenersFor event.name, s.listener = .trigger) :
    e.Turns [i] { e₁ with queue := e₁.windowed event rest } := by
  obtain ⟨e₂, hnotify, hopen⟩ :=
    openWindow_ends event { e₁ with queue := e.queue.started rest }
  obtain rfl : { e₁ with queue := e.queue.started rest } = e₂ :=
    (Prod.mk.inj ((notifyEach_triggers hlisten _).symm.trans hnotify)).2
  have hrun : (runStep ⟨i, .event event c⟩).ends { e with queue := e.queue.started rest } =
      (.ok (), ({ e₁ with queue := e.queue.started rest } : Engine).requeued event
        (e₁.collect event).pending) := by
    rw [runStep_kind]
    exact (ends_bind_ok hchange _).trans hopen
  have hturns := turns_of_step hidle hfront (by simp) hrun
  unfold windowed
  rw [hqueue]
  generalize (e₁.collect event).pending = pending at hturns ⊢
  cases pending <;> exact hturns

/-- Where nobody listens to an event, its window has no candidate. -/
theorem pending_of_unheard {event : GameEvent} (h : e.registrar.listenersFor event.name = []) :
    (e.collect event).pending = [] := by
  have hperm := e.collect_perm event
  rw [h] at hperm
  exact hperm.eq_nil

/-- An event that sets nothing off leaves what waits behind it. -/
theorem windowed_of_none {event : GameEvent} (h : (e.collect event).pending = [])
    (rest : List Step) : e.windowed event rest = ⟨rest, none, e.queue.nextId⟩ := by
  unfold windowed
  rw [h]
  rfl

/-! ## From the window to the effect -/

variable {event : GameEvent} {c : TriggerCandidate} {a : Ability} {x : ActivationId}
  {activation : Activation}

/-- A stage at the front is gone through by a turn. -/
theorem turns_of_stage {stage : ResolutionStage} (hidle : e.queue.running = none)
    (hfront : e.queue.steps = ⟨i, .resolve x stage⟩ :: rest)
    (hrun : (resolve x stage).ends { e with queue := e.queue.started rest } = (.ok (), e₁)) :
    e.Turns [i] e₁.finished :=
  turns_of_step hidle hfront (by simp) ((runStep_kind _ _).trans hrun)

/-- What is played on the board leaves all else alone. -/
theorem onBoard_ends {α : Type} {p : Play Board α} {r : Except RulesError α} {b : Board}
    (h : p.ends e.board = (r, b)) : (onBoard p).ends e = (r, { e with board := b }) := by
  rw [onBoard, ends_within, h]

/-- Costs of which there are none are paid. -/
theorem payCosts_free (hcosts : a.costs = []) (e : Engine) :
    (payCosts a x activation).ends e = (.ok (), { e with
      activations := e.activations.modify x ({ · with receipts := [], stage := .costsPaid })
      queue := e.queue.push (.resolve x .chooseTargets) }) := by
  have hpay : (Payment.payAll a.title activation a.costs).ends e.board = (.ok [], e.board) := by
    rw [hcosts]
    rfl
  unfold payCosts
  rw [ends_bind_ok (ends_attempt _ _), onBoard_ends hpay]
  rfl

/-- What waits in front of all else at a stage of the activation that was entered last. -/
def staged (e : Engine) (i : StepId) (stage : ResolutionStage) (rest : List Step) (n : Nat) :
    StepQueue :=
  ⟨⟨i, .resolve ⟨e.nextActivation⟩ stage⟩ :: rest, none, n⟩

theorem get?_entering (e : Engine) (activation : Activation) (q : StepQueue) :
    (e.entering activation q).activations.get? ⟨e.nextActivation⟩ = some activation :=
  (IdMap.get?_insert ..).trans (if_pos rfl)

section Stages

variable {n : Nat} (hlive : activation.isLive) (hability : e.ability? activation.ability = some a)

include hlive hability

theorem turns_pay (hcosts : a.costs = []) :
    (e.entering activation (e.staged i .payCosts rest n)).Turns [i]
      (e.entering { activation with receipts := [], stage := .costsPaid }
        (e.staged ⟨n⟩ .chooseTargets rest (n + 1))) := by
  let e₀ := e.entering activation ((e.staged i .payCosts rest n).started rest)
  have hends := (resolve_live (e := e₀) .payCosts (e.get?_entering ..) hlive hability).trans
    (payCosts_free hcosts e₀)
  have hturns := turns_of_stage (e := e.entering activation (e.staged i .payCosts rest n)) rfl rfl
    hends
  unfold finished at hturns
  dsimp only [e₀, entering] at hturns
  rw [IdMap.modify_insert] at hturns
  exact hturns

theorem turns_choose (htargets : a.targets = []) :
    (e.entering activation (e.staged i .chooseTargets rest n)).Turns [i]
      (e.entering { activation with stage := .targetsResolved }
        (e.staged ⟨n⟩ .execute rest (n + 1))) := by
  let e₀ := e.entering activation ((e.staged i .chooseTargets rest n).started rest)
  have hfill : (fillSlots a ⟨e.nextActivation⟩ activation a.targets).ends e₀ = (.ok (), { e₀ with
      activations := e₀.activations.modify ⟨e.nextActivation⟩ ({ · with stage := .targetsResolved })
      queue := e₀.queue.push (.resolve ⟨e.nextActivation⟩ .execute) }) := by
    rw [htargets]
    rfl
  have hends := (resolve_live (e := e₀) .chooseTargets (e.get?_entering ..) hlive hability).trans
    hfill
  have hturns := turns_of_stage (e := e.entering activation (e.staged i .chooseTargets rest n)) rfl
    rfl hends
  unfold finished at hturns
  dsimp only [e₀, entering] at hturns
  rw [IdMap.modify_insert] at hturns
  exact hturns

end Stages

/-- The activation of a forced trigger that awaits its effect. -/
def awaiting (event : GameEvent) (c : TriggerCandidate) (a : Ability) : Activation :=
  { Activation.new c.ability a.source c.player (some event) with stage := .targetsResolved }

/-- A forced trigger that costs nothing and is aimed at nothing awaits its effect three turns after
its window, if it is legal then. -/
theorem turns_awaiting (hidle : e.queue.running = none)
    (hfront : e.queue.steps = ⟨i, .window ⟨event, [c]⟩⟩ :: rest)
    (hability : e.ability? c.ability = some a) (hforced : a.kind = .forced) (hcosts : a.costs = [])
    (htargets : a.targets = [])
    (hlegal : Legality.isLegal e.board e.usage a (.new c.ability a.source c.player (some event))) :
    e.Turns [i, e.queue.nextStep, ⟨e.queue.nextId + 1⟩] (e.entering (awaiting event c a)
      (e.staged ⟨e.queue.nextId + 2⟩ .execute rest (e.queue.nextId + 3))) := by
  let entered : Activation :=
    { Activation.new c.ability a.source c.player (some event) with stage := .legalityChecked }
  -- The first turn offers the ability, which is forced and starts at once.
  have hoffered : e.Turns [i] (e.entering entered
      (e.staged e.queue.nextStep .payCosts rest (e.queue.nextId + 1))) := by
    refine .cons (StepQueue.begin?_front hidle hfront (by simp)) ?_ (.nil _)
    rw [turn_entering hidle hfront hability hlegal]
    simp [proposed, proposal, hforced, AbilityKind.isForced, followed, restOf, staged, entered]
  have hpaid : (e.entering entered (e.staged e.queue.nextStep .payCosts rest _)).Turns
      [e.queue.nextStep] (e.entering { entered with receipts := [], stage := .costsPaid }
        (e.staged ⟨e.queue.nextId + 1⟩ .chooseTargets rest (e.queue.nextId + 2))) :=
    turns_pay rfl hability hcosts
  have hchosen : (e.entering { entered with receipts := [], stage := .costsPaid }
      (e.staged ⟨e.queue.nextId + 1⟩ .chooseTargets rest _)).Turns [⟨e.queue.nextId + 1⟩]
        (e.entering (awaiting event c a)
          (e.staged ⟨e.queue.nextId + 2⟩ .execute rest (e.queue.nextId + 3))) :=
    turns_choose rfl hability htargets
  exact hoffered.trans (hpaid.trans hchosen)

/-! ## The effect and what follows it -/

/-- The engine once an effect was concluded of an ability whose card is no headline and is not being
played. -/
def concluding (e : Engine) (a : Ability) (x : ActivationId) (activation : Activation) : Engine :=
  { e with
    board := { e.board with clock := e.board.clock + 1 }
    usage := e.usage.increment activation.ability
    activations := e.activations.modify x ({ · with stage := .executed })
    queue := e.queue.pushAll (closing a x activation (e.board.clock + 1)) }

theorem conclude_ends_plain (hheadline : e.board.cardIs a.source (·.hasKeyword .headline) = false)
    (hplayed : isBeingPlayed e.board a.source = false) :
    (conclude a x activation).ends e = (.ok (), e.concluding a x activation) := by
  have hnote : ∀ e₁ : Engine, e₁.board = e.board →
      (noteHeadline a.source).ends e₁ = (.ok (), e₁) := by
    intro e₁ hboard
    unfold noteHeadline
    rw [ends_bind_ok (ends_look e₁), hboard, if_neg (by simp [hheadline])]
    rfl
  have hdiscard : ∀ e₁ : Engine, e₁.board = e.board →
      (discardPlayed a.source).ends e₁ = (.ok (), e₁) := by
    intro e₁ hboard
    unfold discardPlayed
    rw [ends_bind_ok (ends_look e₁), hboard, if_neg (by simp [hplayed])]
    rfl
  unfold conclude
  rw [ends_bind_ok (ends_change _ e)]
  refine (ends_bind_ok
    (hnote { e with usage := e.usage.increment activation.ability } rfl) _).trans ?_
  refine (ends_bind_ok (ends_change _ _) _).trans ?_
  refine (ends_bind_ok (hdiscard { e with
    usage := e.usage.increment activation.ability
    activations := e.activations.modify x ({ · with stage := .executed }) } rfl) _).trans ?_
  rfl

/-- Three turns after the effect began its activation has ended, if nobody listens to that. What was
waiting then waits at the front, as the effect has left it. -/
theorem turns_effect (hidle : e.queue.running = none)
    (hfront : e.queue.steps = ⟨i, .resolve x .execute⟩ :: rest)
    (hget : e.activations.get? x = some activation) (hlive : activation.isLive)
    (hability : e.ability? activation.ability = some a)
    (hscript : (effectScript a e.board activation).run.ends
      { e with queue := e.queue.started rest } = (.ok (), e₁))
    (hrunning : e₁.queue.running = some [])
    (hheadline : e₁.board.cardIs a.source (·.hasKeyword .headline) = false)
    (hplayed : isBeingPlayed e₁.board a.source = false)
    (hunheard : e₁.registrar.listenersFor .abilityResolved = []) :
    ∃ e', e.Turns [i, e₁.queue.nextStep, ⟨e₁.queue.nextId + 1⟩] e' ∧
      e'.queue = ⟨e₁.queue.steps, none, e₁.queue.nextId + 2⟩ ∧
      e'.board = { e₁.board with clock := e₁.board.clock + 1 } := by
  have hrun : (resolve x .execute).ends { e with queue := e.queue.started rest } =
      (.ok (), e₁.concluding a x activation) := by
    refine (resolve_live (e := { e with queue := e.queue.started rest }) .execute hget hlive
      hability).trans ((execute_ends a x activation _).trans ?_)
    exact (ends_bind_ok hscript _).trans (conclude_ends_plain hheadline hplayed)
  have hexecuted := turns_of_stage hidle hfront hrun
  -- The end of the activation waits now, behind the event that announces it.
  have hqueue : (e₁.concluding a x activation).finished.queue =
      ⟨[⟨e₁.queue.nextStep, .event ⟨e₁.board.clock + 1,
          .abilityResolved activation.ability a.source activation.player⟩ (.emitted x)⟩,
        ⟨⟨e₁.queue.nextId + 1⟩, .complete x⟩] ++ e₁.queue.steps, none, e₁.queue.nextId + 2⟩ := by
    simp [concluding, finished, closing, StepQueue.pushAll_running hrunning, StepQueue.finish,
      StepQueue.children, StepQueue.numbered, StepQueue.nextStep]
  let e₂ := (e₁.concluding a x activation).finished
  let event : GameEvent := ⟨e₁.board.clock + 1,
    .abilityResolved activation.ability a.source activation.player⟩
  let e₃ : Engine := { e₂ with
    activations := e₂.activations.modify x ({ · with stage := .eventEmitted }) }
  have hannounced : e₂.Turns [e₁.queue.nextStep] { e₃ with queue :=
      ⟨⟨⟨e₁.queue.nextId + 1⟩, .complete x⟩ :: e₁.queue.steps, none, e₁.queue.nextId + 2⟩ } := by
    have hlisten : e₃.registrar.listenersFor event.name = [] := hunheard
    have hturns : e₂.Turns [e₁.queue.nextStep] { e₃ with queue := e₃.windowed event _ } :=
      turns_event (congrArg StepQueue.running hqueue) (congrArg StepQueue.steps hqueue) rfl rfl
        (by simp [hlisten])
    rw [windowed_of_none (pending_of_unheard hlisten)] at hturns
    have hnext : e₃.queue.nextId = e₁.queue.nextId + 2 := congrArg StepQueue.nextId hqueue
    rwa [hnext] at hturns
  have hended := turns_of_step (e := { e₃ with queue :=
    ⟨⟨⟨e₁.queue.nextId + 1⟩, .complete x⟩ :: e₁.queue.steps, none, e₁.queue.nextId + 2⟩ }) rfl rfl
    (by simp) rfl
  exact ⟨_, hexecuted.trans (hannounced.trans hended), rfl, rfl⟩

end Engine

end Doomtown
