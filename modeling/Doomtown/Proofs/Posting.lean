import Doomtown.Proofs.Course

/-!
# What a deed does to the queue

Hardly any play does anything to the queue but queue steps (`Engine.Posts`): what starts, withdraws
and ends steps are the deeds themselves. `Moment.Serves` lists what a deed can do to the queue, and
every deed does one of these, whether it succeeds or fails (`Moment.serves`). That needs nothing of
the moment but that the queue knows whether a script runs.
-/

namespace Doomtown

open Play

/-! ## Steps that are queued -/

/-- Whether an event says that a card has entered play, or that it has left it. -/
def EventData.crossing (c : CardId) : EventData → Option Bool
  | cardEnteredPlay c' _ => if c' = c then some true else none
  | cardLeftPlay c' _ => if c' = c then some false else none
  | _ => none

/-- What the event of a step says about the side of a card. -/
def StepKind.crossing (c : CardId) : StepKind → Option Bool
  | event e _ => e.data.crossing c
  | _ => none

namespace StepQueue

/-- Queue some steps, one after the other. -/
def pushAll (q : StepQueue) (kinds : List StepKind) : StepQueue := kinds.foldl push q

/-- Steps with numbers from a given one on. -/
def numbered (n : Nat) : List StepKind → List Step
  | [] => []
  | kind :: rest => ⟨⟨n⟩, kind⟩ :: numbered (n + 1) rest

variable {q : StepQueue} {own : List Step}

theorem pushAll_append (q : StepQueue) (kinds kinds' : List StepKind) :
    q.pushAll (kinds ++ kinds') = (q.pushAll kinds).pushAll kinds' := List.foldl_append

/-- While no step runs, what is queued goes to the end. -/
theorem pushAll_idle (h : q.running = none) (kinds : List StepKind) :
    q.pushAll kinds =
      ⟨q.steps ++ numbered q.nextId kinds, none, q.nextId + kinds.length⟩ := by
  induction kinds generalizing q with
  | nil =>
    obtain ⟨steps, _, nextId⟩ := q
    subst h
    simp [pushAll, numbered]
  | cons kind kinds ih =>
    have hpush : q.push kind = ⟨q.steps ++ [⟨⟨q.nextId⟩, kind⟩], none, q.nextId + 1⟩ := by
      simp [push, h, nextStep]
    rw [pushAll, List.foldl_cons, hpush]
    refine (ih rfl).trans ?_
    simp [numbered, Nat.add_comm, Nat.add_left_comm]

/-- While a step runs, what is queued goes behind the running step's own. -/
theorem pushAll_running (h : q.running = some own) (kinds : List StepKind) :
    q.pushAll kinds =
      ⟨q.steps, some (own ++ numbered q.nextId kinds), q.nextId + kinds.length⟩ := by
  induction kinds generalizing q own with
  | nil =>
    obtain ⟨steps, _, nextId⟩ := q
    subst h
    simp [pushAll, numbered]
  | cons kind kinds ih =>
    have hpush : q.push kind = ⟨q.steps, some (own ++ [⟨⟨q.nextId⟩, kind⟩]), q.nextId + 1⟩ := by
      simp [push, h, nextStep]
    rw [pushAll, List.foldl_cons, hpush]
    refine (ih rfl).trans ?_
    simp [numbered, Nat.add_comm, Nat.add_left_comm]

theorem isSome_pushAll (q : StepQueue) (kinds : List StepKind) :
    (q.pushAll kinds).running.isSome = q.running.isSome := by
  cases hrunning : q.running with
  | none => rw [pushAll_idle hrunning]
  | some own => rw [pushAll_running hrunning, Option.isSome_some, Option.isSome_some]

theorem isSome_pushNext (q : StepQueue) (kind : StepKind) :
    (q.pushNext kind).running.isSome = q.running.isSome := by
  unfold pushNext
  cases q.running <;> rfl

/-- What waits when some steps have been queued has waited before, or has a new number. -/
theorem mem_order_pushAll (q : StepQueue) (kinds : List StepKind) :
    q.nextId ≤ (q.pushAll kinds).nextId ∧
      ∀ t ∈ (q.pushAll kinds).order, t ∈ q.order ∨ q.nextId ≤ t.id.number := by
  induction kinds generalizing q with
  | nil => exact ⟨Nat.le_refl _, fun t ht => .inl ht⟩
  | cons kind kinds ih =>
    obtain ⟨hle, hmem⟩ := ih (q.push kind)
    rw [nextId_push] at hle hmem
    refine ⟨Nat.le_of_succ_le hle, fun t ht => ?_⟩
    rcases hmem t ht with hpushed | hnew
    · rcases mem_order_push.mp hpushed with hold | rfl
      · exact .inl hold
      · exact .inr (Nat.le_refl _)
    · exact .inr (Nat.le_of_succ_le hnew)

end StepQueue

namespace Engine

/-- Steps are queued, and nothing else is done to the queue. -/
def Posts (e e' : Engine) : Prop := ∃ kinds, e'.queue = e.queue.pushAll kinds

theorem posts_of_queue {e e' : Engine} (h : e'.queue = e.queue) : e.Posts e' := ⟨[], h⟩

theorem Posts.trans {e e' e'' : Engine} (h : e.Posts e') (h' : e'.Posts e'') : e.Posts e'' := by
  obtain ⟨kinds, hkinds⟩ := h
  obtain ⟨kinds', hkinds'⟩ := h'
  exact ⟨kinds ++ kinds', by rw [StepQueue.pushAll_append, ← hkinds, hkinds']⟩

theorem posts_of_chain {e e' : Engine} (h : Relation.ReflTransGen Posts e e') : e.Posts e' :=
  Play.link_of_chain (fun _ => posts_of_queue rfl) .trans h

/-- Steps are queued, none of them an event that a card has entered or left play, and nothing else
is done to the queue. -/
def SilentOn (c : CardId) (e e' : Engine) : Prop :=
  ∃ kinds : List StepKind, (∀ kind ∈ kinds, kind.crossing c = none) ∧
    e'.queue = e.queue.pushAll kinds

theorem silent_of_queue {c : CardId} {e e' : Engine} (h : e'.queue = e.queue) : e.SilentOn c e' :=
  ⟨[], by simp, h⟩

theorem SilentOn.trans {c : CardId} {e e' e'' : Engine} (h : e.SilentOn c e')
    (h' : e'.SilentOn c e'') : e.SilentOn c e'' := by
  obtain ⟨kinds, hsilent, hkinds⟩ := h
  obtain ⟨kinds', hsilent', hkinds'⟩ := h'
  refine ⟨kinds ++ kinds', fun kind hkind => ?_, ?_⟩
  · exact (List.mem_append.mp hkind).elim (hsilent kind) (hsilent' kind)
  · rw [StepQueue.pushAll_append, ← hkinds, hkinds']

theorem silent_of_chain {c : CardId} {e e' : Engine}
    (h : Relation.ReflTransGen (SilentOn c) e e') : e.SilentOn c e' :=
  Play.link_of_chain (fun _ => silent_of_queue rfl) .trans h

/-! ## Plays that queue steps -/

/-- What queues no event about any card queues steps. -/
theorem posts_of_silent {α : Type} {p : Play Engine α} (h : ∀ c, p.Chains (SilentOn c)) :
    p.Chains Posts :=
  (h ⟨0⟩).mono fun _ _ ⟨kinds, _, hqueue⟩ => ⟨kinds, hqueue⟩

theorem posts_post (kind : StepKind) : (post kind).Chains Posts :=
  .bind (.view _) fun _ => .bind (.change fun _ => ⟨[kind], rfl⟩) fun _ => .answer _

theorem posts_onBoard {α : Type} (p : Play Board α) : (onBoard p).Chains Posts :=
  .within fun _ _ => posts_of_queue rfl

theorem posts_raise (data : EventData) (change : EventChange) : (raise data change).Chains Posts :=
  .bind (posts_onBoard _) fun _ => .discard (posts_post _)

section Silent

variable {c : CardId}

/-- A change elsewhere. -/
theorem silent_change {f : Engine → Engine} (h : ∀ e, (f e).queue = e.queue) :
    (change f : Play Engine Unit).Chains (SilentOn c) :=
  .change fun e => silent_of_queue (h e)

theorem silent_post {kind : StepKind} (h : kind.crossing c = none) :
    (post kind).Chains (SilentOn c) :=
  .bind (.view _) fun _ => .bind (.change fun _ => ⟨[kind], by simpa using h, rfl⟩) fun _ =>
    .answer _

theorem silent_onBoard {α : Type} (p : Play Board α) : (onBoard p).Chains (SilentOn c) :=
  .within fun _ _ => silent_of_queue rfl

theorem silent_raise {data : EventData} (h : data.crossing c = none) (change : EventChange) :
    (raise data change).Chains (SilentOn c) :=
  .bind (silent_onBoard _) fun _ => .discard (silent_post h)

theorem silent_modifyActivation (x : ActivationId) (f : Activation → Activation) :
    (modifyActivation x f).Chains (SilentOn c) := silent_change fun _ => rfl

theorem silent_dropActivation (x : ActivationId) : (dropActivation x).Chains (SilentOn c) :=
  silent_change fun _ => rfl

theorem silent_putActivation (x : ActivationId) (activation : Activation) :
    (putActivation x activation).Chains (SilentOn c) := silent_change fun _ => rfl

theorem silent_takeActivationId : takeActivationId.Chains (SilentOn c) :=
  .bind (.view _) fun _ => .bind (silent_change fun _ => rfl) fun _ => .answer _

theorem silent_message (template : String) (args : List MessageArg)
    (named : List (String × MessageArg)) : (message template args named).Chains (SilentOn c) :=
  .bind .look fun _ => .log _

end Silent

/-! ### Registration -/

/-- Nothing is done to the queue. -/
def Stays (e e' : Engine) : Prop := e'.queue = e.queue

theorem stays_of_chain {e e' : Engine} (h : Relation.ReflTransGen Stays e e') : e.Stays e' :=
  Play.link_of_chain (fun _ => rfl) (fun h h' => Eq.trans h' h) h

theorem silent_of_stays {α : Type} {p : Play Engine α} {c : CardId} (h : p.Chains Stays) :
    p.Chains (SilentOn c) :=
  h.mono fun _ _ hstays => silent_of_queue hstays

theorem stays_register (a : AbilityId) : (register a).Chains Stays :=
  .bind .look fun _ => .ite (.answer _) (.bind (chains_getAbility a) fun _ =>
    .bind (.change fun _ => rfl) fun _ => .trace _)

theorem stays_unregister (a : AbilityId) : (unregister a).Chains Stays :=
  .bind .look fun _ => .bind (.change fun _ => rfl) fun _ => .ite (.trace _) (.answer _)

theorem stays_refreshEach (location : Location) :
    ∀ l : List AbilityId, (refreshEach location l).Chains Stays
  | [] => .answer _
  | a :: rest => .bind (chains_getAbility a) fun _ =>
      .ite (.bind (stays_register a) fun _ => stays_refreshEach location rest)
        (.bind (stays_unregister a) fun _ => stays_refreshEach location rest)

theorem stays_refresh (c : CardId) : (refresh c).Chains Stays :=
  .bind (.within fun _ _ => rfl) fun card => .bind .look fun _ => stays_refreshEach card.location _

theorem stays_addAbility (c : CardId) (d : Design) : (addAbility c d).Chains Stays :=
  .bind (.within fun _ _ => rfl) fun _ => .bind (.ofExcept _) fun _ => .bind .look fun _ =>
    .bind (.trace _) fun _ => .bind (.change fun _ => rfl) fun _ =>
      .ite (.bind (stays_register _) fun _ => .answer _) (.answer _)

theorem stays_clearRetractable (t : AbilityId) : (clearRetractable t).Chains Stays :=
  .change fun _ => rfl

theorem stays_notify (s : Subscription) : (notify s).Chains Stays := by
  unfold notify
  cases s.listener with
  | resetUsage => exact .change fun _ => rfl
  | clearActivations => exact stays_clearRetractable s.ability
  | trigger => exact .answer _

theorem stays_notifyEach : ∀ l : List Subscription, (notifyEach l).Chains Stays
  | [] => .answer _
  | s :: rest => .bind (stays_notify s) fun _ => stays_notifyEach rest

/-! ### Events and moves -/

theorem posts_afterMove (c : CardId) (origin destination : Location) :
    (afterMove c origin destination).Chains Posts := by
  refine .bind (posts_of_silent fun _ => silent_of_stays (stays_refresh c)) fun _ => ?_
  cases moveEvent? c origin destination with
  | some data => exact .bind (posts_raise data _) fun _ => .answer _
  | none => exact .answer _

theorem posts_moveCard (c : CardId) (destination : Location) :
    (moveCard c destination).Chains Posts :=
  .bind (posts_onBoard _) fun origin => posts_afterMove c origin destination

theorem posts_afterMoves :
    ∀ l : List (CardId × Location × Location), (afterMoves l).Chains Posts
  | [] => .answer _
  | (c, origin, destination) :: rest =>
    .bind (.discard (posts_afterMove c origin destination)) fun _ => posts_afterMoves rest

theorem posts_discardPlayed (c : CardId) : (discardPlayed c).Chains Posts :=
  .bind .look fun _ => .ite (.discard (posts_moveCard c _)) (.pure _)

section Silent

variable {c : CardId}

theorem silent_beginRound : beginRound.Chains (SilentOn c) :=
  .bind (silent_change fun _ => rfl) fun _ => .bind .look fun _ => .bind (.log _) fun _ =>
    silent_raise rfl _

theorem silent_openWindow (event : GameEvent) : (openWindow event).Chains (SilentOn c) :=
  .bind .look fun _ => .bind (silent_of_stays (stays_notifyEach _)) fun _ => .bind .look fun _ =>
    .ite (.answer _) (.bind (.trace _) fun _ => .discard (silent_post rfl))

/-! ### Stages of activations -/

theorem silent_fillSlots (a : Ability) (x : ActivationId) (activation : Activation) :
    ∀ slots : List TargetSlot, (fillSlots a x activation slots).Chains (SilentOn c)
  | [] => .bind (silent_modifyActivation x _) fun _ => .discard (silent_post rfl)
  | slot :: rest => by
    unfold fillSlots
    refine .ite (silent_fillSlots a x activation rest) (.bind .look fun e => ?_)
    rcases slot.choices e.board activation with _ | ⟨target, _ | ⟨other, more⟩⟩
    · exact .bind (silent_message _ _ _) fun _ => silent_modifyActivation x _
    · exact .bind (silent_modifyActivation x _) fun _ => silent_fillSlots a x activation rest
    · exact .bind .look fun _ => .bind (silent_post rfl) fun _ => silent_modifyActivation x _

end Silent

theorem posts_payCosts (a : Ability) (x : ActivationId) (activation : Activation) :
    (payCosts a x activation).Chains Posts := by
  have hmodify : ∀ f, (modifyActivation x f).Chains Posts := fun f =>
    posts_of_silent fun _ => silent_modifyActivation x f
  refine .bind (.attempt (posts_onBoard _)) fun r => ?_
  rcases r with err | receipts
  · cases err with
    | paymentFailed => exact .bind (hmodify _) fun _ => .fail _
    | _ => exact .bind (.trace _) fun _ => hmodify _
  · exact .bind (hmodify _) fun _ => .bind (posts_afterMoves _) fun _ => .discard (posts_post _)

theorem posts_conclude (a : Ability) (x : ActivationId) (activation : Activation) :
    (conclude a x activation).Chains Posts :=
  .bind (posts_of_silent fun _ => silent_change fun _ => rfl) fun _ =>
    .bind (.bind .look fun _ => .ite (posts_onBoard _) (.pure _)) fun _ =>
    .bind (posts_of_silent fun _ => silent_modifyActivation x _) fun _ =>
    .bind (posts_discardPlayed _) fun _ =>
    .bind (posts_raise _ _) fun _ => .discard (posts_post _)

theorem posts_close : ∀ task : Task, task.close.Chains Posts
  | .plain => .answer _
  | .event event => posts_of_silent fun _ => silent_openWindow event
  | .effect a x activation => posts_conclude a x activation

/-! ### Windows and answers -/

section Silent

variable {c : CardId}

theorem silent_offer (event : GameEvent) (candidate : TriggerCandidate) :
    (offer event candidate).Chains (SilentOn c) := by
  refine .bind .look fun e => ?_
  cases e.ability? candidate.ability with
  | none => exact .answer _
  | some a =>
    refine .bind silent_takeActivationId fun x => .bind .look fun e' => ?_
    cases Legality.check e'.board e'.usage a
        (.new candidate.ability a.source candidate.player (some event)) with
    | error reason => exact .trace _
    | ok _ =>
      exact .ite (.bind (silent_putActivation x _) fun _ => .discard (silent_post rfl))
        (.bind .look fun _ => .bind (silent_putActivation x _) fun _ => .discard (silent_post rfl))

theorem silent_advance (w : TriggerWindow) : (advance w).Chains (SilentOn c) := by
  unfold advance
  cases w.pending with
  | nil => exact .trace _
  | cons candidate rest =>
    exact .bind (silent_offer w.event candidate) fun _ =>
      .ite (.trace _) (.discard (silent_post rfl))

theorem silent_accept (x : ActivationId) (choice : Option Nat) :
    (accept x choice).Chains (SilentOn c) := by
  refine .bind .look fun e => ?_
  cases e.activations.get? x with
  | none => exact .answer _
  | some activation =>
    exact .bind (chains_getAbility _) fun a => .ite
      (.bind (silent_modifyActivation x _) fun _ => .discard (silent_post rfl))
      (silent_dropActivation x)

theorem silent_chooseTarget (x : ActivationId) (slot : String) (choices : List ChosenTarget)
    (n : Nat) : (chooseTarget x slot choices n).Chains (SilentOn c) := by
  unfold chooseTarget
  cases choices[n]? with
  | none => exact .answer _
  | some target => exact .bind (silent_modifyActivation x _) fun _ => .discard (silent_post rfl)

/-- An answer that runs no script. -/
theorem silent_answerWith (n : Nat) {reply : Answer} (h : ∀ answers, reply ≠ .script answers) :
    (answerWith n reply).Chains (SilentOn c) := by
  cases reply with
  | script answers => exact absurd rfl (h answers)
  | target x slot choices => exact silent_chooseTarget x slot choices n
  | offer x alternatives => exact .ite (silent_dropActivation x) (silent_accept x _)

end Silent

/-- A step that runs no script. -/
theorem posts_runStep {e : Engine} (s : Step) (h : e.opening s.kind = none) :
    e.Posts ((runStep s).ends e).2 := by
  rw [runStep_kind]
  obtain ⟨i, kind⟩ := s
  cases kind with
  | task label body => simp [opening] at h
  | prompt p => exact posts_of_queue rfl
  | window w => exact posts_of_chain (posts_of_silent (fun _ => silent_advance w) e)
  | complete x => exact posts_of_queue rfl
  | event event change =>
    cases change with
    | script body => simp [opening] at h
    | emitted x =>
      exact posts_of_chain (posts_of_silent (fun _ => .bind (silent_modifyActivation x _)
        fun _ => silent_openWindow event) e)
  | resolve x stage =>
    show e.Posts ((resolve x stage).ends e).2
    unfold resolve
    rw [ends_bind_ok (ends_look _)]
    cases hget : e.activations.get? x with
    | none => exact posts_of_queue rfl
    | some activation =>
      dsimp only
      by_cases hlive : activation.isLive
      · simp only [hlive, Bool.not_true, Bool.false_eq_true, if_false]
        cases hability : e.ability? activation.ability with
        | none =>
          rw [ends_bind_error (getAbility_missing hability)]
          exact posts_of_queue rfl
        | some a =>
          rw [ends_bind_ok (getAbility_ends hability)]
          cases stage with
          | payCosts => exact posts_of_chain (posts_payCosts a x activation e)
          | chooseTargets =>
            have hfill := posts_of_silent fun _ => silent_fillSlots a x activation a.targets
            exact posts_of_chain (hfill e)
          | execute => simp [opening, hget, hability, hlive] at h
      · simp only [hlive, Bool.not_false, if_true]
        exact posts_of_queue rfl

/-! ### Orders -/

/-- All orders but those that start an activation, retract one or withdraw a step, and those that
move a card as in play. -/
theorem silent_order {c : CardId} (o : Order) (hactivate : ∀ a p, o ≠ .activate a p)
    (hretract : ∀ a p, o ≠ .retract a p) (hwithdraw : ∀ i, o ≠ .withdraw i)
    (hmove : ∀ c' l, o ≠ .move c' l) : o.carryOut.Chains (SilentOn c) := by
  cases o with
  | activate a p => exact absurd rfl (hactivate a p)
  | retract a p => exact absurd rfl (hretract a p)
  | withdraw i => exact absurd rfl (hwithdraw i)
  | shift c' l => exact .discard (silent_onBoard _)
  | move c' l => exact absurd rfl (hmove c' l)
  | message template args => exact silent_message template args []
  | note line => exact .log _
  | register a => exact silent_of_stays (stays_register a)
  | unregister a => exact silent_of_stays (stays_unregister a)
  | respond p n => exact .answer _
  | resume => exact chains_resume
  | beginRound => exact silent_beginRound
  | _ => exact silent_onBoard _

/-- All orders but those that start an activation, retract one or withdraw a step. -/
theorem posts_order (o : Order) (hactivate : ∀ a p, o ≠ .activate a p)
    (hretract : ∀ a p, o ≠ .retract a p) (hwithdraw : ∀ i, o ≠ .withdraw i) :
    o.carryOut.Chains Posts := by
  by_cases hmove : ∃ c l, o = .move c l
  · obtain ⟨c, l, rfl⟩ := hmove
    exact .discard (posts_moveCard c l)
  · exact posts_of_silent fun _ => silent_order o hactivate hretract hwithdraw
      fun c l ho => hmove ⟨c, l, ho⟩

/-- Who can start an action queues its payment in front of all, and who cannot queues nothing. -/
theorem activate_queue (e : Engine) (a : AbilityId) (p : PlayerId) :
    ((activate a p).ends e).2.queue =
      if e.canActivate a p then e.queue.pushNext (.resolve ⟨e.nextActivation⟩ .payCosts)
      else e.queue := by
  unfold activate canActivate
  cases hability : e.ability? a with
  | none =>
    rw [ends_bind_error (getAbility_missing hability)]
    rfl
  | some ability =>
    rw [ends_bind_ok (getAbility_ends hability), Option.any_some]
    by_cases haction : ability.isAction
    · -- A number is taken before the legality is checked, so it is gone either way.
      simp only [haction, Bool.not_true, Bool.false_eq_true, if_false, Bool.true_and]
      have htake : (takeActivationId).ends e =
          (.ok ⟨e.nextActivation⟩, { e with nextActivation := e.nextActivation + 1 }) := rfl
      rw [ends_bind_ok htake, ends_bind_ok (ends_look _)]
      dsimp only
      unfold Legality.isLegal
      cases Legality.check e.board e.usage ability (.new a ability.source p none) <;> rfl
    · simp only [haction, Bool.not_false, if_true, Bool.false_and]
      rfl

/-- Whether an order starts an action. -/
def enters (e : Engine) : Order → Bool
  | .activate a p => e.canActivate a p
  | _ => false

/-- The step that an order withdraws: the one that it names, or the prompt of the activation that it
retracts. -/
def withdrawn? (e : Engine) : Order → Option StepId
  | .withdraw i => if e.queue.contains i then some i else none
  | .retract a p =>
    match ((retract a p).ends e).1 with
    | .ok true =>
      ((e.latestRetractable? a).bind fun x => (e.activations.get? x).bind (·.prompt)).filter
        e.queue.contains
    | _ => none
  | _ => none

/-- What an order does to the queue. -/
inductive Obeys (e : Engine) (o : Order) (e' : Engine) : Prop where
  | posts (kinds : List StepKind) (hqueue : e'.queue = e.queue.pushAll kinds)
      (hwithdrawn : e.withdrawn? o = none) (henters : e.enters o = false)
  | enters (kind : StepKind) (hqueue : e'.queue = e.queue.pushNext kind)
      (hwithdrawn : e.withdrawn? o = none) (henters : e.enters o)
  | withdraws (i : StepId) (hqueue : e'.queue = e.queue.withdraw i)
      (hcontains : e.queue.contains i) (hwithdrawn : e.withdrawn? o = some i)

theorem obeys_withdraw (e : Engine) (i : StepId) :
    e.Obeys (.withdraw i) ((withdraw i).ends e).2 := by
  unfold withdraw
  rw [ends_bind_ok (ends_look _)]
  by_cases hcontains : e.queue.contains i
  · rw [if_pos hcontains]
    exact .withdraws i rfl hcontains (if_pos hcontains)
  · rw [if_neg hcontains]
    exact .posts [] rfl (if_neg hcontains) rfl

/-- Retracting withdraws the prompt of the activation, if it has one that waits. -/
theorem obeys_retract (e : Engine) (a : AbilityId) (p : PlayerId) :
    e.Obeys (.retract a p) ((retract a p).ends e).2 := by
  have hends := retract_ends e a p
  have hwithdrawn : e.withdrawn? (.retract a p) = match ((retract a p).ends e).1 with
      | .ok true =>
        ((e.latestRetractable? a).bind fun x => (e.activations.get? x).bind (·.prompt)).filter
          e.queue.contains
      | _ => none := rfl
  generalize (retract a p).ends e = ending at hends hwithdrawn
  cases hends with
  | refused => exact .posts [] rfl hwithdrawn rfl
  | failed => exact .posts [] rfl hwithdrawn rfl
  | @retracted x activation b hlatest hget _ _ =>
    simp only [hlatest, hget, Option.bind_some] at hwithdrawn
    have hqueue : (e.retracted a x activation b).queue =
        withdrawPrompt e.queue activation.prompt := rfl
    cases hprompt : activation.prompt with
    | none =>
      rw [hprompt] at hwithdrawn hqueue
      exact .posts [] hqueue hwithdrawn rfl
    | some i =>
      rw [hprompt] at hwithdrawn hqueue
      by_cases hcontains : e.queue.contains i
      · refine .withdraws i hqueue hcontains (hwithdrawn.trans ?_)
        simp [Option.filter, hcontains]
      · -- The prompt was answered before, and its number is only still noted.
        refine .posts [] ?_ (hwithdrawn.trans ?_) rfl
        · rw [hqueue]
          exact StepQueue.withdraw_of_not_contains (by simpa using hcontains)
        · simp [Option.filter, hcontains]

theorem obeys_order (e : Engine) (o : Order) : e.Obeys o (o.carryOut.ends e).2 := by
  -- Three orders do more than to queue steps at the end.
  by_cases hactivate : ∃ a p, o = .activate a p
  · obtain ⟨a, p, rfl⟩ := hactivate
    have hqueue := e.activate_queue a p
    cases hcan : e.canActivate a p with
    | true =>
      rw [hcan, if_pos rfl] at hqueue
      exact .enters _ hqueue rfl hcan
    | false =>
      rw [hcan, if_neg (by simp)] at hqueue
      exact .posts [] hqueue rfl hcan
  by_cases hretract : ∃ a p, o = .retract a p
  · obtain ⟨a, p, rfl⟩ := hretract
    exact e.obeys_retract a p
  by_cases hwithdraw : ∃ i, o = .withdraw i
  · obtain ⟨i, rfl⟩ := hwithdraw
    exact e.obeys_withdraw i
  · obtain ⟨kinds, hqueue⟩ := posts_of_chain (posts_order o (fun a p ho => hactivate ⟨a, p, ho⟩)
      (fun a p ho => hretract ⟨a, p, ho⟩) (fun i ho => hwithdraw ⟨i, ho⟩) e)
    refine .posts kinds hqueue ?_ ?_
    · cases o with
      | retract a p => exact absurd ⟨a, p, rfl⟩ hretract
      | withdraw i => exact absurd ⟨i, rfl⟩ hwithdraw
      | _ => rfl
    · cases o with
      | activate a p => exact absurd ⟨a, p, rfl⟩ hactivate
      | _ => rfl

end Engine

/-! ## Deeds -/

namespace Moment

/-- The step that a deed withdraws. -/
def withdrawn? (m : Moment) (d : Deed) : Option StepId :=
  match m.running, d with
  | none, .call (.order o) => m.engine.withdrawn? o
  | some ⟨_, .order o _⟩, .go => m.engine.withdrawn? o
  | _, _ => none

/-- Whether a deed starts an action while no script runs. -/
def activates (m : Moment) (d : Deed) : Bool :=
  match m.running, d with
  | none, .call (.order o) => m.engine.enters o
  | _, _ => false

/-- What a deed does to the queue, and whether a script runs after it. -/
inductive Serves (m : Moment) (d : Deed) (m' : Moment) : Prop where
  /-- Steps are queued, or nothing happens. -/
  | posts (kinds : List StepKind) (hqueue : m'.engine.queue = m.engine.queue.pushAll kinds)
      (hrunning : m'.running.isSome = m.running.isSome) (hstarts : m.starts? d = none)
      (hwithdrawn : m.withdrawn? d = none) (hactivates : m.activates d = false)
  /-- The payment of an action is queued in front. -/
  | enters (kind : StepKind) (hqueue : m'.engine.queue = m.engine.queue.pushNext kind)
      (hrunning : m'.running.isSome = m.running.isSome) (hstarts : m.starts? d = none)
      (hwithdrawn : m.withdrawn? d = none) (hactivates : m.running.isSome ∨ m.activates d)
  | withdraws (i : StepId) (hqueue : m'.engine.queue = m.engine.queue.withdraw i)
      (hcontains : m.engine.queue.contains i) (hrunning : m'.running.isSome = m.running.isSome)
      (hstarts : m.starts? d = none) (hwithdrawn : m.withdrawn? d = some i)
  /-- The step at the front is done as a whole. -/
  | whole (s : Step) (rest : List Step) (kinds : List StepKind) (hidle : m.running = none)
      (hfront : m.engine.queue.steps = s :: rest)
      (hqueue : m'.engine.queue = ((m.engine.queue.started rest).pushAll kinds).finish)
      (hrunning : m'.running = none) (hstarts : m.starts? d = some s)
      (hwithdrawn : m.withdrawn? d = none)
  /-- The step at the front starts to run a script. -/
  | opens (s : Step) (rest : List Step) (hidle : m.running = none)
      (hfront : m.engine.queue.steps = s :: rest)
      (hqueue : m'.engine.queue = m.engine.queue.started rest)
      (hrunning : m'.running.isSome) (hstarts : m.starts? d = some s)
      (hwithdrawn : m.withdrawn? d = none)
  /-- The script that runs ends, and with it its step. -/
  | closes (kinds : List StepKind) (hbusy : m.running.isSome)
      (hqueue : m'.engine.queue = (m.engine.queue.pushAll kinds).finish)
      (hrunning : m'.running = none) (hstarts : m.starts? d = none)
      (hwithdrawn : m.withdrawn? d = none)

variable {m : Moment} {d : Deed}

/-- What an order does, a deed does that gives it. -/
theorem serves_of_obeys {o : Order} {e' : Engine} {running : Option Running}
    (h : m.engine.Obeys o e') (hrunning : running.isSome = m.running.isSome)
    (hstarts : m.starts? d = none) (hwithdrawn : m.withdrawn? d = m.engine.withdrawn? o)
    (hactivates : m.activates d = (m.running.isNone && m.engine.enters o)) :
    m.Serves d ⟨e', running⟩ := by
  cases h with
  | posts kinds hqueue hnone henters =>
    exact .posts kinds hqueue hrunning hstarts (hwithdrawn.trans hnone)
      (by simp [hactivates, henters])
  | enters kind hqueue hnone henters =>
    refine .enters kind hqueue hrunning hstarts (hwithdrawn.trans hnone) ?_
    cases hrunning : m.running with
    | none => exact .inr (by simp [hactivates, henters, hrunning])
    | some r => exact .inl rfl
  | withdraws i hqueue hcontains hsome =>
    exact .withdraws i hqueue hcontains hrunning hstarts (hwithdrawn.trans hsome)

theorem serves_call (hidle : m.running = none) (c : Call) :
    m.Serves (.call c) (m.after (.call c)) := by
  obtain ⟨e, running⟩ := m
  subst hidle
  have hposts : ∀ e', e.Posts e' → (∀ o, c ≠ .order o) →
      Serves ⟨e, none⟩ (.call c) ⟨e', none⟩ := by
    rintro e' ⟨kinds, hqueue⟩ hother
    refine .posts kinds hqueue rfl rfl ?_ ?_
    · cases c with
      | order o => exact absurd rfl (hother o)
      | _ => rfl
    · cases c with
      | order o => exact absurd rfl (hother o)
      | _ => rfl
  have hchain : ∀ {p : Play Engine Unit}, p.Chains Engine.Posts → e.Posts (p.ends e).2 := fun hp =>
    Engine.posts_of_chain (hp e)
  show Serves _ _ ⟨(c.play.ends e).2, none⟩
  cases c with
  | order o =>
    rw [Call.play, ends_discard]
    exact serves_of_obeys (e.obeys_order o) rfl rfl rfl rfl
  | board f => exact hposts _ (Engine.posts_of_queue rfl) (by simp)
  | attach card design =>
    have hstays := Play.Chains.discard (Engine.stays_addAbility card design) e
    exact hposts _ (Engine.posts_of_queue (Engine.stays_of_chain hstays)) (by simp)
  | refresh card =>
    have hstays := Engine.stays_of_chain (Engine.stays_refresh card e)
    exact hposts _ (Engine.posts_of_queue hstays) (by simp)
  | clear ability => exact hposts _ (Engine.posts_of_queue rfl) (by simp)
  | raise event change => exact hposts _ (hchain (Engine.posts_raise event _)) (by simp)
  | queue label body => exact hposts _ (hchain (.discard (Engine.posts_post _))) (by simp)
  | ask player title buttons source answers =>
    exact hposts _ (hchain (.discard (Engine.posts_post _))) (by simp)

theorem serves_turn (hidle : m.running = none) : m.Serves .turn (m.after .turn) := by
  obtain ⟨e, running⟩ := m
  subst hidle
  show Serves _ _ (turn e)
  unfold turn
  cases hbegin : e.queue.begin? with
  | none => exact .posts [] rfl rfl (by simp [starts?, hbegin]) rfl rfl
  | some sq =>
    obtain ⟨s, q⟩ := sq
    obtain ⟨rest, -, hfront, rfl⟩ := StepQueue.begin?_eq_some hbegin
    have hstarts : starts? ⟨e, none⟩ .turn = some s := by simp [starts?, hbegin]
    dsimp only
    cases hopening : e.opening s.kind with
    | some r => exact .opens s rest rfl hfront rfl rfl hstarts rfl
    | none =>
      dsimp only
      rw [Engine.asStep_ends]
      -- Whether the step opens a script does not depend on the queue.
      have hopening' : ({ e with queue := e.queue.started rest } : Engine).opening s.kind = none :=
        hopening
      obtain ⟨kinds, hkinds⟩ := Engine.posts_runStep s hopening'
      exact .whole s rest kinds rfl hfront (congrArg StepQueue.finish hkinds) rfl hstarts rfl

theorem serves_answer (hidle : m.running = none) (p : PlayerId) (n : Nat) :
    m.Serves (.answer p n) (m.after (.answer p n)) := by
  obtain ⟨e, running⟩ := m
  subst hidle
  show Serves _ _ (respond e p n)
  unfold respond
  cases hbegin : e.queue.beginAnswer? with
  | none => exact .posts [] rfl rfl (by simp [starts?, hbegin]) rfl rfl
  | some ipq =>
    obtain ⟨i, prompt, q⟩ := ipq
    obtain ⟨rest, -, hfront, rfl⟩ := StepQueue.beginAnswer?_eq_some hbegin
    dsimp only
    by_cases hvalid : n < prompt.buttons.length ∧ prompt.player = p
    · have hstarts : starts? ⟨e, none⟩ (.answer p n) = some ⟨i, .prompt prompt⟩ := by
        simp [starts?, hbegin, hvalid]
      -- Only the answer to a prompt of a script goes on deed by deed.
      have hwhole : ∀ reply, (∀ answers, reply ≠ .script answers) →
          Serves ⟨e, none⟩ (.answer p n)
            ⟨((Engine.asStep (e.queue.started rest) (Engine.answerWith n reply)).ends e).2,
              none⟩ := by
        intro reply hreply
        rw [Engine.asStep_ends]
        have hanswer := Engine.posts_of_silent fun _ => Engine.silent_answerWith n hreply
        obtain ⟨kinds, hkinds⟩ := Engine.posts_of_chain (hanswer
          { e with queue := e.queue.started rest })
        exact .whole _ rest kinds rfl hfront (congrArg StepQueue.finish hkinds) rfl hstarts rfl
      rw [if_pos hvalid]
      cases prompt.answer with
      | script answers => exact .opens _ rest rfl hfront rfl rfl hstarts rfl
      | target x slot choices => exact hwhole _ (by simp)
      | offer x alternatives => exact hwhole _ (by simp)
    · rw [if_neg hvalid]
      exact .posts [] rfl rfl (by simp [starts?, hbegin, hvalid]) rfl rfl

theorem serves_go {e : Engine} {task : Task} {script : Script} :
    Serves ⟨e, some ⟨task, script⟩⟩ .go (go e task script) := by
  have hposts : ∀ {e' : Engine} {script' : Script}, e.Posts e' →
      withdrawn? ⟨e, some ⟨task, script⟩⟩ .go = none →
      Serves ⟨e, some ⟨task, script⟩⟩ .go ⟨e', some ⟨task, script'⟩⟩ := by
    rintro e' script' ⟨kinds, hqueue⟩ hnone
    exact .posts kinds hqueue rfl rfl hnone rfl
  cases script with
  | done =>
    obtain ⟨kinds, hkinds⟩ := Engine.posts_of_chain (Engine.posts_close task e)
    exact .closes kinds rfl (congrArg StepQueue.finish hkinds) rfl rfl rfl
  | fail err => exact .closes [] rfl rfl rfl rfl rfl
  | look next => exact hposts (Engine.posts_of_queue rfl) rfl
  | order o next =>
    have hobeys : Engine.Obeys (Moment.mk e (some ⟨task, .order o next⟩)).engine o _ :=
      e.obeys_order o
    exact serves_of_obeys hobeys rfl rfl rfl rfl
  | raise event change next =>
    exact hposts (Engine.posts_of_chain (Engine.posts_raise event _ e)) rfl
  | queue label body next => exact hposts (Engine.posts_of_chain (Engine.posts_post _ e)) rfl
  | prompt player title buttons source answers next =>
    exact hposts (Engine.posts_of_chain (Engine.posts_post _ e)) rfl

/-- Whatever a deed does, it does one of these things to the queue. -/
theorem serves (m : Moment) (d : Deed) : m.Serves d (m.after d) := by
  have hstays : m.after d = m → m.starts? d = none → m.withdrawn? d = none →
      m.activates d = false → m.Serves d (m.after d) := fun hafter hstarts hwithdrawn hnot => by
    rw [hafter]
    exact .posts [] rfl rfl hstarts hwithdrawn hnot
  cases hrunning : m.running with
  | none =>
    cases d with
    | call c => exact serves_call hrunning c
    | turn => exact serves_turn hrunning
    | answer p n => exact serves_answer hrunning p n
    | go =>
      refine hstays ?_ ?_ ?_ ?_
      all_goals simp [after, starts?, withdrawn?, activates, hrunning]
  | some r =>
    obtain ⟨e, running⟩ := m
    subst hrunning
    cases d with
    | go => exact serves_go
    | _ => exact hstays rfl rfl (by simp [withdrawn?]) rfl

end Moment

end Doomtown
