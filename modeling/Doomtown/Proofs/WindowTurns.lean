import Doomtown.Proofs.Descent

/-!
# Windows are resolved candidate by candidate

The window of an event waits in one step after another: the step that offers an ability queues the
rest of the window anew. Following these steps through a steady run, each candidate is considered
once and in the order of the window; and before the next one is considered, the activation of the
one before is done with, and so is all that descends from it (`Moment.window_takes_turns`). What is
not legal or is declined leaves nothing behind.
-/

namespace Doomtown

open Play

namespace Moment

/-! ## Following a window -/

/-- The event that fires by a deed. -/
def fires? (m : Moment) (d : Deed) : Option GameEvent :=
  match m.running, d with
  | none, .turn =>
    match m.engine.queue.begin? with
    | some (⟨_, .event event (.emitted _)⟩, _) => some event
    | _ => none
  | some ⟨.event event, .done⟩, .go => some event
  | _, _ => none

/-- The candidate that a deed considers if the window waits in a given step: the check whether it is
legal, and the offer if it is. -/
def considers (m : Moment) (i : StepId) (d : Deed) : Option TriggerCandidate :=
  match m.starts? d with
  | some ⟨j, .window ⟨_, c :: _⟩⟩ => if j = i then some c else none
  | _ => none

/-- The step in which a window waits after a deed if it waited in a given one: the step that was
queued last, if the deed considers a candidate that others follow. -/
def follows (m : Moment) (i : StepId) (d : Deed) : StepId :=
  match m.starts? d with
  | some ⟨j, .window ⟨_, _ :: _ :: _⟩⟩ => if j = i then ⟨(m.after d).engine.queue.nextId - 1⟩ else i
  | _ => i

/-- The step in which a window waits after some deeds. -/
def holder (i : StepId) : Moment → List Deed → StepId
  | _, [] => i
  | m, d :: ds => holder (m.follows i d) (m.after d) ds

/-- The candidates that are considered by some deeds. -/
def considered (i : StepId) : Moment → List Deed → List TriggerCandidate
  | _, [] => []
  | m, d :: ds => (m.considers i d).toList ++ considered (m.follows i d) (m.after d) ds

/-- The candidates that are still to be considered of the window that waits in a step. -/
def left (m : Moment) (i : StepId) : List TriggerCandidate :=
  match m.engine.queue.steps.find? (·.id = i) with
  | some ⟨_, .window w⟩ => w.pending
  | _ => []

end Moment

namespace Engine

/-- Nothing has changed on the board, in the counts of uses and in the subscriptions. -/
structure Untouched (e e' : Engine) : Prop where
  board : e'.board = e.board
  usage : e'.usage = e.usage
  registrar : e'.registrar = e.registrar

/-- An activation is filed of an ability that exists and is legal for it now. -/
def CanAccept (e : Engine) (x : ActivationId) : Prop :=
  ∃ activation a, e.activations.get? x = some activation ∧
    e.ability? activation.ability = some a ∧ Legality.isLegal e.board e.usage a activation

/-- What is accepted but not legal any more is forgotten, unless the step fails. -/
theorem accept_illegal {e e' : Engine} {x : ActivationId} {activation : Activation}
    {choice : Option Nat} (hillegal : ¬e.CanAccept x)
    (hget : e.activations.get? x = some activation)
    (hend : (accept x choice).ends e = (.ok (), e')) : ((dropActivation x).ends e).2 = e' := by
  unfold accept at hend
  rw [ends_bind_ok (ends_look e)] at hend
  simp only [hget] at hend
  cases hability : e.ability? activation.ability with
  | none =>
    rw [ends_bind_error (getAbility_missing hability)] at hend
    simp at hend
  | some a =>
    have hnot : ¬Legality.isLegal e.board e.usage a activation := fun hlegal =>
      hillegal ⟨activation, a, hget, hability, hlegal⟩
    rw [ends_bind_ok (getAbility_ends hability), if_neg hnot] at hend
    exact congrArg Prod.snd hend

/-- The rest of a window is queued, if there is one. -/
def requeued (e : Engine) (event : GameEvent) : List TriggerCandidate → Engine
  | [] => e
  | c :: rest => { e with queue := e.queue.push (.window ⟨event, c :: rest⟩) }

/-- A window that goes on offers its next ability and queues the rest. -/
theorem advance_ends (e : Engine) (event : GameEvent) (c : TriggerCandidate)
    (rest : List TriggerCandidate) :
    ∃ e₁, e.Offers event c e₁ ∧
      (advance ⟨event, c :: rest⟩).ends e = (.ok (), e₁.requeued event rest) := by
  obtain ⟨e₁, hoffer, hoffers⟩ := offer_ends e event c
  refine ⟨e₁, hoffers, ?_⟩
  unfold advance
  dsimp only
  rw [ends_bind_ok hoffer]
  cases rest <;> rfl

/-- Listeners are told without fail. -/
theorem notifyEach_ends (l : List Subscription) (e : Engine) :
    ∃ e', (notifyEach l).ends e = (.ok (), e') := by
  induction l generalizing e with
  | nil => exact ⟨e, rfl⟩
  | cons s rest ih =>
    have hnotify : ∃ e₁, (notify s).ends e = (.ok (), e₁) := by
      unfold notify
      cases s.listener <;> exact ⟨_, rfl⟩
    obtain ⟨e₁, he₁⟩ := hnotify
    obtain ⟨e', he'⟩ := ih e₁
    exact ⟨e', (ends_bind_ok he₁ _).trans he'⟩

/-- Once all that listen to an event have been notified, its window is queued if it has a
candidate. -/
theorem openWindow_ends (event : GameEvent) (e : Engine) :
    ∃ e₁ : Engine, (notifyEach (e.registrar.listenersFor event.name)).ends e = (.ok (), e₁) ∧
      (openWindow event).ends e = (.ok (), e₁.requeued event (e₁.collect event).pending) := by
  obtain ⟨e₁, hnotify⟩ := notifyEach_ends (e.registrar.listenersFor event.name) e
  refine ⟨e₁, hnotify, ?_⟩
  unfold openWindow
  rw [ends_bind_ok (ends_look e), ends_bind_ok hnotify, ends_bind_ok (ends_look e₁)]
  dsimp only
  cases hpending : (e₁.collect event).pending with
  | nil => rfl
  | cons c rest =>
    have hwindow : e₁.collect event = ⟨event, c :: rest⟩ := by
      rw [← hpending]
      rfl
    rw [hwindow]
    rfl

/-- While a step runs, an offer queues one step at most. -/
theorem Offers.queue {e e₁ : Engine} {back : List Step} {event : GameEvent} {c : TriggerCandidate}
    (h : ({ e with queue := e.queue.started back } : Engine).Offers event c e₁) :
    ∃ own, e₁.queue.running = some own ∧ e₁.queue.steps = back ∧
      e.queue.nextId ≤ e₁.queue.nextId ∧ ∀ t ∈ own, t.id = e.queue.nextStep := by
  cases h with
  | unknown => exact ⟨[], rfl, rfl, Nat.le_refl _, by simp⟩
  | skipped => exact ⟨[], rfl, rfl, Nat.le_refl _, by simp⟩
  | @entered _ kind =>
    refine ⟨[⟨e.queue.nextStep, kind⟩], rfl, rfl, Nat.le_succ _, fun t ht => ?_⟩
    rw [List.mem_singleton.mp ht]

/-- The rest of a window that is queued while a step runs waits in front of what waited before. -/
theorem steps_requeued {e : Engine} {own : List Step} (hrunning : e.queue.running = some own)
    (event : GameEvent) (c : TriggerCandidate) (rest : List TriggerCandidate) :
    (e.requeued event (c :: rest)).finished.queue.steps =
      own ++ ⟨e.queue.nextStep, .window ⟨event, c :: rest⟩⟩ :: e.queue.steps := by
  show (e.queue.push _).finish.steps = _
  simp [StepQueue.push, StepQueue.finish, StepQueue.children, hrunning]

theorem onTrack_requeued {e : Engine} {x : ActivationId} (h : e.OnTrack x) (event : GameEvent)
    (rest : List TriggerCandidate) : (e.requeued event rest).OnTrack x := by
  cases rest with
  | nil => exact h
  | cons c rest =>
    show Doomtown.OnTrack (e.activations.get? x) ((e.queue.push _).partsOf x)
    rw [StepQueue.partsOf_push_other (by simp [StepKind.part?])]
    exact h

/-- An ability that is legal when it is offered has an activation entered, with one part ahead. -/
theorem Offers.enters {e e₁ : Engine} {event : GameEvent} {c : TriggerCandidate}
    (h : e.Offers event c e₁) (hlegal : e.CanOffer event c)
    (hnone : e.queue.partsOf ⟨e.nextActivation⟩ = []) :
    e₁.nextActivation = e.nextActivation + 1 ∧ e₁.retractable = e.retractable ∧
      e₁.OnTrack ⟨e.nextActivation⟩ ∧
      ∃ activation, e₁.activations.get? ⟨e.nextActivation⟩ = some activation ∧
        activation.ability = c.ability ∧ activation.player = c.player := by
  cases h with
  | unknown hability =>
    obtain ⟨a, hability', -⟩ := hlegal
    simp [hability] at hability'
  | skipped _ hillegal => exact absurd hlegal hillegal
  | @entered activation kind _ hof hby hlive _ hkind =>
    have hfiled : (e.activations.insert ⟨e.nextActivation⟩ activation).get? ⟨e.nextActivation⟩ =
        some activation := by rw [IdMap.get?_insert, if_pos rfl]
    obtain ⟨-, hkept, -⟩ := Activation.isLive_iff.mp hlive
    refine ⟨rfl, rfl, ?_, activation, hfiled, hof, hby⟩
    cases hkind with
    | forced hstage =>
      refine onTrack_of_filed hfiled (StepQueue.partsOf_push rfl hnone) ⟨hkept, .inr (.inl ?_)⟩
      rw [hstage, ActivationStage.ahead]
    | prompted hstage view p alternatives =>
      refine onTrack_of_filed hfiled (StepQueue.partsOf_push rfl hnone) ⟨hkept, .inr (.inl ?_)⟩
      rw [hstage, ActivationStage.ahead]

/-- Whatever comes of an offer, nothing changes on the board, in the counts of uses and in the
subscriptions; and if the ability is not legal, no activation is entered. -/
theorem Offers.untouched {e e₁ : Engine} {event : GameEvent} {c : TriggerCandidate}
    (h : e.Offers event c e₁) : e.Untouched e₁ ∧
      (¬e.CanOffer event c → e₁.activations = e.activations) := by
  cases h with
  | unknown => exact ⟨⟨rfl, rfl, rfl⟩, fun _ => rfl⟩
  | skipped => exact ⟨⟨rfl, rfl, rfl⟩, fun _ => rfl⟩
  | entered hlegal => exact ⟨⟨rfl, rfl, rfl⟩, fun hillegal => absurd hlegal hillegal⟩

theorem requeued_eq (e : Engine) (event : GameEvent) (rest : List TriggerCandidate) :
    ∃ q, e.requeued event rest = { e with queue := q } := by
  cases rest with
  | nil => exact ⟨e.queue, rfl⟩
  | cons => exact ⟨_, rfl⟩

end Engine

namespace Moment

variable {m : Moment} {d : Deed} {i : StepId} {event : GameEvent} {c : TriggerCandidate}
  {rest : List TriggerCandidate}

/-- A window considers its next candidate. -/
theorem after_window (hstarts : m.starts? d = some ⟨i, .window ⟨event, c :: rest⟩⟩) :
    ∃ (back : List Step) (e₁ : Engine), m.engine.queue.running = none ∧
      m.engine.queue.steps = ⟨i, .window ⟨event, c :: rest⟩⟩ :: back ∧
      ({ m.engine with queue := m.engine.queue.started back } : Engine).Offers event c e₁ ∧
      m.after d = ⟨(e₁.requeued event rest).finished, none⟩ := by
  cases d with
  | turn =>
    obtain ⟨q, -, hbegin, hafter⟩ := begin?_of_starts hstarts
    obtain ⟨back, hidle, hfront, rfl⟩ := StepQueue.begin?_eq_some hbegin
    obtain ⟨e₁, hoffers, hend⟩ := Engine.advance_ends
      { m.engine with queue := m.engine.queue.started back } event c rest
    refine ⟨back, e₁, hidle, hfront, hoffers, ?_⟩
    unfold turn at hafter
    simp only [hbegin, Engine.opening, Engine.asStep_ends, Engine.runStep_kind] at hafter
    rw [hafter]
    exact congrArg (fun o => (⟨o.2.finished, none⟩ : Moment)) hend
  | answer =>
    obtain ⟨_, _, _, -, -, hstep, -⟩ := beginAnswer?_of_starts hstarts
    simp at hstep
  | _ => cases hr : m.running <;> simp [starts?, hr] at hstarts

/-- Where an event fires, its window is opened. -/
theorem after_fires (hfires : m.fires? d = some event) :
    ∃ e₀, m.after d = ⟨((Engine.openWindow event).ends e₀).2.finished, none⟩ := by
  obtain ⟨e, running⟩ := m
  unfold fires? at hfires
  split at hfires
  · rename_i hrunning
    obtain rfl : running = none := hrunning
    split at hfires
    · rename_i i _ x q hbegin
      obtain rfl := Option.some.inj hfires
      refine ⟨((Engine.markEmitted x).ends { e with queue := q }).2, ?_⟩
      show turn e = _
      unfold turn
      simp only [hbegin, Engine.opening, Engine.asStep_ends, Engine.runStep_kind]
      rfl
    · simp at hfires
  · rename_i hrunning
    obtain rfl := Option.some.inj hfires
    obtain rfl := hrunning
    exact ⟨e, rfl⟩
  · simp at hfires

/-- A window that considers a candidate waits with the others in a new step, in front of what waited
before. -/
theorem waits_after_window {c' : TriggerCandidate}
    (hstarts : m.starts? d = some ⟨i, .window ⟨event, c :: c' :: rest⟩⟩) :
    ∃ own back, m.engine.queue.steps = ⟨i, .window ⟨event, c :: c' :: rest⟩⟩ :: back ∧
      (m.after d).engine.queue.steps =
        own ++ ⟨m.follows i d, .window ⟨event, c' :: rest⟩⟩ :: back ∧
      (m.follows i d).number < (m.after d).engine.queue.nextId := by
  obtain ⟨back, e₁, -, hfront, hoffers, hafter⟩ := after_window hstarts
  obtain ⟨own, hrunning, hsteps, -, -⟩ := hoffers.queue
  have hnext : (m.after d).engine.queue.nextId = e₁.queue.nextId + 1 := by
    rw [hafter]
    exact StepQueue.nextId_push _ _
  have hfollows : m.follows i d = e₁.queue.nextStep := by
    simp [follows, hstarts, hnext, StepQueue.nextStep]
  refine ⟨own, back, hfront, ?_, ?_⟩
  · rw [hfollows, hafter, ← hsteps]
    exact Engine.steps_requeued hrunning event c' rest
  · rw [hfollows, hnext]
    exact Nat.lt_succ_self _

/-- A window waits in a step with some candidates left, or it is closed. -/
structure Holds (m : Moment) (i : StepId) (event : GameEvent)
    (pending : List TriggerCandidate) : Prop where
  given : i.number < m.engine.queue.nextId
  waits : pending ≠ [] → ⟨i, .window ⟨event, pending⟩⟩ ∈ m.engine.queue.steps
  closed : pending = [] → ∀ s ∈ m.engine.queue.order, s.id ≠ i

variable {pending : List TriggerCandidate}

theorem Holds.mem_order (h : m.Holds i event (c :: rest)) :
    ⟨i, .window ⟨event, c :: rest⟩⟩ ∈ m.engine.queue.order :=
  StepQueue.mem_order_of_mem_steps (h.waits (by simp))

/-- A deed that starts another step considers no candidate of a window. -/
theorem considers_of_other (h : ∀ kind, m.starts? d ≠ some ⟨i, kind⟩) :
    m.considers i d = none ∧ m.follows i d = i := by
  unfold considers follows
  constructor
  · split
    · rename_i j w c rest hstarts
      rw [if_neg fun hj => h _ (hj ▸ hstarts)]
    · rfl
  · split
    · rename_i j w c c' rest hstarts
      rw [if_neg fun hj => h _ (hj ▸ hstarts)]
    · rfl

/-- If the step starts in which a window waits, the next candidate is considered. -/
theorem Holds.starts_or_other (h : m.Holds i event pending) (hreached : m.Reached) (d : Deed) :
    (∃ c rest, pending = c :: rest ∧ m.starts? d = some ⟨i, .window ⟨event, c :: rest⟩⟩) ∨
      ∀ kind, m.starts? d ≠ some ⟨i, kind⟩ := by
  by_cases hstarts : ∃ kind, m.starts? d = some ⟨i, kind⟩
  · obtain ⟨kind, hstarts⟩ := hstarts
    have hfront := mem_order_of_starts hstarts
    cases pending with
    | nil => exact absurd rfl (h.closed rfl _ hfront)
    | cons c rest =>
      rw [hreached.eq_of_id hfront h.mem_order rfl] at hstarts
      exact .inl ⟨c, rest, rfl, hstarts⟩
  · exact .inr fun kind hkind => hstarts ⟨kind, hkind⟩

/-- A window that considers a candidate waits in a new step with the others, or is closed. -/
theorem holds_after_window (hreached : m.Reached) (hgiven : i.number < m.engine.queue.nextId)
    (hstarts : m.starts? d = some ⟨i, .window ⟨event, c :: rest⟩⟩) :
    (m.after d).Holds (m.follows i d) event rest := by
  cases rest with
  | nil =>
    obtain ⟨back, e₁, -, hfront, hoffers, hafter⟩ := after_window hstarts
    obtain ⟨own, hrunning, hsteps, hids, hown⟩ := hoffers.queue
    have hfollows : m.follows i d = i := by simp [follows, hstarts]
    rw [hfollows, hafter]
    refine ⟨Nat.lt_of_lt_of_le hgiven hids, by simp, fun _ s hs hsi => ?_⟩
    have horder : s ∈ own ++ back := by
      change s ∈ e₁.queue.order at hs
      simpa [StepQueue.order, StepQueue.children, hrunning, hsteps] using hs
    rcases List.mem_append.mp horder with hs | hs
    · rw [← hsi, hown s hs] at hgiven
      exact absurd hgiven (Nat.lt_irrefl _)
    · have hdistinct := hreached.distinct
      unfold StepQueue.order at hdistinct
      rw [hfront] at hdistinct
      have hbehind := (List.pairwise_cons.mp (List.pairwise_append.mp hdistinct).2.1).1 s hs
      exact hbehind hsi.symm
  | cons c' rest =>
    obtain ⟨own, back, -, hwaits, hgiven'⟩ := waits_after_window hstarts
    exact ⟨hgiven', fun _ => by simp [hwaits], by simp⟩

/-- From one moment to the next a window considers the first candidate of those left, or none. -/
theorem Holds.after (h : m.Holds i event pending) (hreached : m.Reached) (hsteady : m.Steady d) :
    ∃ pending', (m.after d).Holds (m.follows i d) event pending' ∧
      pending = (m.considers i d).toList ++ pending' := by
  rcases h.starts_or_other hreached d with ⟨c, rest, rfl, hstarts⟩ | hother
  · refine ⟨rest, holds_after_window hreached h.given hstarts, ?_⟩
    simp [considers, hstarts]
  · obtain ⟨hconsiders, hfollows⟩ := considers_of_other hother
    rw [hconsiders, hfollows]
    refine ⟨pending, ?_, rfl⟩
    have hcourse := hreached.sound.course d hsteady.2
    obtain ⟨hids, hsteps⟩ := hcourse.steps
    refine ⟨Nat.lt_of_lt_of_le h.given hids, fun hpending => ?_, fun hpending s hs hsi => ?_⟩
    · obtain ⟨front, back, hsplit⟩ := List.append_of_mem (h.waits hpending)
      obtain ⟨front', back', hsplit', -⟩ :=
        hcourse.behind hreached.ready.running rfl (hother _) hsplit
      rw [hsplit']
      simp
    · rcases hsteps s hs with hold | ⟨hnew, -⟩
      · exact h.closed hpending s hold hsi
      · rw [hsi] at hnew
        exact absurd h.given (Nat.not_lt.mpr hnew)

/-- In a steady run the candidates of a window are considered in their order. -/
theorem Holds.run (hreached : m.Reached) :
    ∀ {i : StepId} {pending : List TriggerCandidate} {ds : List Deed},
      m.Holds i event pending → Along Steady m ds →
      ∃ pending', (m.run ds).Holds (holder i m ds) event pending' ∧
        pending = considered i m ds ++ pending' := by
  intro i pending ds
  induction ds generalizing m i pending with
  | nil => exact fun h _ => ⟨pending, h, rfl⟩
  | cons d ds ih =>
    rintro h ⟨hsteady, halong⟩
    obtain ⟨pending₁, h₁, rfl⟩ := h.after hreached hsteady
    obtain ⟨pending', h', rfl⟩ := ih (hreached.after d) h₁ halong
    exact ⟨pending', h', (List.append_assoc ..).symm⟩

/-- What is left of a window is what it holds. -/
theorem Holds.left_eq (h : m.Holds i event pending) (hreached : m.Reached) :
    m.left i = pending := by
  unfold left
  cases hfind : m.engine.queue.steps.find? (·.id = i) with
  | none =>
    cases pending with
    | nil => rfl
    | cons c rest =>
      have hnone := List.find?_eq_none.mp hfind _ (h.waits (by simp))
      simp at hnone
  | some s =>
    have hs := StepQueue.mem_order_of_mem_steps (List.mem_of_find?_eq_some hfind)
    have hsi : s.id = i := by simpa using List.find?_some hfind
    cases pending with
    | nil => exact absurd hsi (h.closed rfl s hs)
    | cons c rest => rw [hreached.eq_of_id hs h.mem_order hsi]

/-! ## The activation of a candidate -/

/-- Before it is entered, an activation has no family. -/
theorem Sound.kin_new (h : m.Sound) : m.Kin ⟨m.engine.nextActivation⟩ .none := by
  obtain ⟨-, hnone⟩ := h.fresh_queue ⟨m.engine.nextActivation⟩ (Nat.le_refl _)
  refine ⟨by simp [Family.none], fun _ => rfl, fun s hs p hp => ?_⟩
  have hmem := StepQueue.mem_partsOf_iff.mpr ⟨s, hs, hp⟩
  rw [hnone] at hmem
  simp at hmem

/-- The activation that is entered for a candidate is under way. -/
theorem underway_entered (hreached : m.Reached)
    (hstarts : m.starts? d = some ⟨i, .window ⟨event, c :: rest⟩⟩)
    (hlegal : m.engine.CanOffer event c) :
    (m.after d).Underway ⟨m.engine.nextActivation⟩ ∧
      ∃ activation, (m.after d).engine.activations.get? ⟨m.engine.nextActivation⟩ =
        some activation ∧ activation.ability = c.ability ∧ activation.player = c.player := by
  obtain ⟨back, e₁, hidle, hfront, hoffers, hafter⟩ := after_window hstarts
  have hnone : (m.engine.queue.started back).partsOf ⟨m.engine.nextActivation⟩ = [] := by
    obtain ⟨-, hparts⟩ := hreached.sound.fresh_queue ⟨m.engine.nextActivation⟩ (Nat.le_refl _)
    rw [← StepQueue.partsOf_begin_other (s := ⟨i, .window ⟨event, c :: rest⟩⟩) _
      (by simp [StepKind.part?])]
    · exact hparts
    · simp [StepQueue.order, StepQueue.children, StepQueue.started, hidle, hfront]
  obtain ⟨hnumber, hretractable, hon, hfiled⟩ := hoffers.enters hlegal hnone
  obtain ⟨q, hrequeued⟩ := e₁.requeued_eq event rest
  have hon' := onTrack_finished (Engine.onTrack_requeued hon event rest)
  rw [hafter]
  refine ⟨⟨?_, ?_, hon'⟩, ?_⟩
  all_goals
    rw [hrequeued]
  · show m.engine.nextActivation < e₁.nextActivation
    rw [hnumber]
    exact Nat.lt_succ_self _
  · show ∀ t ∈ e₁.retractable, t.2 ≠ _
    rw [hretractable]
    intro t ht htx
    have hlt := hreached.ready.retractable t ht
    rw [htx] at hlt
    exact absurd hlt (Nat.lt_irrefl _)
  · exact hfiled

/-- To consider a candidate changes nothing on the board, in the counts of uses and in the
subscriptions; and if it is not legal, no activation is entered. -/
theorem untouched_after_window
    (hstarts : m.starts? d = some ⟨i, .window ⟨event, c :: rest⟩⟩) :
    m.engine.Untouched (m.after d).engine ∧
      (¬m.engine.CanOffer event c →
        (m.after d).engine.activations = m.engine.activations) := by
  obtain ⟨back, e₁, -, -, hoffers, hafter⟩ := after_window hstarts
  obtain ⟨q, hrequeued⟩ := e₁.requeued_eq event rest
  obtain ⟨huntouched, hskipped⟩ := hoffers.untouched
  rw [hafter, hrequeued]
  exact ⟨⟨huntouched.board, huntouched.usage, huntouched.registrar⟩, hskipped⟩

/-- The rest of a window waits behind the family of the activation that was entered. -/
theorem awaits_entered {c' : TriggerCandidate} (hreached : m.Reached) (hsteady : m.Steady d)
    (hstarts : m.starts? d = some ⟨i, .window ⟨event, c :: c' :: rest⟩⟩)
    (hlegal : m.engine.CanOffer event c) :
    (m.after d).Awaits ⟨m.engine.nextActivation⟩
      (Family.none.grow ⟨m.engine.nextActivation⟩ m d)
      ⟨m.follows i d, .window ⟨event, c' :: rest⟩⟩ := by
  have hsound := hreached.sound
  obtain ⟨own, back, hfront, hwaits, -⟩ := waits_after_window hstarts
  -- The members are steps of the activation and new.
  have hmember : ∀ j ∈ (Family.none.grow ⟨m.engine.nextActivation⟩ m d).members,
      m.engine.queue.nextId ≤ j.number ∧ ∃ s ∈ (m.after d).engine.queue.order, s.id = j ∧
        ∃ p, s.kind.part? = some (⟨m.engine.nextActivation⟩, p) := by
    intro j hj
    rcases Family.mem_grow.mp hj with hold | ⟨s, hs, hsj, hnew, hacts | hpart⟩
    · simp [Family.none] at hold
    · simp [Family.acts, hstarts, Family.none] at hacts
    · exact ⟨hnew, s, hs, hsj, hpart⟩
  refine ⟨(underway_entered hreached hstarts hlegal).1, hsound.kin_new.after hsound hsteady, rfl,
    fun hmem => ?_, own, back, hwaits, fun t ht hmem => ?_⟩
  · obtain ⟨-, s, hs, hsj, p, hpart⟩ := hmember _ hmem
    have hrest : (⟨m.follows i d, .window ⟨event, c' :: rest⟩⟩ : Step) ∈
        (m.after d).engine.queue.order := StepQueue.mem_order_of_mem_steps (by simp [hwaits])
    rw [(hreached.after d).eq_of_id hs hrest hsj] at hpart
    simp [StepKind.part?] at hpart
  · have hold : t ∈ m.engine.queue.order :=
      StepQueue.mem_order_of_mem_steps (by simp [hfront, ht])
    exact absurd (hsound.ids t hold) (Nat.not_lt.mpr (hmember _ hmem).1)

variable {x : ActivationId} {f : Family}

/-- A window that is followed waits behind the family of an activation, or the family is gone. -/
def Passed (m : Moment) (x : ActivationId) (f : Family) (i : StepId) : Prop :=
  (∃ w, m.Awaits x f ⟨i, .window w⟩) ∨ m.Gone x f

/-- When a window that is followed considers a candidate, the family is gone. -/
theorem Passed.gone (h : m.Passed x f i) (hreached : m.Reached) {kind : StepKind}
    (hstarts : m.starts? d = some ⟨i, kind⟩) : m.Gone x f := by
  rcases h with ⟨w, hawaits⟩ | hgone
  · obtain ⟨front, back, hsplit, -⟩ := hawaits.behind
    have hwaits : (⟨i, .window w⟩ : Step) ∈ m.engine.queue.order :=
      StepQueue.mem_order_of_mem_steps (by simp [hsplit])
    rw [hreached.eq_of_id (mem_order_of_starts hstarts) hwaits rfl] at hstarts
    exact hawaits.gone hreached hstarts
  · exact hgone

theorem Passed.after (h : m.Passed x f i) (hreached : m.Reached) (hsteady : m.Steady d) :
    (m.after d).Passed x (f.grow x m d) (m.follows i d) := by
  by_cases hstarts : ∃ kind, m.starts? d = some ⟨i, kind⟩
  · obtain ⟨kind, hstarts⟩ := hstarts
    exact .inr ((h.gone hreached hstarts).after hreached hsteady).1
  · have hother : ∀ kind, m.starts? d ≠ some ⟨i, kind⟩ := fun kind hkind => hstarts ⟨kind, hkind⟩
    rw [(considers_of_other hother).2]
    rcases h with ⟨w, hawaits⟩ | hgone
    · exact .inl ⟨w, hawaits.after hreached hsteady (hother _)⟩
    · exact .inr (hgone.after hreached hsteady).1

theorem Passed.run (hreached : m.Reached) {ds : List Deed} (h : m.Passed x f i)
    (halong : Along Steady m ds) :
    (m.run ds).Passed x (f.after x m ds) (holder i m ds) := by
  induction ds generalizing m f i with
  | nil => exact h
  | cons d ds ih => exact ih (hreached.after d) (h.after hreached halong.1) halong.2

/-- An activation that was entered by the first of some deeds is done with after them. It is
complete or cancelled if it was started, and otherwise it is not filed any more; and no step waits
that descends from it. -/
structure DoneWith (m : Moment) (x : ActivationId) (ds : List Deed) : Prop where
  started : .reached .legalityChecked ∈ life x m ds →
    ∃ activation, (m.run ds).engine.activations.get? x = some activation ∧
      (activation.stage = .completed ∨ activation.cancelled)
  unstarted : .reached .legalityChecked ∉ life x m ds →
    (m.run ds).engine.activations.get? x = none
  pending : ∀ s ∈ (m.run ds).engine.queue.pending, s.id ∉ (Family.none.after x m ds).members

/-- What has got past the first stage has told so. -/
theorem mem_of_tells {activation : Activation} {ps : List Part} {told : List Happening}
    (h : activation.Tells ps told) (hstage : activation.stage ≠ .idle) :
    .reached .legalityChecked ∈ told := by
  have hstory : Happening.reached .legalityChecked ∈ activation.stage.story := by
    cases hs : activation.stage with
    | idle => exact absurd hs hstage
    | _ => simp [ActivationStage.story]
  obtain ⟨offered, -, ⟨rfl, -⟩ | ⟨-, -, rfl⟩⟩ := h.story
  · exact List.mem_append_right _ hstory
  · exact List.mem_append_left _ (List.mem_append_right _ hstory)

/-- When the family of an activation is gone that was entered by the first of some deeds, the
activation is done with. -/
theorem doneWith_of_gone {ds : List Deed} (hreached : m.Reached)
    (halong : Along Steady m (d :: ds))
    (hunderway : (m.after d).Underway ⟨m.engine.nextActivation⟩)
    (hgone : (m.run (d :: ds)).Gone ⟨m.engine.nextActivation⟩
      (Family.none.after ⟨m.engine.nextActivation⟩ m (d :: ds))) :
    m.DoneWith ⟨m.engine.nextActivation⟩ (d :: ds) := by
  let x : ActivationId := ⟨m.engine.nextActivation⟩
  have hsound := hreached.sound
  have hon : Doomtown.OnTrack ((m.run (d :: ds)).engine.activations.get? x) [] := by
    have honTrack := hgone.underway.onTrack
    unfold OnTrack at honTrack
    rw [hgone.parts] at honTrack
    exact honTrack
  have hnew : m.Tells x [] := by
    obtain ⟨hnone, -⟩ := hsound.fresh x (Nat.le_refl _)
    exact ⟨fun activation hget => by simp [hnone] at hget, fun _ => rfl,
      ⟨[], by simp, .inl List.nil_prefix⟩⟩
  have htells : (m.run (d :: ds)).Tells x (life x m (d :: ds)) :=
    hnew.run hsound (d :: ds) (halong.imp fun _ _ => Steady.undisturbed)
  refine ⟨fun hstarted => ?_, fun hunstarted => ?_, fun s hs =>
    hgone.pending s (StepQueue.mem_pending_iff.mp hs)⟩
  · have hstarted' : (m.after d).Started x ∨ .reached .legalityChecked ∈ life x (m.after d) ds := by
      rcases List.mem_append.mp hstarted with hnow | hlater
      · exact .inl (started_of_happens hnow)
      · exact .inr hlater
    obtain ⟨activation, hget, -⟩ :=
      hunderway.started_run (hreached.after d) halong.2 hstarted'
    have hget' : (m.run (d :: ds)).engine.activations.get? x = some activation := hget
    rw [hget'] at hon
    exact ⟨activation, hget', hon.over.symm⟩
  · cases hget : (m.run (d :: ds)).engine.activations.get? x with
    | none => rfl
    | some activation =>
      -- What is filed and has nothing ahead has started.
      have hfits := (hreached.run (d :: ds)).sound.fits x
      rw [hget] at hon hfits
      have hstage : activation.stage ≠ .idle := by
        rcases hon.over with hcancelled | hcompleted
        · obtain ⟨-, hstage | hstage | hstage⟩ := hfits.cancelled hcancelled <;> simp [hstage]
        · simp [hcompleted]
      exact absurd (mem_of_tells (htells.filed activation hget) hstage) hunstarted

/-! ## Answers to offers -/

/-- An offer that is declined, or accepted when it is not legal any more, leaves nothing behind. -/
theorem after_decline (hreached : m.Reached) {player : PlayerId} {n : Nat}
    (hsteady : m.Steady (.answer player n)) {view : PromptView} {p : PlayerId}
    {alternatives : Nat}
    (hstarts : m.starts? (.answer player n) =
      some ⟨i, .prompt ⟨view, p, .offer x alternatives⟩⟩)
    (hno : n = max alternatives 1 ∨ ¬m.engine.CanAccept x) :
    m.engine.Untouched (m.after (.answer player n)).engine ∧
      (m.after (.answer player n)).engine.activations = m.engine.activations.erase x := by
  obtain ⟨q, e₁, hrunning, htaken, -, hend, hafter⟩ := hsteady.answered hstarts (by simp)
  obtain ⟨-, hfits⟩ := hreached.sound.fits_front hrunning (p := .offer) rfl htaken
  obtain ⟨activation, hget, -⟩ := follows_of_fits hfits (by decide)
  have hdropped : ((Engine.dropActivation x).ends { m.engine with queue := q }).2 = e₁ := by
    unfold Engine.answerWith at hend
    dsimp only at hend
    split at hend
    · exact congrArg Prod.snd hend
    · rename_i haccepted
      exact Engine.accept_illegal (hno.resolve_left haccepted) hget hend
  rw [hafter, ← hdropped]
  exact ⟨⟨rfl, rfl, rfl⟩, rfl⟩

/-! ## Taking turns -/

/-- What becomes of a window with some candidates that waits in a step. -/
structure TakesTurns (m : Moment) (i : StepId) (w : TriggerWindow) (ds : List Deed) : Prop where
  /-- Each candidate is considered once and in order, or its turn is still to come. -/
  once : considered i m ds ++ left (m.run ds) (holder i m ds) = w.pending
  /-- When nothing waits any more, all have been considered. -/
  all : (m.run ds).engine.queue.pending = [] → considered i m ds = w.pending
  /-- Nothing changes when a candidate is considered but that an activation is entered for it if it
  is legal. -/
  entered : ∀ before d after c, ds = before ++ d :: after →
    (m.run before).considers (holder i m before) d = some c →
    (m.run before).engine.Untouched (m.run (before ++ [d])).engine ∧
      ((m.run before).engine.CanOffer w.event c →
        ∃ activation, (m.run (before ++ [d])).engine.activations.get?
            ⟨(m.run before).engine.nextActivation⟩ = some activation ∧
          activation.ability = c.ability ∧ activation.player = c.player) ∧
      (¬(m.run before).engine.CanOffer w.event c →
        (m.run (before ++ [d])).engine.activations = (m.run before).engine.activations)
  /-- When another candidate is considered, and ever after, the activation that was entered for an
  earlier one is done with. -/
  settled : ∀ before d middle d' after c, ds = before ++ d :: middle ++ d' :: after →
    (m.run before).considers (holder i m before) d = some c →
    (m.run before).engine.CanOffer w.event c →
    ((m.run (before ++ d :: middle)).considers (holder i m (before ++ d :: middle)) d').isSome →
    ∀ more, more <+: d' :: after →
      (m.run before).DoneWith ⟨(m.run before).engine.nextActivation⟩ (d :: middle ++ more)
  /-- An offer that is declined or not legal any more leaves nothing behind. -/
  declined : ∀ before player n after j view p x alternatives,
    ds = before ++ .answer player n :: after →
    (m.run before).starts? (.answer player n) =
      some ⟨j, .prompt ⟨view, p, .offer x alternatives⟩⟩ →
    n = max alternatives 1 ∨ ¬(m.run before).engine.CanAccept x →
    (m.run before).engine.Untouched (m.run (before ++ [.answer player n])).engine ∧
      (m.run (before ++ [.answer player n])).engine.activations =
        (m.run before).engine.activations.erase x

/-- The window of an event that fires waits if it has a candidate. -/
theorem holds_after_fires (hfires : m.fires? d = some event)
    (hpending : ((m.after d).engine.collect event).pending ≠ []) :
    ∃ i, (m.after d).Holds i event ((m.after d).engine.collect event).pending := by
  obtain ⟨e₀, hafter⟩ := after_fires hfires
  obtain ⟨e₁, -, hopened⟩ := Engine.openWindow_ends event e₀
  rw [hopened] at hafter
  obtain ⟨q, hrequeued⟩ := e₁.requeued_eq event (e₁.collect event).pending
  have hcollect : (m.after d).engine.collect event = e₁.collect event := by
    rw [hafter, hrequeued]
    rfl
  rw [hcollect] at hpending ⊢
  refine ⟨e₁.queue.nextStep, ?_⟩
  cases hlisted : (e₁.collect event).pending with
  | nil => exact absurd hlisted hpending
  | cons c rest =>
    rw [hlisted] at hafter
    obtain ⟨front, back, -, horder⟩ := e₁.queue.order_push (.window ⟨event, c :: rest⟩)
    have hsteps : (m.after d).engine.queue.steps =
        front ++ ⟨e₁.queue.nextStep, .window ⟨event, c :: rest⟩⟩ :: back := by
      rw [hafter, ← horder]
      rfl
    refine ⟨?_, fun _ => by simp [hsteps], by simp⟩
    rw [hafter]
    show e₁.queue.nextId < (e₁.queue.push _).nextId
    rw [StepQueue.nextId_push]
    exact Nat.lt_succ_self _

theorem holder_append {ds' : List Deed} : ∀ {i : StepId} {m : Moment} {ds : List Deed},
    holder i m (ds ++ ds') = holder (holder i m ds) (m.run ds) ds'
  | _, _, [] => rfl
  | _, m, d :: _ => holder_append (m := m.after d)

/-- What is considered starts the step in which the window waits. -/
theorem Holds.starts_of_considers (h : m.Holds i event pending) (hreached : m.Reached)
    (hconsiders : m.considers i d = some c) :
    ∃ rest, pending = c :: rest ∧ m.starts? d = some ⟨i, .window ⟨event, c :: rest⟩⟩ := by
  rcases h.starts_or_other hreached d with ⟨c', rest, rfl, hstarts⟩ | hother
  · obtain rfl : c' = c := by simpa [considers, hstarts] using hconsiders
    exact ⟨rest, rfl, hstarts⟩
  · simp [(considers_of_other hother).1] at hconsiders

/-- The activation of a candidate is done with when another candidate is considered, and ever
after. -/
theorem Holds.doneWith (h : m.Holds i event pending) (hreached : m.Reached)
    {middle after more : List Deed} {d' : Deed}
    (halong : Along Steady m (d :: middle ++ d' :: after))
    (hconsiders : m.considers i d = some c) (hlegal : m.engine.CanOffer event c)
    (hnext : ((m.run (d :: middle)).considers (holder i m (d :: middle)) d').isSome)
    (hmore : more <+: d' :: after) :
    m.DoneWith ⟨m.engine.nextActivation⟩ (d :: middle ++ more) := by
  obtain ⟨rest, rfl, hstarts⟩ := h.starts_of_considers hreached hconsiders
  obtain ⟨hfirst, hsecond⟩ := along_append.mp halong
  have hholds := holds_after_window hreached h.given hstarts
  have hreached' := hreached.run (d :: middle)
  obtain ⟨pending', hlater, hlisted⟩ := hholds.run (hreached.after d) hfirst.2
  obtain ⟨c₂, hc₂⟩ := Option.isSome_iff_exists.mp hnext
  obtain ⟨rest', rfl, hstarts'⟩ := hlater.starts_of_considers hreached' hc₂
  obtain ⟨hunderway, -⟩ := underway_entered hreached hstarts hlegal
  cases rest with
  | nil => simp at hlisted
  | cons c' rest =>
    have hpassed : (m.after d).Passed ⟨m.engine.nextActivation⟩
        (Family.none.grow ⟨m.engine.nextActivation⟩ m d) (m.follows i d) :=
      .inl ⟨_, awaits_entered hreached hfirst.1 hstarts hlegal⟩
    have hgone := (hpassed.run (hreached.after d) hfirst.2).gone hreached' hstarts'
    obtain ⟨tail, htail⟩ := hmore
    have hmore' : Along Steady (m.run (d :: middle)) more := by
      rw [← htail] at hsecond
      exact (along_append.mp hsecond).1
    obtain ⟨hgone', -⟩ := hgone.run hreached' hmore'
    refine doneWith_of_gone hreached (along_append.mpr ⟨hfirst, hmore'⟩) hunderway ?_
    show (m.run (d :: middle ++ more)).Gone _ (Family.none.after _ m (d :: middle ++ more))
    rw [run_append, Family.after_append]
    exact hgone'

/-- The window of an event that fires is resolved candidate by candidate, whatever the players and
the scripts do in between, as long as no step fails and nobody withdraws steps by order. -/
theorem window_takes_turns (hreached : m.Reached) (d : Deed) (ds : List Deed) (event : GameEvent)
    (hfires : m.fires? d = some event)
    (hpending : ((m.after d).engine.collect event).pending ≠ [])
    (hsteady : Along Steady (m.after d) ds) :
    ∃ i, ⟨i, .window ((m.after d).engine.collect event)⟩ ∈ (m.after d).engine.queue.pending ∧
      (m.after d).TakesTurns i ((m.after d).engine.collect event) ds := by
  obtain ⟨i, hholds⟩ := holds_after_fires hfires hpending
  have hreached' := hreached.after d
  -- Up to each deed the window is followed; what the deed does is known from there.
  have hfollowed : ∀ {before rest : List Deed}, ds = before ++ rest →
      ((m.after d).run before).Reached ∧ Along Steady ((m.after d).run before) rest ∧
        ∃ pending, ((m.after d).run before).Holds (holder i (m.after d) before) event pending := by
    rintro before rest rfl
    obtain ⟨hbefore, hrest⟩ := along_append.mp hsteady
    obtain ⟨pending, hpending, -⟩ := hholds.run hreached' hbefore
    exact ⟨hreached'.run before, hrest, pending, hpending⟩
  obtain ⟨pending, hend, hlisted⟩ := hholds.run hreached' hsteady
  have hleft := hend.left_eq (hreached'.run ds)
  refine ⟨i, List.mem_append_left _ (hholds.waits hpending), ?_, fun hnone => ?_,
    fun before d after c hsplit hconsiders => ?_,
    fun before d middle d' after c hsplit hconsiders hlegal hnext more hmore => ?_,
    fun before player n after j view p x alternatives hsplit hstarts hno => ?_⟩
  · rw [hleft, ← hlisted]
  · cases pending with
    | nil => rw [hlisted, List.append_nil]
    | cons c rest =>
      have hwaits := StepQueue.mem_pending_iff.mpr hend.mem_order
      rw [hnone] at hwaits
      simp at hwaits
  · obtain ⟨hthere, -, pending, hholds⟩ := hfollowed hsplit
    obtain ⟨rest, -, hstarts⟩ := hholds.starts_of_considers hthere hconsiders
    rw [run_append]
    obtain ⟨huntouched, hskipped⟩ := untouched_after_window hstarts
    exact ⟨huntouched, fun hlegal => (underway_entered hthere hstarts hlegal).2, hskipped⟩
  · rw [List.append_assoc] at hsplit
    obtain ⟨hthere, halong, pending, hholds⟩ := hfollowed hsplit
    rw [run_append, holder_append] at hnext
    exact hholds.doneWith hthere halong hconsiders hlegal hnext hmore
  · obtain ⟨hthere, halong, -⟩ := hfollowed hsplit
    rw [run_append]
    exact after_decline hthere halong.1 hstarts hno

/-- The deed has two abilities that the beginning of a round sets off, of which the first is forced
and queues a step. The round is about to begin. -/
def twoSetOff : Moment :=
  (start deedInPlay).run [
    .call (.attach ⟨3⟩ {
      kind := .forced
      triggers := [(.beginRound, fun _ _ => true)]
      handler := some fun _ => .queue "aftermath" .done fun _ => .done }),
    .call (.attach ⟨3⟩ {
      kind := .reaction
      triggers := [(.beginRound, fun _ _ => true)]
      handler := some fun _ => .done }),
    .call (.order .beginRound),
    .turn]

/-- The first ability is used, and the second is declined. -/
def turnsOfBoth : List Deed :=
  [.turn, .turn, .turn, .turn, .go, .go, .turn, .go, .turn, .turn, .turn, .answer ⟨0⟩ 1]

/-- Both candidates are considered, and nothing is left. -/
theorem window_takes_turns_twoSetOff :
    twoSetOff.fires? .go = some ⟨1, .beginRound 1⟩ ∧
      (twoSetOff.after .go).engine.queue.pending.map (·.id) = [⟨1⟩] ∧
      Along Steady (twoSetOff.after .go) turnsOfBoth ∧
      ((twoSetOff.after .go).engine.collect ⟨1, .beginRound 1⟩).pending = [⟨⟨0⟩, ⟨0⟩⟩, ⟨⟨1⟩, ⟨0⟩⟩] ∧
      considered ⟨1⟩ (twoSetOff.after .go) turnsOfBoth = [⟨⟨0⟩, ⟨0⟩⟩, ⟨⟨1⟩, ⟨0⟩⟩] ∧
      ∃ i, ⟨i, .window ((twoSetOff.after .go).engine.collect ⟨1, .beginRound 1⟩)⟩ ∈
          (twoSetOff.after .go).engine.queue.pending ∧
        (twoSetOff.after .go).TakesTurns i
          ((twoSetOff.after .go).engine.collect ⟨1, .beginRound 1⟩) turnsOfBoth := by
  have hfires : twoSetOff.fires? .go = some ⟨1, .beginRound 1⟩ := by decide +kernel
  have hsteady : Along Steady (twoSetOff.after .go) turnsOfBoth := by decide +kernel
  have hpending : ((twoSetOff.after .go).engine.collect ⟨1, .beginRound 1⟩).pending =
      [⟨⟨0⟩, ⟨0⟩⟩, ⟨⟨1⟩, ⟨0⟩⟩] := by decide +kernel
  have hsome : ((twoSetOff.after .go).engine.collect ⟨1, .beginRound 1⟩).pending ≠ [] := by
    simp [hpending]
  have hreached : twoSetOff.Reached := ⟨deedInPlay, _, rfl⟩
  exact ⟨hfires, by decide +kernel, hsteady, hpending, by decide +kernel,
    window_takes_turns hreached .go turnsOfBoth ⟨1, .beginRound 1⟩ hfires hsome hsteady⟩

end Moment

end Doomtown
