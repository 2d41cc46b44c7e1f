import Doomtown.Proofs.CalmScripts
import Doomtown.Proofs.MeteredTriggers
import Doomtown.Proofs.Requests

/-!
# Turns of a chain of triggers

An activation that has resolved is announced by an event, which may bring the same triggers into a
window once more. While such a chain runs, windows of metered triggers and ends of activations wait
in the queue, and at its front one step of an activation of which a use is left, or an announcement,
or a prompt (`Engine.Lined`). One turn leads from there to the like, with fewer uses left if an
effect began (`Engine.Chained.turn`). What can come yet is measured by the uses that are left
(`Engine.budget`), and then by the steps and candidates that wait (`StepQueue.load`).
-/

namespace Doomtown

open Play

/-! ## How much waits -/

/-- Whether a step is an event. -/
def StepKind.isEvent : StepKind → Bool
  | .event .. => true
  | _ => false

/-- How many turns can at most come of a step, not counting those of effects. -/
def StepKind.load : StepKind → Nat
  -- For each candidate its offer and the stages of its activation, then the end of the window.
  | .window w => 4 * w.pending.length + 1
  | .resolve _ .payCosts => 3
  | .resolve _ .chooseTargets => 2
  | .resolve _ .execute | .complete _ => 1
  | .task .. | .event .. | .prompt _ => 0

/-- How many turns can at most come of steps, not counting those of effects. -/
def StepQueue.load : List Step → Nat
  | [] => 0
  | s :: rest => s.kind.load + load rest

theorem StepQueue.load_append (l l' : List Step) : load (l ++ l') = load l + load l' := by
  induction l with
  | nil => simp [load]
  | cons s rest ih => simp [load, ih, Nat.add_assoc]

namespace Engine

variable {e e' e₁ : Engine} {s : Step} {own rest : List Step} {x : ActivationId} {t : AbilityId}
  {a : Ability} {activation : Activation}

/-- How many effects and events can come yet: each use that is left can give one of each. -/
def budget (e : Engine) : Nat := 2 * e.allLeft + e.queue.steps.countP (·.kind.isEvent)

/-- Less can come yet, or what waits has come nearer to its end. -/
def Nears (e' e : Engine) : Prop :=
  e'.budget < e.budget ∨ e'.budget = e.budget ∧
    StepQueue.load e'.queue.steps < StepQueue.load e.queue.steps

/-! ## What waits in a chain -/

/-- What can wait behind the front: windows of metered triggers, and ends of activations. -/
def Pends (e : Engine) : StepKind → Prop
  | .window w => ∀ c ∈ w.pending, e.Metered c.ability
  | .complete _ => True
  | _ => False

/-- What can wait at the front alone. -/
inductive Heads (e : Engine) : StepKind → Prop where
  /-- An activation of which a use is left. -/
  | resolve {x : ActivationId} {stage : ResolutionStage} {activation : Activation}
      (hget : e.activations.get? x = some activation) (hleft : e.HasLeft activation.ability) :
    Heads e (.resolve x stage)
  | event {timestamp : Nat} {t : AbilityId} {c : CardId} {p : PlayerId} {x : ActivationId} :
    Heads e (.event ⟨timestamp, .abilityResolved t c p⟩ (.emitted x))
  | prompt (p : Prompt) : Heads e (.prompt p)

/-- The steps that can wait in a chain of triggers. -/
inductive Lined (e : Engine) : List Step → Prop where
  | pending {l : List Step} (h : ∀ s ∈ l, e.Pends s.kind) : Lined e l
  | headed {s : Step} {rest : List Step} (hs : e.Heads s.kind) (h : ∀ t ∈ rest, e.Pends t.kind) :
    Lined e (s :: rest)

theorem Pends.mono {kind : StepKind} (h : e.Pends kind)
    (hmetered : ∀ t, e.Metered t → e'.Metered t) : e'.Pends kind := by
  cases kind with
  | window w => exact fun c hc => hmetered _ (h c hc)
  | complete => trivial
  | _ => exact h.elim

theorem Heads.finished {kind : StepKind} (h : e.Heads kind) : e.finished.Heads kind := by
  cases h with
  | resolve hget hleft => exact .resolve hget hleft
  | event => exact .event
  | prompt p => exact .prompt p

/-- With the end of the step that runs nothing changes of what waits. -/
theorem Lined.finished {l : List Step} (h : e.Lined l) : e.finished.Lined l := by
  have hpends : ∀ {kind : StepKind}, e.Pends kind → e.finished.Pends kind := fun hkind =>
    hkind.mono fun _ hmetered => hmetered
  cases h with
  | pending h => exact .pending fun s hs => hpends (h s hs)
  | headed hs h => exact .headed hs.finished fun s hs => hpends (h s hs)

theorem Lined.behind (h : e.Lined (s :: rest)) : ∀ t ∈ rest, e.Pends t.kind := by
  cases h with
  | pending h => exact fun t ht => h t (List.mem_cons_of_mem _ ht)
  | headed _ h => exact h

/-- No event waits behind the front. -/
theorem countP_of_pends {l : List Step} (h : ∀ s ∈ l, e.Pends s.kind) :
    l.countP (·.kind.isEvent) = 0 := by
  refine List.countP_eq_zero.mpr fun s hs => ?_
  have hpends := h s hs
  cases hkind : s.kind <;> rw [hkind] at hpends <;> simp_all [StepKind.isEvent, Pends]

theorem Heads.requeued {kind : StepKind} (h : e.Heads kind) (event : GameEvent)
    (pending : List TriggerCandidate) : (e.requeued event pending).Heads kind := by
  have hactivations : (e.requeued event pending).activations = e.activations := by
    cases pending <;> rfl
  cases h with
  | resolve hget hleft =>
    refine .resolve (hactivations ▸ hget) ?_
    cases pending <;> exact hleft
  | event => exact .event
  | prompt p => exact .prompt p

/-- What a window that goes on queues while a step runs. -/
theorem requeued_ends (hrunning : e.queue.running = some own) (event : GameEvent)
    (pending : List TriggerCandidate) :
    e.Leaves (e.requeued event pending) ∧ (e.requeued event pending).queue.steps = e.queue.steps ∧
      ∃ windows, (e.requeued event pending).queue.running = some (own ++ windows) ∧
        (∀ s ∈ windows, s.kind = .window ⟨event, pending⟩) ∧
        StepQueue.load windows ≤ 4 * pending.length + 1 ∧
        windows.countP (·.kind.isEvent) = 0 := by
  cases pending with
  | nil => exact ⟨.refl e, rfl, [], by simpa [requeued] using hrunning, by simp, Nat.zero_le _, rfl⟩
  | cons c more =>
    refine ⟨leaves_of_eq rfl rfl rfl rfl, ?_, [⟨e.queue.nextStep, .window ⟨event, c :: more⟩⟩], ?_,
      by simp, Nat.le_refl _, rfl⟩
    · simp [requeued, StepQueue.push, hrunning]
    · simp [requeued, StepQueue.push, hrunning]

/-- What an event queues once it has been applied: a window of metered triggers, if any. -/
theorem openWindow_lines (hproper : e.Proper) (hlimited : e.Limited)
    (hrunning : e.queue.running = some []) (event : GameEvent) :
    ∃ e₁ windows, (openWindow event).ends e = (.ok (), e₁) ∧ e.Hears event.name e₁ ∧
      e₁.queue.steps = e.queue.steps ∧ e₁.queue.running = some windows ∧
      (∀ s ∈ windows, e₁.Pends s.kind) := by
  obtain ⟨e₁, hends, hears, hqueue⟩ := openWindow_opens event e
  obtain ⟨hleaves, hsteps, windows, hwindows, hkinds, -, -⟩ :=
    requeued_ends (hqueue ▸ hrunning) event (e₁.collect event).pending
  refine ⟨_, windows, hends, ⟨?_, ?_, fun t => ?_⟩, hsteps.trans (by rw [hqueue]), hwindows,
    fun s hs => ?_⟩
  · cases (e₁.collect event).pending <;> exact hears.board
  · exact hleaves.abilities.trans hears.abilities
  · exact (hleaves.entries t).trans (hears.entries t)
  · rw [hkinds s hs]
    exact fun c hc => (metered_of_collect (hears.proper hproper) (hlimited.congr hears.abilities)
      hc).leaves hleaves

/-! ## Effects that begin -/

/-- Whatever effect of a trigger begins while the queue runs is calm from there on. -/
def CalmEffects (e : Engine) : Prop :=
  ∀ n e₁, (settle n).ends e = (.ok none, e₁) →
    ∀ e₂ a x activation script,
      Moment.turn e₁ = ⟨e₂, some ⟨.effect a x activation, script⟩⟩ → a.kind.isTriggered →
        script.Calm e₂

theorem CalmEffects.turn (h : e.CalmEffects) (hturn : Engine.turn.ends e = (.ok none, e')) :
    e'.CalmEffects := by
  intro n e₁ hn
  refine h (n + 1) e₁ ?_
  rw [settle_succ, ends_bind_ok hturn]
  exact hn

/-- The number of effects that begin with the next turn: one or none. -/
def begins (e : Engine) : Nat := if (Moment.turn e).effect?.isSome then 1 else 0

/-- The number of effects that begin while the queue runs for some turns. -/
def effectsRun : Nat → Engine → Nat
  | 0, _ => 0
  | fuel + 1, e => e.begins +
    match turn.ends e with
    | (.ok none, e') => effectsRun fuel e'
    | _ => 0

theorem begins_le (e : Engine) : e.begins ≤ 1 := by
  unfold begins
  split <;> omega

theorem begins_of_opening (hidle : e.queue.running = none) (hfront : e.queue.steps = s :: rest)
    (hkind : ∀ p, s.kind ≠ .prompt p) (hopening : e.opening s.kind = none) : e.begins = 0 := by
  unfold begins Moment.turn
  rw [StepQueue.begin?_front hidle hfront hkind]
  simp [hopening, Moment.effect?]

theorem begins_of_rests (h : e.queue.Rests) : e.begins = 0 := by
  have hbegin : e.queue.begin? = none := by
    unfold StepQueue.begin?
    rcases h with hnil | hprompt
    · rw [hnil]
      cases e.queue.running <;> rfl
    · unfold StepQueue.frontPrompt? at hprompt
      split at hprompt
      · rename_i hfront
        rw [hfront]
        cases e.queue.running <;> rfl
      · simp at hprompt
  unfold begins Moment.turn
  rw [hbegin]
  rfl

/-! ## One turn of a chain -/

/-- A chain of triggers is running, and no step is. -/
structure Chained (e : Engine) : Prop where
  reached : Moment.Reached ⟨e, none⟩
  labelled : e.board.Labelled
  limited : e.Limited
  calm : e.CalmEffects
  lined : e.Lined e.queue.steps

/-- A card that is being played is not listed there. -/
def Unlisted (e : Engine) (c : CardId) : Prop :=
  isBeingPlayed e.board c ∧ ∃ card, e.board.card? c = some card ∧ e.board.lists c card = false

/-- What a turn of a chain leads to. -/
inductive ChainTurn (e : Engine) : Except RulesError (Option QueueStatus) × Engine → Prop where
  | rests (h : e.queue.Rests) : ChainTurn e (.ok (some e.status), e)
  | unpaid {title : String} {cause : RulesError} {e' : Engine} (hbegins : e.begins = 0) :
    ChainTurn e (.error (.paymentFailed title cause), e')
  /-- A card that was played for an ability cannot be discarded. -/
  | stuck {c : CardId} {e' : Engine} (h : e'.Unlisted c) (hbegins : e.begins ≤ e.allLeft) :
    ChainTurn e (.error (.refused (.notListed c .beingPlayed)), e')
  | goes {e' : Engine} (h : e'.Chained) (hnears : e'.Nears e)
      (hbegins : e.begins + e'.allLeft ≤ e.allLeft) : ChainTurn e (.ok none, e')

namespace Chained

theorem idle (h : e.Chained) : e.queue.running = none := by
  have hrunning := h.reached.ready.running
  simpa using hrunning

/-- A turn that succeeds leads on. -/
theorem goes (h : e.Chained) (hfront : e.queue.steps = s :: rest) (hkind : ∀ p, s.kind ≠ .prompt p)
    (hrun : (runStep s).ends { e with queue := e.queue.started rest } = (.ok (), e₁))
    (hlabelled : e₁.board.Labelled) (habilities : e₁.abilities = e.abilities)
    (hlined : e₁.Lined e₁.finished.queue.steps) (hnears : e₁.finished.Nears e)
    (hbegins : e.begins + e₁.allLeft ≤ e.allLeft) : e.ChainTurn (turn.ends e) := by
  have hturn : turn.ends e = (.ok none, e₁.finished) := by
    rw [turn_runs h.idle hfront hkind, hrun]
  have hleads := leads_of_chain (turn_leads e)
  rw [hturn] at hleads ⊢
  exact .goes ⟨h.reached.leads hleads, hlabelled, h.limited.congr habilities, h.calm.turn hturn,
    hlined.finished⟩ hnears hbegins

/-- A step that runs no script and leaves cards and entries alone leads on, if what it queues is
less than it was itself. -/
theorem goes_on (h : e.Chained) (hfront : e.queue.steps = s :: rest)
    (hkind : ∀ p, s.kind ≠ .prompt p) (hopening : e.opening s.kind = none)
    (hrun : (runStep s).ends { e with queue := e.queue.started rest } = (.ok (), e₁))
    (hleaves : e.Leaves e₁) (hrunning : e₁.queue.running = some own)
    (hsteps : e₁.queue.steps = rest) (hlined : e₁.Lined (own ++ rest))
    (hevents : own.countP (·.kind.isEvent) = 0)
    (hload : s.kind.isEvent ∨ StepQueue.load own < s.kind.load) : e.ChainTurn (turn.ends e) := by
  have hfinished : e₁.finished.queue.steps = own ++ rest := by
    simp [finished, StepQueue.finish, StepQueue.children, hrunning, hsteps]
  have hleft : e₁.allLeft = e.allLeft := hleaves.allLeft
  refine h.goes hfront hkind hrun (labelled_of_leaves h.labelled hleaves) hleaves.abilities
    (hfinished ▸ hlined) ?_ ?_
  · -- No event waits behind the front, so less can come yet just in case the front was one.
    have hrest : rest.countP (·.kind.isEvent) = 0 :=
      countP_of_pends (e := e) (hfront ▸ h.lined : e.Lined (s :: rest)).behind
    have hbudget : e₁.finished.budget = 2 * e.allLeft := by
      show 2 * e₁.allLeft + _ = _
      rw [hfinished, List.countP_append, hevents, hrest, hleft, Nat.add_zero]
    have hbudget' : e.budget = 2 * e.allLeft + if s.kind.isEvent then 1 else 0 := by
      unfold budget
      rw [hfront, List.countP_cons, hrest, Nat.zero_add]
    unfold Nears
    rw [hbudget, hbudget', hfinished, hfront, StepQueue.load_append, StepQueue.load]
    by_cases hevent : s.kind.isEvent
    · left
      simp [hevent]
    · right
      simp only [hevent, Bool.false_eq_true, false_or, if_false] at hload ⊢
      omega
  · rw [begins_of_opening h.idle hfront hkind hopening, hleft, Nat.zero_add]

/-! ### Windows and ends -/

variable {i : StepId}

/-- What waits behind the front waits on where cards and entries are left alone. -/
theorem pends (h : e.Chained) (hfront : e.queue.steps = s :: rest) (hleaves : e.Leaves e₁) :
    ∀ t ∈ rest, e₁.Pends t.kind := fun t ht =>
  ((hfront ▸ h.lined : e.Lined (s :: rest)).behind t ht).mono fun _ hmetered =>
    hmetered.leaves hleaves

theorem turn_complete (h : e.Chained) (hfront : e.queue.steps = ⟨i, .complete x⟩ :: rest) :
    e.ChainTurn (turn.ends e) := by
  let e₁ : Engine := { e with
    queue := e.queue.started rest
    activations := e.activations.modify x ({ · with stage := .completed }) }
  have hleaves : e.Leaves e₁ := leaves_of_eq rfl rfl rfl rfl
  exact h.goes_on hfront (by simp) rfl (runStep_kind _ _) hleaves rfl rfl
    (.pending (h.pends hfront hleaves)) rfl (.inr (Nat.zero_lt_succ _))

/-- A trigger that is offered has a use left. -/
theorem hasLeft (h : e.Chained) {event : GameEvent} {c : TriggerCandidate}
    (hmetered : e.Metered c.ability) (hlegal : e.CanOffer event c) : e.HasLeft c.ability := by
  obtain ⟨a, hability, hcheck⟩ := hlegal
  exact hmetered.hasLeft h.labelled h.limited (fun u hu => h.reached.sound.counters _ u hu) rfl
    hability hcheck

/-- What an offer of a chain leads to: nothing waits in front of the window, or one step of an
activation of which a use is left. -/
theorem offers (h : e.Chained) {event : GameEvent} {c : TriggerCandidate}
    (hmetered : e.Metered c.ability)
    (hoffers : ({ e with queue := e.queue.started rest } : Engine).Offers event c e₁) :
    e.Leaves e₁ ∧ e₁.queue.steps = rest ∧ ∃ own, e₁.queue.running = some own ∧
      (own = [] ∨ ∃ s, own = [s] ∧ e₁.Heads s.kind ∧ s.kind.isEvent = false ∧ s.kind.load ≤ 3) := by
  cases hoffers with
  | unknown => exact ⟨leaves_of_eq rfl rfl rfl rfl, rfl, [], rfl, .inl rfl⟩
  | skipped => exact ⟨leaves_of_eq rfl rfl rfl rfl, rfl, [], rfl, .inl rfl⟩
  | @entered activation kind hlegal hof _ _ _ hkind =>
    refine ⟨leaves_of_eq rfl rfl rfl rfl, rfl, [_], rfl, .inr ⟨_, rfl, ?_⟩⟩
    have hleft : e.HasLeft activation.ability := hof ▸ h.hasLeft hmetered hlegal
    have hget : (e.activations.insert ⟨e.nextActivation⟩ activation).get? ⟨e.nextActivation⟩ =
        some activation := by
      rw [IdMap.get?_insert, if_pos rfl]
    cases hkind with
    | forced => exact ⟨.resolve hget hleft, rfl, Nat.le_refl 3⟩
    | prompted => exact ⟨.prompt _, rfl, Nat.zero_le 3⟩

theorem turn_window (h : e.Chained) {w : TriggerWindow}
    (hfront : e.queue.steps = ⟨i, .window w⟩ :: rest) : e.ChainTurn (turn.ends e) := by
  have hmetered : ∀ c ∈ w.pending, e.Metered c.ability := by
    have hlined := h.lined
    rw [hfront] at hlined
    cases hlined with
    | pending hpends => exact hpends _ List.mem_cons_self
    | headed hs => cases hs
  -- The candidate that is offered is followed by the rest of the window, which waits behind it.
  obtain ⟨event, pending⟩ := w
  let e₀ : Engine := { e with queue := e.queue.started rest }
  cases pending with
  | nil =>
    have hleaves : e.Leaves e₀ := leaves_of_eq rfl rfl rfl rfl
    exact h.goes_on hfront (by simp) rfl (runStep_kind _ _) hleaves rfl rfl
      (.pending (h.pends hfront hleaves)) rfl (.inr (Nat.zero_lt_succ _))
  | cons c more =>
    obtain ⟨e₁, hoffers, hends⟩ := advance_ends e₀ event c more
    obtain ⟨hleaves₁, hsteps₁, own, hrunning₁, hown⟩ :=
      h.offers (hmetered c List.mem_cons_self) hoffers
    obtain ⟨hleaves₂, hsteps₂, windows, hrunning₂, hwindows, hload, hcount⟩ :=
      requeued_ends hrunning₁ event more
    have hleaves : e.Leaves (e₁.requeued event more) := hleaves₁.trans hleaves₂
    have hbehind : ∀ t ∈ windows ++ rest, (e₁.requeued event more).Pends t.kind := by
      intro t ht
      rcases List.mem_append.mp ht with hwindow | hrest
      · rw [hwindows t hwindow]
        exact fun c' hc' => (hmetered c' (List.mem_cons_of_mem _ hc')).leaves hleaves
      · exact h.pends hfront hleaves t hrest
    refine h.goes_on hfront (by simp) rfl ((runStep_kind _ _).trans hends) hleaves hrunning₂
      (hsteps₂.trans hsteps₁) ?_ ?_ (.inr ?_)
    · rw [List.append_assoc]
      rcases hown with rfl | ⟨s, rfl, hs, -, -⟩
      · exact .pending hbehind
      · exact .headed (hs.requeued event more) hbehind
    · rw [List.countP_append, hcount]
      rcases hown with rfl | ⟨s, rfl, -, hevent, -⟩
      · rfl
      · simp [hevent]
    · have hfirst : StepQueue.load own ≤ 3 := by
        rcases hown with rfl | ⟨s, rfl, -, -, hs⟩
        · exact Nat.zero_le 3
        · exact hs
      rw [StepQueue.load_append]
      simp only [StepKind.load, List.length_cons]
      omega

/-! ### Announcements -/

theorem turn_event (h : e.Chained) {timestamp : Nat} {c : CardId} {p : PlayerId}
    (hfront : e.queue.steps =
      ⟨i, .event ⟨timestamp, .abilityResolved t c p⟩ (.emitted x)⟩ :: rest) :
    e.ChainTurn (turn.ends e) := by
  let e₀ : Engine := { e with
    queue := e.queue.started rest
    activations := e.activations.modify x ({ · with stage := .eventEmitted }) }
  have hproper : e₀.Proper := h.reached.proper
  obtain ⟨e₁, windows, hends, hears, hsteps, hrunning, hwindows⟩ :=
    openWindow_lines hproper h.limited (e := e₀) rfl ⟨timestamp, .abilityResolved t c p⟩
  -- The event ends no period, so no counter is reset.
  have hleaves₁ : e₀.Leaves e₁ := hears.leaves hproper fun period => by
    cases period <;> simp [LimitPeriod.resetEvent, GameEvent.name, EventData.name]
  have hleaves : e.Leaves e₁ := (leaves_of_eq rfl rfl rfl rfl : e.Leaves e₀).trans hleaves₁
  refine h.goes_on hfront (by simp) rfl ((runStep_kind _ _).trans hends) hleaves hrunning hsteps
    (.pending fun t ht => ?_) (countP_of_pends hwindows) (.inl rfl)
  exact (List.mem_append.mp ht).elim (hwindows t) (h.pends hfront hleaves t)

/-! ### Stages before the effect -/

theorem turn_skipped (h : e.Chained) {stage : ResolutionStage}
    (hfront : e.queue.steps = ⟨i, .resolve x stage⟩ :: rest)
    (hget : e.activations.get? x = some activation) (hlive : activation.isLive = false) :
    e.ChainTurn (turn.ends e) := by
  let e₀ : Engine := { e with queue := e.queue.started rest }
  have hends : (resolve x stage).ends e₀ = (.ok (), e₀) := by
    unfold resolve
    rw [ends_bind_ok (ends_look e₀)]
    have hget₀ : e₀.activations.get? x = some activation := hget
    simp only [hget₀, hlive, Bool.not_false, if_true]
    rfl
  have hopening : e.opening (.resolve x stage) = none := by
    cases stage with
    | execute =>
      unfold opening
      simp only [hget, hlive]
      cases e.ability? activation.ability <;> rfl
    | _ => rfl
  have hleaves : e.Leaves e₀ := leaves_of_eq rfl rfl rfl rfl
  refine h.goes_on hfront (by simp) hopening ((runStep_kind _ _).trans hends) hleaves rfl rfl
    (.pending (h.pends hfront hleaves)) rfl (.inr ?_)
  cases stage <;> exact Nat.zero_lt_succ _

theorem turn_pay (h : e.Chained) (hfront : e.queue.steps = ⟨i, .resolve x .payCosts⟩ :: rest)
    (hget : e.activations.get? x = some activation) (hlive : activation.isLive)
    (hleft : e.HasLeft activation.ability) : e.ChainTurn (turn.ends e) := by
  obtain ⟨a, -, hability, htriggered, -⟩ := id hleft
  let e₀ : Engine := { e with queue := e.queue.started rest }
  have hleaves₀ : e.Leaves e₀ := leaves_of_eq rfl rfl rfl rfl
  have hpays := payCosts_ends (e := e₀) (h.limited.of_ability? hability htriggered).stays hget
  have hends : (runStep ⟨i, .resolve x .payCosts⟩).ends e₀ = (payCosts a x activation).ends e₀ :=
    (runStep_kind _ _).trans (resolve_live .payCosts hget hlive hability)
  rw [← hends] at hpays
  generalize hending : (runStep ⟨i, .resolve x .payCosts⟩).ends e₀ = ending at hpays
  cases hpays with
  | @paid e₁ activation' hleaves₁ hfiled hability' hqueue =>
    have hleaves : e.Leaves e₁ := hleaves₀.trans hleaves₁
    have hrunning : e₁.queue.running = some [⟨e.queue.nextStep, .resolve x .chooseTargets⟩] := by
      rw [hqueue]
      rfl
    exact h.goes_on hfront (by simp) rfl hending hleaves hrunning (by rw [hqueue]; rfl)
      (.headed (.resolve hfiled (hability' ▸ hleft.leaves hleaves)) (h.pends hfront hleaves)) rfl
      (.inr (Nat.lt_succ_self 2))
  | @cancelled e₁ hleaves₁ hqueue =>
    have hleaves : e.Leaves e₁ := hleaves₀.trans hleaves₁
    have hrunning : e₁.queue.running = some [] := by
      rw [hqueue]
      rfl
    exact h.goes_on hfront (by simp) rfl hending hleaves hrunning (by rw [hqueue]; rfl)
      (.pending (h.pends hfront hleaves)) rfl (.inr (Nat.zero_lt_succ _))
  | failed =>
    rw [turn_runs h.idle hfront (by simp), hending]
    exact .unpaid (begins_of_opening h.idle hfront (by simp) rfl)

theorem turn_choose (h : e.Chained)
    (hfront : e.queue.steps = ⟨i, .resolve x .chooseTargets⟩ :: rest)
    (hget : e.activations.get? x = some activation) (hlive : activation.isLive)
    (hleft : e.HasLeft activation.ability) : e.ChainTurn (turn.ends e) := by
  obtain ⟨a, -, hability, -⟩ := id hleft
  let e₀ : Engine := { e with queue := e.queue.started rest }
  obtain ⟨e₁, hfilled, hfills⟩ := fillSlots_ends e₀ a x activation a.targets
  have hends : (runStep ⟨i, .resolve x .chooseTargets⟩).ends e₀ = (.ok (), e₁) :=
    (runStep_kind _ _).trans <|
      (resolve_live (e := e₀) .chooseTargets hget hlive hability).trans hfilled
  have hnoted : ∀ chosen, (e₀.noted x chosen).activations.get? x =
      some { activation with targets := activation.targets ++ chosen } := fun chosen =>
    IdMap.get?_modify_self hget _
  cases hfills with
  | resolved chosen _ =>
    have hleaves : e.Leaves { e₀.noted x chosen with
        queue := e₀.queue.push (.resolve x .execute)
        activations := (e₀.noted x chosen).activations.modify x
          ({ · with stage := .targetsResolved }) } := leaves_of_eq rfl rfl rfl rfl
    exact h.goes_on hfront (by simp) rfl hends hleaves rfl rfl
      (.headed (.resolve (IdMap.get?_modify_self (hnoted chosen) _) hleft)
        (h.pends hfront hleaves)) rfl (.inr (Nat.lt_succ_self 1))
  | missed chosen =>
    have hleaves : e.Leaves { e₀.noted x chosen with
        activations := (e₀.noted x chosen).activations.modify x ({ · with cancelled := true }) } :=
      leaves_of_eq rfl rfl rfl rfl
    exact h.goes_on hfront (by simp) rfl hends hleaves rfl rfl
      (.pending (h.pends hfront hleaves)) rfl (.inr (Nat.zero_lt_succ _))
  | @asked chosen slot =>
    have hleaves : e.Leaves { e₀.noted x chosen with
        queue := e₀.queue.push (.prompt (targetPrompt a e₀.board x activation slot.name
          (slot.choices e₀.board activation)))
        activations := (e₀.noted x chosen).activations.modify x
          ({ · with prompt := some e₀.queue.nextStep }) } := leaves_of_eq rfl rfl rfl rfl
    exact h.goes_on hfront (by simp) rfl hends hleaves rfl rfl
      (.headed (.prompt _) (h.pends hfront hleaves)) rfl (.inr (Nat.zero_lt_succ _))

/-! ### Effects -/

/-- An effect leaves cards and entries alone until it is concluded, for it is calm. -/
theorem runStep_execute (h : e.Chained)
    (hfront : e.queue.steps = ⟨i, .resolve x .execute⟩ :: rest)
    (hget : e.activations.get? x = some activation) (hlive : activation.isLive)
    (hability : e.ability? activation.ability = some a) (htriggered : a.kind.isTriggered) :
    ∃ e₁, e.Leaves e₁ ∧ e₁.queue.running = some [] ∧ e₁.queue.steps.Sublist rest ∧
      (runStep ⟨i, .resolve x .execute⟩).ends { e with queue := e.queue.started rest } =
        (conclude a x activation).ends e₁ := by
  let e₀ : Engine := { e with queue := e.queue.started rest }
  have hleaves₀ : e.Leaves e₀ := leaves_of_eq rfl rfl rfl rfl
  have hopening : e.opening (.resolve x .execute) =
      some ⟨.effect a x activation, effectScript a e.board activation⟩ := by
    simp [opening, hget, hability, hlive]
  have hcalm : (effectScript a e.board activation).Calm e₀ := by
    refine h.calm 0 e rfl e₀ a x activation _ ?_ htriggered
    simp [Moment.turn, StepQueue.begin?_front h.idle hfront (by simp), hopening, e₀]
  obtain ⟨e₁, hscript, hleaves₁, hthins⟩ := hcalm.ends rfl
  exact ⟨e₁, hleaves₀.trans hleaves₁, hthins.running, hthins.steps,
    (runStep_ends hopening _).trans (ends_bind_ok hscript _)⟩

theorem turn_execute (h : e.Chained) (hfront : e.queue.steps = ⟨i, .resolve x .execute⟩ :: rest)
    (hget : e.activations.get? x = some activation) (hlive : activation.isLive)
    (hleft : e.HasLeft activation.ability) : e.ChainTurn (turn.ends e) := by
  obtain ⟨a, -, hability, htriggered, -⟩ := id hleft
  obtain ⟨e₁, hleaves, hrunning, hwaiting, hrun⟩ :=
    h.runStep_execute hfront hget hlive hability htriggered
  have hconcluded := conclude_ends e₁ a x activation
  rw [← hrun] at hconcluded
  generalize hending : (runStep ⟨i, .resolve x .execute⟩).ends _ = ending at hconcluded
  -- The use is counted whether or not the played card can be discarded after it.
  have hcounted : (e₁.counting activation.ability).allLeft < e.allLeft := by
    rw [← hleaves.allLeft]
    exact allLeft_counting (hleft.leaves hleaves)
  have hbegins := e.begins_le
  cases hconcluded with
  | @closes e₂ timestamp hends hqueue =>
    have hlabelled₁ : (e₁.counting activation.ability).board.Labelled :=
      show e₁.board.Labelled from labelled_of_leaves h.labelled hleaves
    have hleft₂ : e₂.allLeft ≤ (e₁.counting activation.ability).allLeft := hends.allLeft_le
    have hmetered : ∀ t, e.Metered t → e₂.Metered t := fun t ht =>
      ((ht.leaves hleaves).counting activation.ability).mayDiscard hends
    have hsteps : e₂.finished.queue.steps =
        StepQueue.numbered e₁.queue.nextId (closing a x activation timestamp) ++
          e₁.queue.steps := by
      rw [StepQueue.pushAll_running hrunning] at hqueue
      simp [finished, StepQueue.finish, StepQueue.children, hqueue]
    have hpends : ∀ t ∈ e₁.queue.steps, e₂.Pends t.kind := fun t ht =>
      ((hfront ▸ h.lined : e.Lined (_ :: rest)).behind t (hwaiting.subset ht)).mono hmetered
    refine h.goes hfront (by simp) hending (labelled_of_mayDiscard hlabelled₁ hends)
      (hends.abilities.trans hleaves.abilities) ?_ ?_ (by omega)
    · rw [hsteps]
      exact .headed .event (List.forall_mem_cons.mpr ⟨trivial, hpends⟩)
    · -- The announcement takes up one of the two that the use has set free.
      have hevents : e₂.finished.queue.steps.countP (·.kind.isEvent) = 1 := by
        rw [hsteps, List.countP_append, countP_of_pends hpends]
        rfl
      left
      show 2 * e₂.allLeft + _ < 2 * e.allLeft + _
      omega
  | @stuck e₂ card hleaves₂ hplayed hcard hunlisted =>
    rw [turn_runs h.idle hfront (by simp), hending]
    exact .stuck ⟨hplayed, card, hcard, hunlisted⟩ (by omega)

/-! ### Any step -/

theorem turn (h : e.Chained) : e.ChainTurn (Engine.turn.ends e) := by
  cases hsteps : e.queue.steps with
  | nil =>
    rw [turn_rests h.idle (.inl hsteps)]
    exact .rests (.inl hsteps)
  | cons s rest =>
    obtain ⟨i, kind⟩ := s
    have hlined := h.lined
    rw [hsteps] at hlined
    have hpending : e.Pends kind → e.ChainTurn (Engine.turn.ends e) := fun hpends => by
      cases kind with
      | window w => exact h.turn_window hsteps
      | complete x => exact h.turn_complete hsteps
      | _ => exact hpends.elim
    cases hlined with
    | pending hpends => exact hpending (hpends _ List.mem_cons_self)
    | headed hs =>
      cases hs with
      | event => exact h.turn_event hsteps
      | prompt p =>
        have hrests : e.queue.Rests := .inr (by simp [StepQueue.frontPrompt?, hsteps])
        rw [turn_rests h.idle hrests]
        exact .rests hrests
      | @resolve x stage activation hget hleft =>
        cases hlive : activation.isLive with
        | false => exact h.turn_skipped hsteps hget hlive
        | true =>
          cases stage with
          | payCosts => exact h.turn_pay hsteps hget hlive hleft
          | chooseTargets => exact h.turn_choose hsteps hget hlive hleft
          | execute => exact h.turn_execute hsteps hget hlive hleft

end Chained

end Engine

end Doomtown
