import Doomtown.Proofs.Deeds
import Doomtown.Proofs.Keeps

/-!
# The course of a deed

A deed takes the step that it starts from the front of the queue, makes changes, and ends the step
if nothing of it is left to run. `Moment.Course` lists the forms that this takes, with the one
activation whose steps and records may be changed (`Moment.about?`), and every deed has one of them
(`Moment.Sound.course`), but for the withdrawal of a step by order. From this come invariants that
hold at every moment of every run (`Moment.Ready`).
-/

namespace Doomtown

open Play

/-- The queue while the step that was at its front runs. -/
def StepQueue.started (q : StepQueue) (rest : List Step) : StepQueue :=
  { q with steps := rest, running := some [] }

/-- The step at the front starts, unless it waits for an answer. -/
theorem StepQueue.begin?_front {q : StepQueue} {s : Step} {rest : List Step}
    (hidle : q.running = none) (hfront : q.steps = s :: rest) (hkind : ∀ p, s.kind ≠ .prompt p) :
    q.begin? = some (s, q.started rest) := by
  obtain ⟨i, kind⟩ := s
  unfold begin?
  rw [hidle, hfront]
  cases kind with
  | prompt p => exact absurd rfl (hkind p)
  | _ => rfl

/-! ## What a deed is about -/

/-- The activation that an order enters or retracts. -/
def Engine.entered? (e : Engine) : Order → Option ActivationId
  | .activate _ _ => some ⟨e.nextActivation⟩
  | .retract a _ => e.latestRetractable? a
  | _ => none

/-- The activation that a step takes on: its own, or the one that a window enters. -/
def Engine.takenOn? (e : Engine) : StepKind → Option ActivationId
  | .window _ => some ⟨e.nextActivation⟩
  | kind => kind.part?.map (·.1)

namespace Moment

/-- The step that a deed starts. -/
def starts? (m : Moment) (d : Deed) : Option Step :=
  match m.running, d with
  | none, .turn => m.engine.queue.begin?.map (·.1)
  | none, .answer p n =>
    match m.engine.queue.beginAnswer? with
    | some (i, prompt, _) =>
      if n < prompt.buttons.length ∧ prompt.player = p then some ⟨i, .prompt prompt⟩ else none
    | none => none
  | _, _ => none

/-- The activation that a deed is about. -/
def about? (m : Moment) (d : Deed) : Option ActivationId :=
  match m.running, d with
  | none, .call (.order o) => m.engine.entered? o
  | none, .call _ => none
  | none, d => (m.starts? d).bind fun s => m.engine.takenOn? s.kind
  | some ⟨_, .order o _⟩, .go => m.engine.entered? o
  | some ⟨.effect _ x _, .done⟩, .go => some x
  | some ⟨.effect _ x _, .fail _⟩, .go => some x
  | some _, _ => none

/-- Whether a deed is about an activation. -/
def isAbout (m : Moment) (d : Deed) (x : ActivationId) : Bool := m.about? d = some x

/-- How a deed goes. -/
inductive Course (m : Moment) (d : Deed) : Moment → Prop where
  /-- It is out of place. -/
  | stays (hstarts : m.starts? d = none) : Course m d m
  /-- The engine is called while no step runs. -/
  | call {e' : Engine} (hidle : m.running = none) (hstarts : m.starts? d = none)
      (changes : m.engine.Changes (m.isAbout d) e') : Course m d ⟨e', none⟩
  /-- A step is done as a whole. -/
  | whole {s : Step} {rest : List Step} {e₁ : Engine} (hidle : m.running = none)
      (hstarts : m.starts? d = some s) (hqueue : m.engine.queue.running = none)
      (hfront : m.engine.queue.steps = s :: rest)
      (changes : ({ m.engine with queue := m.engine.queue.started rest } : Engine).Changes
        (m.isAbout d) e₁) : Course m d ⟨e₁.finished, none⟩
  /-- A step starts to run a script. -/
  | opens {s : Step} {rest : List Step} {r : Running} (hidle : m.running = none)
      (hstarts : m.starts? d = some s) (hqueue : m.engine.queue.running = none)
      (hfront : m.engine.queue.steps = s :: rest)
      (heffect : ∀ a x activation, r.task = .effect a x activation →
        s.kind.part? = some (x, .execute) ∧ m.isAbout d x) :
    Course m d ⟨{ m.engine with queue := m.engine.queue.started rest }, some r⟩
  /-- A script goes on. -/
  | goes {task : Task} {script script' : Script} {e' : Engine}
      (hrunning : m.running = some ⟨task, script⟩)
      (changes : m.engine.Changes (m.isAbout d) e') : Course m d ⟨e', some ⟨task, script'⟩⟩
  /-- A script ends, and with it its step. -/
  | closes {r : Running} {e₁ : Engine} (usage : UsageTracker) (hrunning : m.running = some r)
      (heffect : ∀ a x activation, r.task = .effect a x activation → m.isAbout d x)
      (changes : ({ m.engine with usage := usage } : Engine).Changes (m.isAbout d) e₁) :
    Course m d ⟨e₁.finished, none⟩

variable {m m' : Moment} {d : Deed} {x : ActivationId}

/-! ## Every deed has a course -/

/-- Retracting changes one activation, whose prompt it withdraws. -/
theorem Sound.changes_retract (h : m.Sound) {mine : ActivationId → Bool} (a : AbilityId)
    (p : PlayerId) (hmine : ∀ x, m.engine.latestRetractable? a = some x → mine x) :
    m.engine.Changes mine ((Engine.retract a p).ends m.engine).2 := by
  have hends := Engine.retract_ends m.engine a p
  generalize (Engine.retract a p).ends m.engine = ending at hends
  cases hends with
  | refused => exact .refl
  | failed => exact .single (.board _)
  | @retracted x activation b hlatest hget _ _ =>
    have hx := hmine x hlatest
    -- The prompt goes first, while its step waits as it did before.
    have hprompt : m.engine.Changes mine { m.engine with
        queue := Engine.withdrawPrompt m.engine.queue activation.prompt } := by
      unfold Engine.withdrawPrompt
      cases hi : activation.prompt with
      | none => exact .refl
      | some i =>
        refine .single (.withdraw fun s hs hsi => ⟨x, ?_, hx⟩)
        exact (h.prompts x activation i hget hi).2 s hs hsi
    refine hprompt.tail (.file (fun y hy => ?_)) |>.tail (.board b) |>.tail
      (.forget (fun y => .inl rfl) ?_)
    · exact IdMap.get?_modify_of_ne _ (fun hne => by simp [← hne, hx] at hy) _
    · have hdrop := (List.eraseP_sublist (p := fun t => decide (t.1 = a))
        (l := m.engine.retractable.reverse)).reverse
      rw [List.reverse_reverse] at hdrop
      exact hdrop

/-- An order changes the activation that it is about, and withdraws no step that waits. -/
theorem Sound.changes_carryOut (h : m.Sound) {mine : ActivationId → Bool} (o : Order)
    (hmine : ∀ x, m.engine.entered? o = some x → mine x)
    (hkeeps : ∀ i, o = .withdraw i → m.engine.queue.contains i = false) :
    m.engine.Changes mine (o.carryOut.ends m.engine).2 := by
  by_cases hactivate : ∃ a p, o = .activate a p
  · obtain ⟨a, p, rfl⟩ := hactivate
    exact Engine.changes_activate (hmine _ rfl) a p
  by_cases hretract : ∃ a p, o = .retract a p
  · obtain ⟨a, p, rfl⟩ := hretract
    exact h.changes_retract a p hmine
  by_cases hwithdraw : ∃ i, o = .withdraw i
  · obtain ⟨i, rfl⟩ := hwithdraw
    show m.engine.Changes mine ((Engine.withdraw i).ends m.engine).2
    unfold Engine.withdraw
    rw [ends_bind_ok (ends_look _), hkeeps i rfl]
    exact .refl
  · exact Engine.changes_order o (fun a p ho => hactivate ⟨a, p, ho⟩)
      (fun a p ho => hretract ⟨a, p, ho⟩) (fun i ho => hwithdraw ⟨i, ho⟩) m.engine

/-- What a step does changes the activation that it takes on. -/
theorem changes_runStep {e : Engine} {mine : ActivationId → Bool} (s : Step)
    (hopening : e.opening s.kind = none) (hmine : ∀ x, e.takenOn? s.kind = some x → mine x) :
    e.Changes mine ((Engine.runStep s).ends e).2 := by
  rw [Engine.runStep_kind]
  obtain ⟨i, kind⟩ := s
  dsimp only at hopening hmine ⊢
  cases kind with
  | task label body => simp [Engine.opening] at hopening
  | prompt p => exact .refl
  | window w => exact Engine.changes_advance (hmine _ rfl) w
  | complete x => exact Engine.changes_modifyActivation (hmine x rfl) _ _
  | event event change =>
    cases change with
    | script body => simp [Engine.opening] at hopening
    | emitted x =>
      have hx := hmine x rfl
      exact Play.Chains.bind (Engine.changes_modifyActivation hx _)
        (fun _ => Engine.changes_openWindow event) _
  | resolve x stage =>
    have hx : mine x := by cases stage <;> exact hmine x rfl
    unfold Engine.resolve
    rw [ends_bind_ok (ends_look _)]
    cases hget : e.activations.get? x with
    | none => exact .refl
    | some activation =>
      dsimp only
      by_cases hlive : activation.isLive
      · simp only [hlive, Bool.not_true, Bool.false_eq_true, if_false]
        cases hability : e.ability? activation.ability with
        | none => rw [ends_bind_error (Engine.getAbility_missing hability)]
        | some a =>
          rw [ends_bind_ok (Engine.getAbility_ends hability)]
          cases stage with
          | payCosts => exact Engine.changes_payCosts a hx activation _
          | chooseTargets => exact Engine.changes_fillSlots a hx activation a.targets _
          | execute =>
            -- It would have been opened as a script.
            simp [Engine.opening, hget, hability, hlive] at hopening
      · simp only [hlive, Bool.not_false, if_true]
        exact .refl

/-- A turn of the queue. -/
theorem turn_course (hrunning : m.running = none) : m.Course .turn (turn m.engine) := by
  have hstarts : m.starts? .turn = m.engine.queue.begin?.map (·.1) := by
    unfold starts?
    rw [hrunning]
  unfold turn
  cases hbegin : m.engine.queue.begin? with
  | none =>
    rw [hbegin] at hstarts
    obtain ⟨e, running⟩ := m
    subst hrunning
    exact .stays hstarts
  | some sq =>
    obtain ⟨s, q⟩ := sq
    rw [hbegin] at hstarts
    have habout : m.about? .turn = m.engine.takenOn? s.kind := by
      unfold about?
      simp [hrunning, hstarts]
    obtain ⟨rest, hqueue, hfront, rfl⟩ := StepQueue.begin?_eq_some hbegin
    dsimp only
    cases hopening : m.engine.opening s.kind with
    | none =>
      dsimp only
      rw [Engine.asStep_ends]
      refine .whole hrunning hstarts hqueue hfront (changes_runStep s hopening fun x hx => ?_)
      rw [isAbout, habout]
      exact decide_eq_true hx
    | some r =>
      refine .opens hrunning hstarts hqueue hfront fun a x activation hr => ?_
      rcases Engine.opening_cases hopening with ⟨_, _, _, rfl⟩ | ⟨_, _, _, rfl⟩ |
        ⟨y, _, _, hkind, _, _, _, rfl⟩
      · simp at hr
      · simp at hr
      · obtain ⟨-, rfl, -⟩ := Task.effect.inj hr
        simp [isAbout, habout, hkind, StepKind.part?, Engine.takenOn?]

/-- An answer to a prompt. -/
theorem respond_course (hrunning : m.running = none) (p : PlayerId) (n : Nat) :
    m.Course (.answer p n) (respond m.engine p n) := by
  have hstarts : m.starts? (.answer p n) = match m.engine.queue.beginAnswer? with
      | some (i, prompt, _) =>
        if n < prompt.buttons.length ∧ prompt.player = p then some ⟨i, .prompt prompt⟩ else none
      | none => none := by
    unfold starts?
    rw [hrunning]
  have hstays : m.starts? (.answer p n) = none → m.Course (.answer p n) ⟨m.engine, none⟩ := by
    intro hnone
    obtain ⟨e, running⟩ := m
    subst hrunning
    exact .stays hnone
  unfold respond
  cases hbegin : m.engine.queue.beginAnswer? with
  | none =>
    rw [hbegin] at hstarts
    exact hstays hstarts
  | some ipq =>
    obtain ⟨i, prompt, q⟩ := ipq
    rw [hbegin] at hstarts
    dsimp only at hstarts ⊢
    by_cases hvalid : n < prompt.buttons.length ∧ prompt.player = p
    · rw [if_pos hvalid] at hstarts ⊢
      have habout : m.about? (.answer p n) = (StepKind.prompt prompt).part?.map (·.1) := by
        unfold about?
        simp [hrunning, hstarts, Engine.takenOn?]
      obtain ⟨rest, hqueue, hfront, rfl⟩ := StepQueue.beginAnswer?_eq_some hbegin
      obtain ⟨view, player, reply⟩ := prompt
      cases reply with
      | script answers =>
        refine .opens hrunning hstarts hqueue hfront fun a x activation hr => ?_
        simp at hr
      | target x slot choices =>
        have hx : m.isAbout (.answer p n) x := by simp [isAbout, habout, StepKind.part?]
        dsimp only
        rw [Engine.asStep_ends]
        exact .whole hrunning hstarts hqueue hfront
          (Engine.changes_chooseTarget hx slot choices n _)
      | offer x alternatives =>
        have hx : m.isAbout (.answer p n) x := by simp [isAbout, habout, StepKind.part?]
        dsimp only
        rw [Engine.asStep_ends]
        refine .whole hrunning hstarts hqueue hfront ?_
        exact Play.Chains.ite (Engine.changes_dropActivation hx) (Engine.changes_accept hx _) _
    · rw [if_neg hvalid] at hstarts ⊢
      exact hstays hstarts

/-- A call from outside. -/
theorem Sound.call_course (h : m.Sound) (hrunning : m.running = none) (c : Call)
    (hkeeps : ∀ i ∈ m.withdraws (.call c), m.engine.queue.contains i = false) :
    m.Course (.call c) ⟨(c.play.ends m.engine).2, none⟩ := by
  have hstarts : m.starts? (.call c) = none := by
    unfold starts?
    rw [hrunning]
  refine .call hrunning hstarts ?_
  cases c with
  | order o =>
    rw [Call.play, ends_discard]
    refine h.changes_carryOut o (fun x hx => ?_) fun i ho => hkeeps i ?_
    · simpa [isAbout, about?, hrunning] using hx
    · simp [withdraws, hrunning, ho]
  | board f => exact .single (.board _)
  | attach card design => exact Play.Chains.discard (Engine.changes_addAbility card design) _
  | refresh card => exact Engine.changes_refresh card _
  | clear ability => exact Engine.changes_clearRetractable ability _
  | raise event change => exact Engine.changes_raise event (by simp) _
  | queue label body =>
    exact Play.Chains.discard (Engine.changes_post (StepKind.onlyFor_of_none rfl)) _
  | ask player title buttons source answers =>
    exact Play.Chains.discard (Engine.changes_post (StepKind.onlyFor_of_none rfl)) _

/-- A script that goes on, to its end if it has ended. -/
theorem Sound.go_course {e : Engine} {task : Task} {script : Script}
    (h : Sound ⟨e, some ⟨task, script⟩⟩)
    (hkeeps : ∀ i ∈ withdraws ⟨e, some ⟨task, script⟩⟩ .go, e.queue.contains i = false) :
    Course ⟨e, some ⟨task, script⟩⟩ .go (go e task script) := by
  cases script with
  | done =>
    cases task with
    | plain => exact .closes e.usage rfl (by simp) .refl
    | event event => exact .closes e.usage rfl (by simp) (Engine.changes_openWindow event e)
    | effect a x activation =>
      have hx : isAbout ⟨e, some ⟨.effect a x activation, .done⟩⟩ .go x := by
        simp [isAbout, about?]
      refine .closes (e.usage.increment activation.ability) rfl ?_ ?_
      · intro a' x' activation' hr
        obtain ⟨-, rfl, -⟩ := Task.effect.inj hr
        exact hx
      · refine Play.Chains.bind (Engine.changes_noteHeadline a.source)
          (fun _ => .bind (Engine.changes_modifyActivation hx _) fun _ => ?_) _
        exact Engine.changes_concluded hx a.source activation
  | fail err =>
    refine .closes e.usage rfl ?_ .refl
    intro a x activation hr
    cases hr
    simp [isAbout, about?]
  | look next => exact .goes rfl .refl
  | order o next =>
    refine .goes rfl (h.changes_carryOut o (fun x hx => ?_) fun i ho => hkeeps i ?_)
    · exact decide_eq_true hx
    · subst ho
      rfl
  | raise event change next => exact .goes rfl (Engine.changes_raise event (by simp) e)
  | queue label body next =>
    exact .goes rfl (Engine.changes_post (StepKind.onlyFor_of_none rfl) e)
  | prompt player title buttons source answers next =>
    exact .goes rfl (Engine.changes_post (StepKind.onlyFor_of_none rfl) e)

/-- Every deed that withdraws no step by order has a course. -/
theorem Sound.course (h : m.Sound) (d : Deed)
    (hkeeps : ∀ i ∈ m.withdraws d, m.engine.queue.contains i = false) :
    m.Course d (m.after d) := by
  obtain ⟨e, running⟩ := m
  cases running with
  | none =>
    cases d with
    | call c => exact h.call_course rfl c hkeeps
    | turn => exact turn_course rfl
    | answer p n => exact respond_course rfl p n
    | go => exact .stays rfl
  | some r =>
    obtain ⟨task, script⟩ := r
    cases d with
    | go => exact h.go_course hkeeps
    | _ => cases task <;> cases script <;> exact .stays rfl

/-- A deed that withdraws a waiting step by order does nothing else. -/
theorem after_withdraws {i : StepId} (hd : m.withdraws d = some i)
    (hcontains : m.engine.queue.contains i) :
    (m.after d).engine = { m.engine with queue := m.engine.queue.withdraw i } ∧
      (m.after d).running.isSome = m.running.isSome := by
  have hends : ((Engine.withdraw i).ends m.engine).2 =
      { m.engine with queue := m.engine.queue.withdraw i } := by
    unfold Engine.withdraw
    rw [ends_bind_ok (ends_look _), if_pos hcontains]
    rfl
  obtain ⟨e, running⟩ := m
  unfold withdraws at hd
  split at hd
  · rename_i hrunning
    obtain rfl : running = none := hrunning
    obtain rfl := Option.some.inj hd
    rw [← hends]
    exact ⟨congrArg Prod.snd (ends_discard _ _), rfl⟩
  · rename_i task _ next hrunning
    obtain rfl : running = some ⟨task, _⟩ := hrunning
    obtain rfl := Option.some.inj hd
    exact ⟨hends, rfl⟩
  · simp at hd

/-- A turn starts the step at the front. -/
theorem begin?_of_starts {s : Step} (hstarts : m.starts? .turn = some s) :
    ∃ q, m.running = none ∧ m.engine.queue.begin? = some (s, q) ∧ m.after .turn = turn m.engine := by
  obtain ⟨e, running⟩ := m
  cases running with
  | some r => simp [starts?] at hstarts
  | none =>
    obtain ⟨⟨s', q⟩, hbegin, rfl⟩ := Option.map_eq_some_iff.mp hstarts
    exact ⟨q, rfl, hbegin, rfl⟩

/-- An answer starts the prompt at the front, and does what the button stands for. -/
theorem beginAnswer?_of_starts {p : PlayerId} {n : Nat} {s : Step}
    (hstarts : m.starts? (.answer p n) = some s) :
    ∃ i prompt q, m.running = none ∧ m.engine.queue.beginAnswer? = some (i, prompt, q) ∧
      s = ⟨i, .prompt prompt⟩ ∧ n < prompt.buttons.length ∧
      m.after (.answer p n) = match prompt.answer with
        | .script answers => ⟨{ m.engine with queue := q }, some ⟨.plain, answers n⟩⟩
        | other => ⟨((Engine.asStep q (Engine.answerWith n other)).ends m.engine).2, none⟩ := by
  obtain ⟨e, running⟩ := m
  cases running with
  | some r => simp [starts?] at hstarts
  | none =>
    have hafter : after ⟨e, none⟩ (.answer p n) = respond e p n := rfl
    change (match e.queue.beginAnswer? with
      | some (i, prompt, _) =>
        if n < prompt.buttons.length ∧ prompt.player = p then some ⟨i, .prompt prompt⟩ else none
      | none => none) = some s at hstarts
    cases hbegin : e.queue.beginAnswer? with
    | none => simp [hbegin] at hstarts
    | some ipq =>
      obtain ⟨i, prompt, q⟩ := ipq
      rw [hbegin] at hstarts
      dsimp only at hstarts
      by_cases hvalid : n < prompt.buttons.length ∧ prompt.player = p
      · rw [if_pos hvalid] at hstarts
        refine ⟨i, prompt, q, rfl, rfl, (Option.some.inj hstarts).symm, hvalid.1, ?_⟩
        rw [hafter]
        unfold respond
        cases hanswer : prompt.answer <;> simp only [hbegin, if_pos hvalid, hanswer]
      · rw [if_neg hvalid] at hstarts
        simp at hstarts

/-- A step that a deed starts was at the front. -/
theorem frontTaken_of_starts {s : Step} (hstarts : m.starts? d = some s) :
    ∃ q, m.running = none ∧ m.engine.queue.FrontTaken s q := by
  cases d with
  | turn =>
    obtain ⟨q, hrunning, hbegin, -⟩ := begin?_of_starts hstarts
    exact ⟨q, hrunning, StepQueue.frontTaken_begin hbegin⟩
  | answer p n =>
    obtain ⟨i, prompt, q, hrunning, hbegin, rfl, -⟩ := beginAnswer?_of_starts hstarts
    exact ⟨q, hrunning, StepQueue.frontTaken_beginAnswer hbegin⟩
  | _ => cases hr : m.running <;> simp [starts?, hr] at hstarts

theorem mem_order_of_starts {s : Step} (hstarts : m.starts? d = some s) :
    s ∈ m.engine.queue.order := by
  obtain ⟨q, -, htaken⟩ := frontTaken_of_starts hstarts
  rw [htaken.order]
  exact List.mem_cons_self

/-- But for the queue and the count of a use, a deed makes the changes of its course. -/
theorem Course.changes (h : m.Course d m') :
    ∃ q q' usage e₁, ({ m.engine with queue := q, usage := usage } : Engine).Changes (m.isAbout d)
      e₁ ∧ m'.engine = { e₁ with queue := q' } := by
  cases h with
  | stays _ => exact ⟨m.engine.queue, m.engine.queue, m.engine.usage, m.engine, .refl, rfl⟩
  | @call e' _ _ changes => exact ⟨_, e'.queue, _, e', changes, rfl⟩
  | whole _ _ _ _ changes => exact ⟨_, _, _, _, changes, rfl⟩
  | @opens s rest r _ _ _ _ _ =>
    exact ⟨m.engine.queue, m.engine.queue.started rest, m.engine.usage, m.engine, .refl, rfl⟩
  | @goes _ _ _ e' _ changes => exact ⟨_, e'.queue, _, e', changes, rfl⟩
  | closes usage _ _ changes => exact ⟨_, _, usage, _, changes, rfl⟩

/-- What a deed is not about keeps its record, or it had ended and is forgotten. -/
theorem Sound.record_of_not_about (h : m.Sound) (hx : m.isAbout d x = false) :
    (m.after d).engine.activations.get? x = m.engine.activations.get? x ∨
      ∃ activation, m.engine.activations.get? x = some activation ∧
        activation.stage.isTerminal ∧ (m.after d).engine.activations.get? x = none := by
  by_cases hkeeps : ∀ i ∈ m.withdraws d, m.engine.queue.contains i = false
  · obtain ⟨_, _, _, e₁, hchanges, hafter⟩ := (h.course d hkeeps).changes
    have hspares : Engine.Spares (m.isAbout d) True _ e₁ := hchanges.spares
    rw [hafter]
    exact hspares.activations x hx
  · push Not at hkeeps
    obtain ⟨i, hi, hcontains⟩ := hkeeps
    rw [(after_withdraws hi (by simpa using hcontains)).1]
    exact .inl rfl

/-! ## What waits after a deed -/

/-- A deed lets new steps wait, with numbers not given before, of activations that it is about. -/
theorem Course.steps (h : m.Course d m') :
    m.engine.queue.nextId ≤ m'.engine.queue.nextId ∧
      ∀ s ∈ m'.engine.queue.order, s ∈ m.engine.queue.order ∨
        m.engine.queue.nextId ≤ s.id.number ∧ s.kind.OnlyFor (m.isAbout d) := by
  have hstarted : ∀ {s : Step} {rest : List Step}, m.engine.queue.steps = s :: rest →
      ∀ t ∈ (m.engine.queue.started rest).order, t ∈ m.engine.queue.order := by
    intro s rest hfront t ht
    have ht' : t ∈ rest := ht
    simp [StepQueue.order, hfront, ht']
  cases h with
  | stays _ => exact ⟨Nat.le_refl _, fun s hs => .inl hs⟩
  | call _ _ changes => exact ⟨changes.keeps.ids, changes.keeps.steps⟩
  | whole _ _ _ hfront changes =>
    refine ⟨changes.keeps.ids, fun t ht => ?_⟩
    exact (changes.keeps.steps t ht).imp_left (hstarted hfront t)
  | opens _ _ _ hfront _ => exact ⟨Nat.le_refl _, fun t ht => .inl (hstarted hfront t ht)⟩
  | goes _ changes => exact ⟨changes.keeps.ids, changes.keeps.steps⟩
  | closes _ _ _ changes => exact ⟨changes.keeps.ids, changes.keeps.steps⟩

/-- A step of an activation that waits has waited before, or the deed is about the activation. -/
theorem Sound.waited_or_about (h : m.Sound) {s : Step} {p : Part}
    (hs : s ∈ (m.after d).engine.queue.order) (hpart : s.kind.part? = some (x, p)) :
    s ∈ m.engine.queue.order ∨ m.isAbout d x := by
  by_cases hkeeps : ∀ i ∈ m.withdraws d, m.engine.queue.contains i = false
  · exact ((h.course d hkeeps).steps.2 s hs).imp_right fun hnew => hnew.2.part _ hpart
  · push Not at hkeeps
    obtain ⟨i, hi, hcontains⟩ := hkeeps
    rw [(after_withdraws hi (by simpa using hcontains)).1] at hs
    exact .inl ((m.engine.queue.order_withdraw_sublist i).subset hs)

/-- A waiting step that belongs to no activation goes on waiting until it is started, and nothing
gets behind it but what the engine is called to queue. -/
theorem Course.behind (h : m.Course d m')
    (hqueue : m.engine.queue.running.isSome = m.running.isSome) {s : Step}
    (hs : s.kind.part? = none) (hstarts : m.starts? d ≠ some s) {front back : List Step}
    (hsplit : m.engine.queue.steps = front ++ s :: back) :
    ∃ front' back', m'.engine.queue.steps = front' ++ s :: back' ∧
      ∀ t ∈ back', t ∈ back ∨
        m.running = none ∧ m.starts? d = none ∧ m.engine.queue.nextId ≤ t.id.number := by
  have hfinished : ∀ {e₁ : Engine} {front' back' : List Step},
      e₁.queue.steps = front' ++ s :: back' →
      e₁.finished.queue.steps = (e₁.queue.children ++ front') ++ s :: back' := by
    intro e₁ front' back' hsteps
    show e₁.queue.children ++ e₁.queue.steps = _
    rw [hsteps, List.append_assoc]
  -- What starts is in front of the step, for it is another.
  have hrest : ∀ {s₀ : Step} {rest : List Step}, m.starts? d = some s₀ →
      m.engine.queue.steps = s₀ :: rest → ∃ front₁, rest = front₁ ++ s :: back := by
    intro s₀ rest hstarts₀ hfront
    rw [hsplit] at hfront
    cases front with
    | nil =>
      obtain ⟨rfl, -⟩ := List.cons.inj hfront
      exact absurd hstarts₀ hstarts
    | cons s₁ front₁ => exact ⟨front₁, (List.cons.inj hfront).2.symm⟩
  have hquiet : ∀ {r : Running}, m.running = some r → m.engine.queue.running ≠ none := by
    intro r hrunning hnone
    rw [hrunning, hnone] at hqueue
    simp at hqueue
  cases h with
  | stays _ => exact ⟨front, back, hsplit, fun t ht => .inl ht⟩
  | call hidle hnone changes =>
    obtain ⟨front', back', hsplit', hback⟩ := changes.keeps.behind s hs front back hsplit
    exact ⟨front', back', hsplit', fun t ht =>
      (hback t ht).imp_right fun hnew => ⟨hidle, hnone, hnew.2⟩⟩
  | whole _ hstarts₀ _ hfront changes =>
    obtain ⟨front₁, hrest⟩ := hrest hstarts₀ hfront
    obtain ⟨front', back', hsplit', hback⟩ := changes.keeps.behind s hs front₁ back hrest
    exact ⟨_, back', hfinished hsplit', fun t ht =>
      (hback t ht).imp_right fun hnew => by simp [StepQueue.started] at hnew⟩
  | opens _ hstarts₀ _ hfront _ =>
    obtain ⟨front₁, hrest⟩ := hrest hstarts₀ hfront
    exact ⟨front₁, back, hrest, fun t ht => .inl ht⟩
  | goes hrunning changes =>
    obtain ⟨front', back', hsplit', hback⟩ := changes.keeps.behind s hs front back hsplit
    exact ⟨front', back', hsplit', fun t ht =>
      (hback t ht).imp_right fun hnew => absurd hnew.1 (hquiet hrunning)⟩
  | closes _ hrunning _ changes =>
    obtain ⟨front', back', hsplit', hback⟩ := changes.keeps.behind s hs front back hsplit
    exact ⟨_, back', hfinished hsplit', fun t ht =>
      (hback t ht).imp_right fun hnew => absurd hnew.1 (hquiet hrunning)⟩

/-! ## What holds at every moment -/

/-- What holds at every moment besides `Sound`: the queue knows of the script that runs, prompts for
targets have a button for each, and what can be retracted was given its number before. -/
structure Ready (m : Moment) : Prop where
  running : m.engine.queue.running.isSome = m.running.isSome
  apt : ∀ s ∈ m.engine.queue.order, s.kind.Apt
  retractable : ∀ t ∈ m.engine.retractable, t.2.number < m.engine.nextActivation

namespace Ready

/-- Where a chain of changes leads, the steps are as they should be if they were before. -/
theorem apt_of_keeps {mine : ActivationId → Bool} {e e' : Engine} (h : e.Keeps mine e')
    (hapt : ∀ s ∈ e.queue.order, s.kind.Apt) : ∀ s ∈ e'.queue.order, s.kind.Apt := by
  intro s hs
  rcases h.steps s hs with hs | ⟨-, honly⟩
  · exact hapt s hs
  · exact honly.apt

theorem retractable_of_keeps {mine : ActivationId → Bool} {e e' : Engine} (h : e.Keeps mine e')
    (hnumbers : ∀ t ∈ e.retractable, t.2.number < e.nextActivation) :
    ∀ t ∈ e'.retractable, t.2.number < e'.nextActivation := by
  intro t ht
  have hnext := h.numbers
  rcases h.retractable t ht with ht | ⟨-, -, hlt⟩
  · have hold := hnumbers t ht
    omega
  · exact hlt

theorem of_course (h : m.Ready) (hcourse : m.Course d m') : m'.Ready := by
  cases hcourse with
  | stays _ => exact h
  | call hidle _ changes =>
    have hkeeps := changes.keeps
    refine ⟨?_, apt_of_keeps hkeeps h.apt, retractable_of_keeps hkeeps h.retractable⟩
    have hrunning := h.running
    rw [hidle] at hrunning
    exact hkeeps.running.trans hrunning
  | @whole s rest e₁ _ _ hqueue hfront changes =>
    have hkeeps := changes.keeps
    have hnumbers := retractable_of_keeps hkeeps h.retractable
    have hapt := apt_of_keeps hkeeps fun t ht => h.apt t (by
      -- With the step started, those wait that waited behind it.
      have ht' : t ∈ rest := ht
      simp [StepQueue.order, hfront, ht'])
    exact ⟨rfl, hapt, hnumbers⟩
  | @opens s rest r _ _ hqueue hfront _ =>
    refine ⟨rfl, fun t ht => h.apt t ?_, h.retractable⟩
    have ht' : t ∈ rest := ht
    simp [StepQueue.order, hfront, ht']
  | goes hrunning changes =>
    have hkeeps := changes.keeps
    refine ⟨?_, apt_of_keeps hkeeps h.apt, retractable_of_keeps hkeeps h.retractable⟩
    have hrunning' := h.running
    rw [hrunning] at hrunning'
    exact hkeeps.running.trans hrunning'
  | closes usage _ _ changes =>
    have hkeeps := changes.keeps
    have hapt := apt_of_keeps hkeeps h.apt
    have hnumbers := retractable_of_keeps hkeeps h.retractable
    exact ⟨rfl, hapt, hnumbers⟩

theorem after (h : m.Ready) (hsound : m.Sound) (d : Deed) : (m.after d).Ready := by
  by_cases hkeeps : ∀ i ∈ m.withdraws d, m.engine.queue.contains i = false
  · exact h.of_course (hsound.course d hkeeps)
  · push Not at hkeeps
    obtain ⟨i, hi, hcontains⟩ := hkeeps
    obtain ⟨hengine, hrunning⟩ := after_withdraws hi (by simpa using hcontains)
    obtain ⟨-, -, hqueue, -⟩ := m.engine.queue.withdraw_sublist i
    refine ⟨?_, fun s hs => ?_, ?_⟩
    · rw [hengine, hrunning]
      exact hqueue.trans h.running
    · rw [hengine] at hs
      exact h.apt s ((m.engine.queue.order_withdraw_sublist i).subset hs)
    · rw [hengine]
      exact h.retractable

theorem run (h : m.Ready) (hsound : m.Sound) (ds : List Deed) : (m.run ds).Ready := by
  induction ds generalizing m with
  | nil => exact h
  | cons d ds ih => exact ih (h.after hsound d) (hsound.after d)

end Ready

/-- At the start nothing waits and nothing can be retracted. -/
theorem ready_start (b : Board) : (start b).Ready where
  running := rfl
  apt s hs := by simp [start, Engine.new, StepQueue.order, StepQueue.children, StepQueue.empty] at hs
  retractable t ht := by simp [start, Engine.new] at ht

end Moment

end Doomtown
