import Doomtown.Proofs.Takes

/-!
# Every deed is a passage

A deed starts a step, answers a prompt, goes on with a script or calls the engine from outside. Each
of them is a passage from moment to moment (`Moment.passage`), so the invariant holds at every
moment of every run (`Moment.Sound.run`), and a run does to the queue only what a chronicle can
write down (`Moment.run_queue`).
-/

namespace Doomtown

open Play

namespace Moment

variable {m m' : Moment} {kept : Prop} {x : ActivationId}

/-- Nothing is to be taken on where nothing waits, but what can be retracted. -/
theorem stage_of_advance_nil {admits : AbilityId → Prop} {activation : Activation}
    {a' : Option Activation} {ps : List Part} {o : Option Occurrence}
    (h : Advance admits (some activation) [] o a' ps) : activation.stage = .costsPaid := by
  cases h with
  | retract hstage _ => exact hstage

/-- An activation for which something waits has a number that was given. -/
theorem Sound.number_lt (h : m.Sound) (hparts : m.partsOf x ≠ []) :
    x.number < m.engine.nextActivation := by
  by_contra hge
  exact hparts (h.fresh x (Nat.le_of_not_lt hge)).2

/-- A play that takes on what it finds is a passage, whatever goes on running. -/
theorem passage_of_passes (h : m.Sound) (hpasses : m.engine.Passes kept m'.engine)
    (heffect : m'.effect? = m.effect?) : Passage kept m none m' := by
  rcases hpasses with hspares | ⟨x, htakes, hnumber, hentry⟩
  · exact .spare hspares heffect
  · -- What is taken on is not what has its effect running.
    have hother : ∀ t, m.effect? = some t → t.2.1 ≠ x := by
      rintro ⟨a, y, activation⟩ ht rfl
      obtain ⟨hstage, hnone⟩ := h.effect_stage ht
      have hadvance := htakes.advance
      rw [h.running a y activation ht, hnone] at hadvance
      rw [stage_of_advance_nil hadvance] at hstage
      simp at hstage
    refine .step (o := none) x (htakes.spares kept) (fun t ht => .inl ?_) ?_ htakes.prompt hnumber
      fun hnone _ => hentry hnone
    · rw [heffect] at ht
      exact ⟨hother t ht, ht⟩
    · rw [partsOf_of_no_effect hother, partsOf_of_no_effect (heffect ▸ hother)]
      exact htakes.advance

/-- What is taken on of an activation for which something waits is a passage. -/
theorem Sound.passage_of_parts (h : m.Sound) (hparts : m.partsOf x ≠ []) {o : Option Occurrence}
    (spares : (m.counted x o).Spares (· = x) kept m'.engine)
    (effect : ∀ t, m'.effect? = some t → t.2.1 ≠ x ∧ m.effect? = some t ∨
      t.2.1 = x ∧ m'.engine.activations.get? x = some t.2.2)
    (advance : Advance m.engine.Admits (m.engine.activations.get? x) (m.partsOf x) o
      (m'.engine.activations.get? x) (m'.partsOf x))
    (prompt : ∀ activation' i, m'.engine.activations.get? x = some activation' →
      activation'.prompt = some i → m'.engine.AsksTarget x i ∨
        ∃ activation, m.engine.activations.get? x = some activation ∧ activation.prompt = some i) :
    Passage kept m (o.map fun o => (x, o)) m' := by
  have hnumbers := spares.numbers
  obtain ⟨usage, husage⟩ := m.counted_eq x o
  rw [husage] at hnumbers
  exact .step x spares effect advance prompt (Nat.lt_of_lt_of_le (h.number_lt hparts) hnumbers)
    fun _ hnil => absurd hnil hparts

/-- At the front, a step fits what is filed. -/
theorem Sound.fits_front (h : m.Sound) (hrunning : m.running = none) {q : StepQueue} {s : Step}
    {p : Part} (hpart : s.kind.part? = some (x, p)) (htaken : m.engine.queue.FrontTaken s q) :
    m.partsOf x = p :: q.partsOf x ∧
      Fits (m.engine.activations.get? x) (p :: q.partsOf x) := by
  have hparts : m.partsOf x = p :: q.partsOf x := by
    rw [partsOf_idle hrunning]
    exact StepQueue.partsOf_begin htaken.order hpart
  exact ⟨hparts, hparts ▸ h.fits x⟩

/-- A step of an activation that is done as a whole is a passage, if it is such from where the
activation stands once the step has started. -/
theorem passage_of_takes (h : m.Sound) (hrunning : m.running = none) {q : StepQueue} {s : Step}
    {p : Part} {o : Option Occurrence} {e' : Engine} (hpart : s.kind.part? = some (x, p))
    (htaken : m.engine.queue.FrontTaken s q) (ho : o ≠ some .counted)
    (htakes : Fits (m.engine.activations.get? x) (p :: q.partsOf x) →
      Engine.Takes m.engine.Admits x { m.engine with queue := q } (m.engine.activations.get? x)
        (p :: q.partsOf x) o e') :
    Passage kept m (o.map fun o => (x, o)) ⟨e'.finished, none⟩ := by
  obtain ⟨hparts, hfits⟩ := h.fits_front hrunning hpart htaken
  have htakes := htakes hfits
  rw [← hparts] at htakes
  have hcounted : m.counted x o = m.engine := by
    unfold counted
    split
    · exact absurd rfl ho
    · rfl
  have hbegin : m.engine.Spares (· = x) kept { m.engine with queue := q } :=
    Engine.spares_begin (by simp [hpart]) htaken
  refine h.passage_of_parts (by simp [hparts]) ?_ (fun t ht => by simp [effect?] at ht)
    htakes.advance htakes.prompt
  rw [hcounted]
  exact (hbegin.trans (htakes.spares kept)).trans (Engine.spares_finished e')

/-- A step of no activation starts. -/
theorem spares_begin_foreign {e : Engine} {q : StepQueue} {s : Step} (hpart : s.kind.part? = none)
    (htaken : e.queue.FrontTaken s q) (kept : Prop) :
    e.Spares (fun _ => false) kept { e with queue := q } :=
  Engine.spares_begin (by simp [hpart]) htaken

/-- What is taken on while a step of no activation runs is taken on from where it stood before. -/
theorem passes_of_begin {e e' : Engine} {q : StepQueue} {s : Step} (hpart : s.kind.part? = none)
    (htaken : e.queue.FrontTaken s q)
    (h : ({ e with queue := q } : Engine).Passes kept e') : e.Passes kept e' := by
  have hbegin := spares_begin_foreign hpart htaken
  rcases h with hspares | ⟨x, htakes, hnumber, hentry⟩
  · exact .inl ((hbegin kept).trans hspares)
  · refine .inr ⟨x, ⟨fun kept' => ?_, ?_, htakes.prompt⟩, hnumber, hentry⟩
    · exact ((hbegin kept').mono (fun _ _ => rfl) id).trans (htakes.spares kept')
    · -- The step that runs is no part, so the same parts waited before it started.
      rw [StepQueue.partsOf_begin_other htaken.order (by simp [hpart])]
      exact htakes.advance

/-- A window that moves on is a passage. -/
theorem window_passage (h : m.Sound) (hrunning : m.running = none) {i : StepId} {w : TriggerWindow}
    {q : StepQueue} (hbegin : m.engine.queue.begin? = some (⟨i, .window w⟩, q)) :
    Passage kept m none
      ⟨((Engine.advance w).ends { m.engine with queue := q }).2.finished, none⟩ := by
  have htaken := StepQueue.frontTaken_begin hbegin
  obtain ⟨hfresh, hparts⟩ := h.fresh ⟨m.engine.nextActivation⟩ (Nat.le_refl _)
  have hnone : q.partsOf ⟨m.engine.nextActivation⟩ = [] := by
    rw [← StepQueue.partsOf_begin_other htaken.order (by simp [StepKind.part?]),
      ← partsOf_idle hrunning]
    exact hparts
  have hpasses : m.engine.Passes kept ((Engine.advance w).ends { m.engine with queue := q }).2 :=
    passes_of_begin rfl htaken
      (Engine.advance_passes (e := { m.engine with queue := q }) hfresh hnone w kept)
  have hfinished := hpasses.spared (fun _ => Engine.spares_finished _) rfl fun _ => rfl
  refine passage_of_passes h hfinished ?_
  simp [effect?, hrunning]

/-- A step of an activation that pays its costs. -/
theorem pay_passage (h : m.Sound) (hrunning : m.running = none) {i : StepId} {q : StepQueue}
    (hbegin : m.engine.queue.begin? = some (⟨i, .resolve x .payCosts⟩, q)) :
    Passage kept m (if m.engine.pays x then some (x, .paid) else none)
      ⟨((Engine.resolve x .payCosts).ends { m.engine with queue := q }).2.finished, none⟩ := by
  let o : Option Occurrence := if m.engine.pays x then some .paid else none
  have ho : (if m.engine.pays x then some (x, .paid) else none) = o.map fun o => (x, o) := by
    simp only [o]
    split <;> rfl
  rw [ho]
  refine passage_of_takes h hrunning (p := .pay) rfl (StepQueue.frontTaken_begin hbegin)
    (by simp [o]) fun hfits => ?_
  -- Where costs are still to be paid, nothing else waits.
  obtain ⟨-, -, -, -, hnone⟩ := follows_of_fits hfits (by decide)
  rw [hnone] at hfits ⊢
  exact Engine.resolve_pay_takes (e := { m.engine with queue := q }) hnone hfits

/-- A step of an activation that fills its slots. -/
theorem choose_passage (h : m.Sound) (hrunning : m.running = none) {i : StepId} {q : StepQueue}
    (hbegin : m.engine.queue.begin? = some (⟨i, .resolve x .chooseTargets⟩, q)) :
    Passage kept m none
      ⟨((Engine.resolve x .chooseTargets).ends { m.engine with queue := q }).2.finished, none⟩ := by
  have htaken := StepQueue.frontTaken_begin hbegin
  have hids : ∀ t ∈ q.order, t.id.number < q.nextId := by
    intro t ht
    rw [htaken.nextId]
    exact h.ids t (by rw [htaken.order]; exact List.mem_cons_of_mem _ ht)
  refine passage_of_takes (o := none) h hrunning (p := .choose) rfl htaken (by simp)
    fun hfits => ?_
  have hnone : q.partsOf x = [] := alone_of_fits_choose hfits
  rw [hnone] at hfits ⊢
  exact Engine.resolve_choose_takes (e := { m.engine with queue := q }) hids hnone hfits

/-- A step of an activation whose effect does not start. -/
theorem late_passage (h : m.Sound) (hrunning : m.running = none) {i : StepId} {q : StepQueue}
    (hbegin : m.engine.queue.begin? = some (⟨i, .resolve x .execute⟩, q))
    (hopening : m.engine.opening (.resolve x .execute) = none) :
    Passage kept m none
      ⟨((Engine.resolve x .execute).ends { m.engine with queue := q }).2.finished, none⟩ := by
  have hidle : ((Engine.resolve x .execute).ends { m.engine with queue := q }).2 =
      { m.engine with queue := q } := by
    refine Engine.resolve_idle _ fun activation a hget hlive hability => ?_
    have hability' : m.engine.ability? activation.ability = some a := hability
    have hget' : m.engine.activations.get? x = some activation := hget
    simp [Engine.opening, hget', hability', hlive] at hopening
  rw [hidle]
  refine passage_of_takes (o := none) h hrunning (p := .execute) rfl
    (StepQueue.frontTaken_begin hbegin) (by simp) fun hfits => ?_
  obtain ⟨-, -, -, -, hnone⟩ := follows_of_fits hfits (by decide)
  rw [hnone]
  exact Engine.skip_takes (e := { m.engine with queue := q }) (by decide) hnone

/-- The announcement of an activation. -/
theorem announce_passage (h : m.Sound) (hrunning : m.running = none) {i : StepId}
    {event : GameEvent} {q : StepQueue}
    (hbegin : m.engine.queue.begin? = some (⟨i, .event event (.emitted x)⟩, q)) :
    Passage kept m (some (x, .announced))
      ⟨((Engine.fire event (.emitted x)).ends { m.engine with queue := q }).2.finished, none⟩ := by
  refine passage_of_takes (o := some .announced) h hrunning (p := .announce) rfl
    (StepQueue.frontTaken_begin hbegin) (by simp) fun hfits => ?_
  obtain ⟨activation, hget, -, hstage, hrest⟩ := follows_of_fits hfits (by decide)
  rw [hget]
  exact Engine.announce_takes (e := { m.engine with queue := q }) event hget hstage hrest

/-- The end of an activation. -/
theorem complete_passage (h : m.Sound) (hrunning : m.running = none) {i : StepId} {q : StepQueue}
    (hbegin : m.engine.queue.begin? = some (⟨i, .complete x⟩, q)) :
    Passage kept m none
      ⟨((Engine.complete x).ends { m.engine with queue := q }).2.finished, none⟩ := by
  refine passage_of_takes (o := none) h hrunning (p := .complete) rfl
    (StepQueue.frontTaken_begin hbegin) (by simp) fun hfits => ?_
  obtain ⟨activation, hget, -, hstage, hnone⟩ := follows_of_fits hfits (by decide)
  rw [hget, hnone]
  exact Engine.complete_takes (e := { m.engine with queue := q }) hget hstage hnone

/-- A step that is done as a whole is a passage. -/
theorem whole_passage (h : m.Sound) (hrunning : m.running = none) {s : Step} {q : StepQueue}
    (hbegin : m.engine.queue.begin? = some (s, q)) (hopening : m.engine.opening s.kind = none) :
    Passage kept m (m.engine.occurrence s.kind)
      ⟨((Engine.asStep q (Engine.runStep s)).ends m.engine).2, none⟩ := by
  obtain ⟨i, kind⟩ := s
  rw [Engine.asStep_ends, Engine.runStep_kind]
  dsimp only at hopening ⊢
  cases kind with
  | task label body => simp [Engine.opening] at hopening
  | prompt p => exact absurd hbegin StepQueue.begin?_ne_prompt
  | window w => exact window_passage h hrunning hbegin
  | complete x => exact complete_passage h hrunning hbegin
  | event event change =>
    cases change with
    | script body => simp [Engine.opening] at hopening
    | emitted x => exact announce_passage h hrunning hbegin
  | resolve x stage =>
    cases stage with
    | payCosts => exact pay_passage h hrunning hbegin
    | chooseTargets => exact choose_passage h hrunning hbegin
    | execute =>
      have hoccurrence : m.engine.occurrence (.resolve x .execute) = none := by
        simp [Engine.occurrence, hopening]
      rw [hoccurrence]
      exact late_passage h hrunning hbegin hopening

/-! ## Scripts -/

/-- A script starts that is no effect. -/
theorem script_passage (hrunning : m.running = none) {s : Step} (hpart : s.kind.part? = none)
    {q : StepQueue} (htaken : m.engine.queue.FrontTaken s q) {r : Running}
    (hr : ∀ a x activation, r.task ≠ .effect a x activation) :
    Passage kept m none ⟨{ m.engine with queue := q }, some r⟩ := by
  refine .spare (spares_begin_foreign hpart htaken kept) ?_
  obtain ⟨task, rest⟩ := r
  cases task with
  | effect a x activation => exact absurd rfl (hr a x activation)
  | _ => simp [effect?, hrunning]

/-- An effect starts. -/
theorem effect_passage (h : m.Sound) (hrunning : m.running = none) {i : StepId} {x : ActivationId}
    {q : StepQueue} (hbegin : m.engine.queue.begin? = some (⟨i, .resolve x .execute⟩, q))
    {activation : Activation} (hget : m.engine.activations.get? x = some activation) (a : Ability)
    (script : Script) :
    Passage kept m (some (x, .effect))
      ⟨{ m.engine with queue := q }, some ⟨.effect a x activation, script⟩⟩ := by
  have htaken := StepQueue.frontTaken_begin hbegin
  have hpart : (StepKind.resolve x .execute).part? = some (x, .execute) := rfl
  obtain ⟨hparts, hfits⟩ := h.fits_front hrunning hpart htaken
  obtain ⟨activation', hget', -, hstage, hnone⟩ := follows_of_fits hfits (by decide)
  obtain rfl : activation = activation' := Option.some.inj (hget.symm.trans hget')
  have heffect : (⟨{ m.engine with queue := q }, some ⟨.effect a x activation, script⟩⟩ :
      Moment).effect? = some (a, x, activation) := rfl
  refine h.passage_of_parts (x := x) (o := some .effect) (by simp [hparts])
    (Engine.spares_begin (by simp [hpart]) htaken) (fun t ht => .inr ?_) ?_
    (fun activation' i ho hi => .inr ⟨activation', ho, hi⟩)
  · obtain rfl := Option.some.inj (heffect.symm.trans ht)
    exact ⟨rfl, hget⟩
  · -- The script takes the place of the step: it is the one part that is left.
    rw [hparts, hnone, partsOf_of_effect heffect]
    show Advance _ (m.engine.activations.get? x) _ _ (m.engine.activations.get? x)
      (.effect :: q.partsOf x)
    rw [hget, hnone]
    exact .execute hstage

/-- A turn of the queue is a passage. -/
theorem turn_passage (h : m.Sound) (hrunning : m.running = none) :
    Passage kept m (m.engine.queue.begin?.bind fun s => m.engine.occurrence s.1.kind)
      (turn m.engine) := by
  unfold turn
  cases hbegin : m.engine.queue.begin? with
  | none => exact .spare (.refl _) (by simp [effect?, hrunning])
  | some sq =>
    obtain ⟨⟨i, kind⟩, q⟩ := sq
    have htaken := StepQueue.frontTaken_begin hbegin
    dsimp only [Option.bind_some]
    cases hopening : m.engine.opening kind with
    | none => exact whole_passage h hrunning hbegin hopening
    | some r =>
      dsimp only
      rcases Engine.opening_cases hopening with ⟨label, body, rfl, rfl⟩ | ⟨event, body, rfl, rfl⟩ |
        ⟨x, activation, a, rfl, hget, -, -, rfl⟩
      · exact script_passage hrunning rfl htaken (by simp)
      · exact script_passage hrunning rfl htaken (by simp)
      · have hoccurrence : m.engine.occurrence (.resolve x .execute) = some (x, .effect) := by
          simp [Engine.occurrence, hopening]
        rw [hoccurrence]
        exact effect_passage h hrunning hbegin hget a _

/-- An answer is a passage. -/
theorem respond_passage (h : m.Sound) (hrunning : m.running = none) (p : PlayerId) (n : Nat) :
    Passage kept m none (respond m.engine p n) := by
  have hstays : Passage kept m none ⟨m.engine, none⟩ :=
    .spare (.refl _) (by simp [effect?, hrunning])
  unfold respond
  cases hbegin : m.engine.queue.beginAnswer? with
  | none => exact hstays
  | some ipq =>
    obtain ⟨i, ⟨view, player, reply⟩, q⟩ := ipq
    have htaken := StepQueue.frontTaken_beginAnswer hbegin
    dsimp only
    split
    · cases reply with
      | script answers => exact script_passage hrunning rfl htaken (by simp)
      | target x slot choices =>
        dsimp only
        rw [Engine.asStep_ends]
        refine passage_of_takes (o := none) h hrunning (p := .choose) rfl htaken (by simp)
          fun hfits => ?_
        have hnone : q.partsOf x = [] := alone_of_fits_choose hfits
        rw [hnone]
        exact Engine.chooseTarget_takes (e := { m.engine with queue := q }) slot choices n hnone
      | offer x alternatives =>
        dsimp only
        rw [Engine.asStep_ends]
        refine passage_of_takes (o := none) h hrunning (p := .offer) rfl htaken (by simp)
          fun hfits => ?_
        obtain ⟨activation, hget, -, hstage, hnone⟩ := follows_of_fits hfits (by decide)
        rw [hget, hnone, Engine.answerWith]
        split
        · exact Engine.dropActivation_takes (e := { m.engine with queue := q }) hstage hnone
        · exact Engine.accept_takes (e := { m.engine with queue := q }) hget hstage hnone _
    · exact hstays

/-- Which effect is running depends on what the script is part of, not on what is left of it. -/
theorem effect?_rest (e e' : Engine) (task : Task) (script script' : Script) :
    (⟨e, some ⟨task, script⟩⟩ : Moment).effect? =
      (⟨e', some ⟨task, script'⟩⟩ : Moment).effect? := by
  cases task <;> rfl

/-- While its effect runs, nothing of an activation waits. -/
theorem Sound.effect_alone (h : m.Sound) {a : Ability} {activation : Activation}
    (heffect : m.effect? = some (a, x, activation)) : m.partsOf x = [.effect] := by
  obtain ⟨-, hnone⟩ := h.effect_stage heffect
  rw [partsOf_of_effect heffect, hnone]

/-- The effect of an activation ends. -/
theorem conclude_passage {e : Engine} {a : Ability} {x : ActivationId} {activation : Activation}
    (h : Sound ⟨e, some ⟨.effect a x activation, .done⟩⟩) :
    Passage kept ⟨e, some ⟨.effect a x activation, .done⟩⟩ (some (x, .counted))
      ⟨((Engine.conclude a x activation).ends e).2.finished, none⟩ := by
  let m : Moment := ⟨e, some ⟨.effect a x activation, .done⟩⟩
  have heffect : m.effect? = some (a, x, activation) := rfl
  have hget : e.activations.get? x = some activation := h.running a x activation heffect
  obtain ⟨hstage, hnone⟩ := h.effect_stage heffect
  have hparts : m.partsOf x = [.effect] := h.effect_alone heffect
  have htakes : Engine.Takes e.Admits x
      { e with usage := e.usage.increment activation.ability } (some activation) [.effect]
      (some .counted) ((Engine.conclude a x activation).ends e).2 :=
    Engine.conclude_takes hget hstage hnone
  have hcounted : m.counted x (some .counted) =
      { e with usage := e.usage.increment activation.ability } := by
    unfold counted
    simp only [m, hget]
  have hspares : (m.counted x (some .counted)).Spares (· = x) kept
      ((Engine.conclude a x activation).ends e).2.finished := by
    rw [hcounted]
    exact (htakes.spares kept).trans (Engine.spares_finished _)
  -- All but the count is measured from the moment at which the script has ended.
  refine h.passage_of_parts (m := m) (o := some .counted) (by simp [hparts]) hspares
    (fun t ht => by simp [effect?] at ht) ?_ fun activation' i ho hi => ?_
  · rw [hparts]
    show Advance _ (e.activations.get? x) _ _ _ _
    rw [hget]
    exact htakes.advance
  · rcases htakes.prompt activation' i ho hi with hasks | ⟨activation'', hsome, hi'⟩
    · exact .inl hasks
    · exact .inr ⟨activation'', hsome ▸ hget, hi'⟩

/-- The script of a step fails, and the step with it. -/
theorem fail_passage {e : Engine} {task : Task} {err : RulesError}
    (h : Sound ⟨e, some ⟨task, .fail err⟩⟩) :
    Passage kept ⟨e, some ⟨task, .fail err⟩⟩ none ⟨e.finished, none⟩ := by
  cases task with
  | plain => exact .spare (Engine.spares_finished e) rfl
  | event event => exact .spare (Engine.spares_finished e) rfl
  | effect a x activation =>
    let m : Moment := ⟨e, some ⟨.effect a x activation, .fail err⟩⟩
    have heffect : m.effect? = some (a, x, activation) := rfl
    -- The effect is dropped, and with it the one part of the activation.
    obtain ⟨-, hnone⟩ := h.effect_stage heffect
    have hparts : m.partsOf x = [.effect] := h.effect_alone heffect
    refine h.passage_of_parts (m := m) (x := x) (o := none) (by simp [hparts])
      (Engine.spares_finished e) (fun t ht => by simp [effect?] at ht) ?_
      fun activation' i ho hi => .inr ⟨_, ho, hi⟩
    show Advance _ (e.activations.get? x) _ _ (e.activations.get? x) (e.queue.partsOf x)
    rw [hparts, hnone]
    exact .skip _ (by decide)

/-- A change that spares all activations, with the script going on. -/
theorem spare_passage {e e' : Engine} {task : Task} {script script' : Script}
    (h : e.Spares (fun _ => false) kept e') :
    Passage kept ⟨e, some ⟨task, script⟩⟩ none ⟨e', some ⟨task, script'⟩⟩ :=
  .spare h (effect?_rest e' e task script' script)

/-- What is given out next is in use nowhere. -/
theorem Sound.fresh_queue (h : m.Sound) (x : ActivationId)
    (hx : m.engine.nextActivation ≤ x.number) :
    m.engine.activations.get? x = none ∧ m.engine.queue.partsOf x = [] := by
  obtain ⟨hget, hparts⟩ := h.fresh x hx
  refine ⟨hget, ?_⟩
  unfold partsOf at hparts
  split at hparts
  · split at hparts
    · simp at hparts
    · exact hparts
  · exact hparts

/-- Until a script ends, nothing occurs to what it is part of. -/
theorem occurrence_go (e : Engine) (task : Task) {script : Script} (h : script ≠ .done) :
    occurrence ⟨e, some ⟨task, script⟩⟩ .go = none := by
  cases task with
  | effect a x activation =>
    cases script with
    | done => exact absurd rfl h
    | _ => rfl
  | _ => rfl

/-- A script that goes on is a passage, with the end of what it is part of. -/
theorem go_passage {e : Engine} {task : Task} {script : Script}
    (h : Sound ⟨e, some ⟨task, script⟩⟩) :
    Passage (Undisturbed ⟨e, some ⟨task, script⟩⟩ .go) ⟨e, some ⟨task, script⟩⟩
      (occurrence ⟨e, some ⟨task, script⟩⟩ .go) (go e task script) := by
  cases script with
  | done =>
    cases task with
    | plain => exact .spare (Engine.spares_finished e) rfl
    | event event =>
      exact .spare ((Engine.spares_of_changes (Engine.changes_openWindow event) e).trans
        (Engine.spares_finished _)) rfl
    | effect a x activation => exact conclude_passage h
  | fail err =>
    rw [occurrence_go e task (by simp)]
    exact fail_passage h
  | look next =>
    rw [occurrence_go e task (by simp)]
    exact spare_passage (.refl e)
  | order o next =>
    rw [occurrence_go e task (by simp)]
    refine passage_of_passes h (Engine.order_passes h.prompts h.fresh_queue o _ ?_)
      (effect?_rest _ _ task _ _)
    rintro hundisturbed i rfl
    exact hundisturbed i rfl
  | raise event change next =>
    rw [occurrence_go e task (by simp)]
    exact spare_passage (Engine.spares_of_changes (Engine.changes_raise event (by simp)) e)
  | queue label body next =>
    rw [occurrence_go e task (by simp)]
    exact spare_passage
      (Engine.spares_of_changes (Engine.changes_post (StepKind.onlyFor_of_none rfl)) e)
  | prompt player title buttons source answers next =>
    rw [occurrence_go e task (by simp)]
    exact spare_passage
      (Engine.spares_of_changes (Engine.changes_post (StepKind.onlyFor_of_none rfl)) e)

/-- What is asked of the engine is a passage. -/
theorem call_passage (h : m.Sound) (hrunning : m.running = none) (c : Call) :
    Passage (m.Undisturbed (.call c)) m none ⟨(c.play.ends m.engine).2, none⟩ := by
  have hnone : (⟨(c.play.ends m.engine).2, none⟩ : Moment).effect? = m.effect? := by
    simp [effect?, hrunning]
  cases c with
  | order o =>
    rw [Call.play, ends_discard] at hnone ⊢
    refine passage_of_passes h (Engine.order_passes h.prompts h.fresh_queue o _ ?_) hnone
    rintro hundisturbed i rfl
    exact hundisturbed i (by simp [withdraws, hrunning])
  | board f => exact .spare (.of_frame rfl rfl rfl rfl rfl) hnone
  | attach card design =>
    exact .spare (Engine.spares_of_changes (.discard (Engine.changes_addAbility card design)) _)
      hnone
  | refresh card => exact .spare (Engine.spares_of_changes (Engine.changes_refresh card) _) hnone
  | clear ability =>
    exact .spare (Engine.spares_of_changes (Engine.changes_clearRetractable ability) _) hnone
  | raise event change =>
    exact .spare (Engine.spares_of_changes (Engine.changes_raise event (by simp)) _) hnone
  | queue label body =>
    exact .spare (Engine.spares_of_changes
      (.discard (Engine.changes_post (StepKind.onlyFor_of_none rfl))) _) hnone
  | ask player title buttons source answers =>
    exact .spare (Engine.spares_of_changes
      (.discard (Engine.changes_post (StepKind.onlyFor_of_none rfl))) _) hnone

/-! ## All deeds -/

/-- Every deed is a passage. -/
theorem passage (h : m.Sound) (d : Deed) :
    Passage (m.Undisturbed d) m (m.occurrence d) (m.after d) := by
  obtain ⟨e, running⟩ := m
  have hstays : ∀ {m : Moment} {kept}, Passage kept m none m := .spare (.refl _) rfl
  cases running with
  | none =>
    cases d with
    | call c => exact call_passage h rfl c
    | turn => exact turn_passage h rfl
    | answer p n => exact respond_passage h rfl p n
    | go => exact hstays
  | some r =>
    obtain ⟨task, script⟩ := r
    cases d with
    | go => exact go_passage h
    | _ => cases task <;> cases script <;> exact hstays

theorem Sound.after (h : m.Sound) (d : Deed) : (m.after d).Sound := (passage h d).sound h

/-- At the start nothing is filed and nothing waits. -/
theorem sound_start (b : Board) : (start b).Sound where
  ids s hs := by
    simp [start, Engine.new, StepQueue.order, StepQueue.children, StepQueue.empty] at hs
  fits x := List.nil_sublist _
  fresh x _ := ⟨rfl, rfl⟩
  running a x activation hr := by simp [effect?, start] at hr
  prompts x activation i hget := by simp [start, Engine.new, IdMap.get?_empty] at hget
  counters a u hu := by simp [start, Engine.new, UsageTracker.empty, IdMap.get?_empty] at hu

/-- The invariant holds at every moment of every run. -/
theorem Sound.run (h : m.Sound) (ds : List Deed) : (m.run ds).Sound := by
  induction ds generalizing m with
  | nil => exact h
  | cons d ds ih => exact ih (h.after d)

/-- Numbers once given are not given again. -/
theorem Passage.numbers {o : Option (ActivationId × Occurrence)} (h : Passage kept m o m') :
    m.engine.nextActivation ≤ m'.engine.nextActivation := by
  cases h with
  | spare hspares _ => exact hspares.numbers
  | @step _ x o hspares =>
    obtain ⟨usage, husage⟩ := m.counted_eq x o
    rw [husage] at hspares
    exact hspares.numbers

/-! ## The queue in a run -/

theorem Passage.acts {o : Option (ActivationId × Occurrence)} (h : Passage kept m o m') :
    ∃ acts : List StepQueue.Act, m'.engine.queue = acts.foldl StepQueue.act m.engine.queue := by
  cases h with
  | spare hspares _ => exact hspares.acts
  | @step _ x o hspares =>
    obtain ⟨usage, husage⟩ := m.counted_eq x o
    rw [husage] at hspares
    exact hspares.acts

theorem run_acts (h : m.Sound) (ds : List Deed) :
    ∃ acts : List StepQueue.Act,
      (m.run ds).engine.queue = acts.foldl StepQueue.act m.engine.queue := by
  induction ds generalizing m with
  | nil => exact ⟨[], rfl⟩
  | cons d ds ih =>
    obtain ⟨acts, hacts⟩ := (passage h d).acts
    obtain ⟨acts', hacts'⟩ := ih (h.after d)
    exact ⟨acts ++ acts', by rw [run_cons, hacts', hacts, List.foldl_append]⟩

/-- The queue of a run comes about by what a chronicle can write down. -/
theorem run_queue (b : Board) (ds : List Deed) :
    ∃ acts, ((start b).run ds).engine.queue = (StepQueue.Chronicle.of acts).queue := by
  obtain ⟨acts, hacts⟩ := run_acts (sound_start b) ds
  refine ⟨acts, ?_⟩
  rw [hacts, StepQueue.Chronicle.queue_of]
  rfl

end Moment

end Doomtown
