import Doomtown.Proofs.SlotFilling

/-!
# Prompts that are noted

A record notes the prompt that asks for a target of its activation. While it does, no step waits
that would fill the slots of the activation: the answer to the prompt queues one, and it strikes the
note. So the record with which a stage of an activation begins notes no prompt
(`Moment.Reached.prompt_none`).
-/

namespace Doomtown

open Play

/-- What happens to an activation strikes the prompt that it notes or leaves it as it is, unless
targets are being chosen. -/
theorem Advance.prompt {admits : AbilityId → Prop} {x x' : Activation} {ps ps' : List Part}
    {o : Option Occurrence} (h : Advance admits (some x) ps o (some x') ps') :
    x'.prompt = none ∨
      x'.prompt = x.prompt ∧ (x.stage = .costsPaid → x'.stage = .costsPaid) ∨
      ps = [.choose] ∧ x'.deactivated = x.deactivated := by
  generalize hx : some x = before at h
  generalize hx' : some x' = after at h
  cases h with
  | start | offer | decline => simp at hx hx'
  | skip =>
    obtain rfl := Option.some.inj (hx'.trans hx.symm)
    exact .inr (.inl ⟨rfl, id⟩)
  | answer =>
    subst hx
    obtain rfl := Option.some.inj hx'
    exact .inl rfl
  | retract =>
    obtain rfl := Option.some.inj hx'
    exact .inl rfl
  | miss | ask | resolve =>
    obtain rfl := Option.some.inj hx
    obtain rfl := Option.some.inj hx'
    exact .inr (.inr ⟨rfl, rfl⟩)
  | complete hstage =>
    obtain rfl := Option.some.inj hx
    obtain rfl := Option.some.inj hx'
    refine .inr (.inl ⟨rfl, fun hpaid => ?_⟩)
    rcases hstage with hstage | hstage <;> simp [hstage] at hpaid
  | accept hstage | refuse hstage | pay hstage | execute hstage | conclude hstage
  | announce hstage =>
    obtain rfl := Option.some.inj hx
    obtain rfl := Option.some.inj hx'
    exact .inr (.inl ⟨rfl, by simp [hstage]⟩)

namespace Moment

variable {m : Moment} {d : Deed} {x : ActivationId} {activation activation' : Activation}
  {i : StepId}

/-- At every moment a record notes a prompt only if its costs are paid and no step waits that would
fill its slots. -/
def NotesPrompts (m : Moment) : Prop :=
  ∀ x activation i, m.engine.activations.get? x = some activation → activation.prompt = some i →
    activation.stage = .costsPaid ∧
      ∀ s ∈ m.engine.queue.order, s.kind ≠ .resolve x .chooseTargets

/-! ## Deeds that choose no targets -/

/-- What notes a prompt noted it before, and is at the stage at which it was. -/
theorem Sound.prompt_after (h : m.Sound) (hx : m.Untargeted d x)
    (hget : m.engine.activations.get? x = some activation)
    (hget' : (m.after d).engine.activations.get? x = some activation')
    (hi : activation'.prompt = some i) :
    activation.prompt = some i ∧
      (activation.stage = .costsPaid → activation'.stage = .costsPaid) := by
  rcases (Moment.passage h d).spared_or_taken x with ⟨usage, mine, hspares, hmine, -, -⟩ |
    ⟨o, hadvance, -, -, -⟩
  · have hsame := get?_spared (e := { m.engine with usage := usage }) rfl hspares hmine hget'
    obtain rfl := Option.some.inj (hget.symm.trans hsame)
    exact ⟨hi, id⟩
  · rw [hget', hget] at hadvance
    rcases hadvance.prompt with hnone | ⟨hsame, hstage⟩ | ⟨hparts, hkept⟩
    · simp [hnone] at hi
    · exact ⟨hsame.symm.trans hi, hstage⟩
    · -- The step of its choice would be what changes it.
      by_cases hchanged : activation = activation'
      · subst hchanged
        exact ⟨hi, id⟩
      · obtain ⟨s, hstarts, hpart⟩ := h.starts_of_changed hget hparts (by decide) hget' hchanged
          hkept
        exact absurd hpart (hx s hstarts)

/-- Once the costs are paid nothing but the choice of targets waits or runs. -/
theorem Sound.part_of_paid (h : m.Sound) (hget : m.engine.activations.get? x = some activation)
    (hpaid : activation.stage = .costsPaid) {p : Part} (hp : p ∈ m.partsOf x) : p = .choose := by
  have hfits := h.fits x
  rw [hget] at hfits
  rcases hfits.ahead with hahead | ⟨hresolved, -⟩
  · rw [hpaid] at hahead
    simpa [ActivationStage.ahead] using hahead.subset hp
  · simp [hpaid] at hresolved

/-- While a prompt is noted, the only part of its activation that can be played is a choice of
targets, so no other deed queues a step that fills slots. -/
theorem Sound.fills_after (h : m.Sound) (hx : m.Untargeted d x)
    (hget : m.engine.activations.get? x = some activation)
    (hpaid : activation.stage = .costsPaid)
    (hget' : (m.after d).engine.activations.get? x = some activation')
    (hi : activation'.prompt = some i) {s : Step}
    (hs : s ∈ (m.after d).engine.queue.order) (hkind : s.kind = .resolve x .chooseTargets) :
    s ∈ m.engine.queue.order := by
  have honly : ∀ p ps, m.partsOf x = p :: ps → p = .choose := fun p ps hparts =>
    h.part_of_paid hget hpaid (by simp [hparts])
  rcases h.waited_or_about (x := x) (p := .choose) hs (by rw [hkind]; rfl) with hwaited | habout
  · exact hwaited
  rcases h.about_filed hget habout with ⟨a, q, hgives, ho⟩ | ⟨s₀, p, hstarts, hpart⟩ |
    ⟨a, running, script, -, hrunning, -⟩
  · rcases after_retract hgives ho hget with ⟨hqueue, -⟩ | ⟨-, -, hretracted⟩
    · exact hqueue ▸ hs
    · obtain rfl := Option.some.inj (hretracted.symm.trans hget')
      simp at hi
  · obtain ⟨ps, hparts⟩ := partsOf_of_starts hstarts hpart
    obtain rfl := honly p ps hparts
    exact absurd hpart (hx s₀ hstarts)
  · obtain ⟨ps, hparts⟩ := partsOf_of_running hrunning
    exact absurd (honly _ _ hparts) (by decide)

/-! ## Deeds that choose targets -/

/-- Where nothing waits for an activation, no step that fills its slots does. -/
theorem not_fills_of_partsOf {q : StepQueue} (h : q.partsOf x = []) :
    ∀ s ∈ q.order, s.kind ≠ .resolve x .chooseTargets := fun s hs hkind =>
  StepQueue.part?_ne_of_partsOf h hs .choose (by rw [hkind]; rfl)

/-- What fills slots notes a prompt if it asks for a target, and then nothing else waits. -/
theorem FillsSlots.notes {before : Activation} {a : Ability} (h : m.FillsSlots d x before a)
    (hsound : m.Sound) (hprompt : before.prompt = none)
    (hget' : (m.after d).engine.activations.get? x = some activation')
    (hi : activation'.prompt = some i) :
    activation'.stage = .costsPaid ∧
      ∀ s ∈ (m.after d).engine.queue.order, s.kind ≠ .resolve x .chooseTargets := by
  obtain ⟨j, q, hstarts, htaken, hafter⟩ := h.fills
  obtain ⟨_, hrunning, -⟩ := frontTaken_of_starts hstarts
  have hnone := hsound.partsOf_front (x := x) hrunning rfl htaken
  obtain ⟨e', hend, hfills⟩ :=
    Engine.fillSlots_ends { m.engine with queue := q } a x before a.targets
  have hnoted : ∀ chosen, (({ m.engine with queue := q } : Engine).noted x chosen).activations.get?
      x = some { before with targets := before.targets ++ chosen } := fun chosen =>
    IdMap.get?_modify_self h.filed _
  rw [hafter, hend] at hget' ⊢
  cases hfills with
  | resolved chosen | missed chosen =>
    obtain rfl := Option.some.inj ((IdMap.get?_modify_self (hnoted chosen) _).symm.trans hget')
    simp [hprompt] at hi
  | asked chosen =>
    obtain rfl := Option.some.inj ((IdMap.get?_modify_self (hnoted chosen) _).symm.trans hget')
    refine ⟨h.costsPaid hsound, fun s hs => ?_⟩
    rcases StepQueue.mem_order_push.mp hs with hs | rfl
    · exact not_fills_of_partsOf hnone s hs
    · simp

/-- What is told a target notes a prompt only if the prompt stood for no target at all. -/
theorem TellsTarget.notes {slot : String} {choices : List ChosenTarget} {n : Nat}
    (h : m.TellsTarget d x slot choices n) (hsound : m.Sound)
    (hget : m.engine.activations.get? x = some activation)
    (hget' : (m.after d).engine.activations.get? x = some activation')
    (hi : activation'.prompt = some i) :
    activation' = activation ∧
      ∀ s ∈ (m.after d).engine.queue.order, s.kind ≠ .resolve x .chooseTargets := by
  obtain ⟨j, view, p, q, hstarts, -, htaken, hafter⟩ := h.tells
  obtain ⟨_, hrunning, -⟩ := frontTaken_of_starts hstarts
  have hnone := hsound.partsOf_front (x := x) hrunning rfl htaken
  rw [hafter] at hget' ⊢
  unfold Engine.chooseTarget at hget' ⊢
  cases hpick : choices[n]? with
  | some t =>
    rw [hpick] at hget'
    obtain rfl := Option.some.inj ((IdMap.get?_modify_self hget _).symm.trans hget')
    simp at hi
  | none =>
    rw [hpick] at hget'
    obtain rfl := Option.some.inj (hget.symm.trans hget')
    exact ⟨rfl, not_fills_of_partsOf hnone⟩

/-! ## Every deed -/

/-- A record that a deed enters notes no prompt. -/
theorem Sound.prompt_entered (h : m.Sound) (hready : m.Ready)
    (hnone : m.engine.activations.get? x = none)
    (hget' : (m.after d).engine.activations.get? x = some activation') :
    activation'.prompt = none := by
  cases h.files hready hget' with
  | played | offered => rfl
  | accepted _ _ _ _ hget => simp [hnone] at hget
  | paid _ hget => simp [hnone] at hget
  | goes hget => simp [hnone] at hget

/-- While a step that fills slots starts, no prompt is noted. -/
theorem NotesPrompts.of_starts (h : m.NotesPrompts)
    (hstarts : m.starts? d = some ⟨i, .resolve x .chooseTargets⟩)
    (hget : m.engine.activations.get? x = some activation) : activation.prompt = none :=
  Option.eq_none_iff_forall_ne_some.mpr fun j hj =>
    (h x activation j hget hj).2 _ (mem_order_of_starts hstarts) rfl

theorem NotesPrompts.after (h : m.NotesPrompts) (hreached : m.Reached) (d : Deed) :
    (m.after d).NotesPrompts := by
  intro x activation' i hget' hi
  have hsound := hreached.sound
  cases hget : m.engine.activations.get? x with
  | none => simp [hsound.prompt_entered hreached.ready hget hget'] at hi
  | some activation =>
    by_cases hx : m.Untargeted d x
    · obtain ⟨hbefore, hstage⟩ := hsound.prompt_after hx hget hget' hi
      obtain ⟨hpaid, hfills⟩ := h x activation i hget hbefore
      exact ⟨hstage hpaid, fun s hs hkind =>
        hfills s (hsound.fills_after hx hget hpaid hget' hi hs hkind) hkind⟩
    · unfold Untargeted at hx
      push Not at hx
      obtain ⟨⟨j, kind⟩, hstarts, hpart⟩ := hx
      rcases choose_forms hpart with rfl | ⟨view, p, slot, choices, rfl⟩
      · have hprompt := h.of_starts hstarts hget
        rcases fillsSlots_of_starts hstarts with ⟨before, a, hfills⟩ | ⟨q, -, hafter⟩
        · obtain rfl := Option.some.inj (hget.symm.trans hfills.filed)
          exact hfills.notes hsound hprompt hget' hi
        · rw [hafter] at hget'
          obtain rfl := Option.some.inj (hget.symm.trans hget')
          simp [hprompt] at hi
      · obtain ⟨n, htells⟩ := tellsTarget_of_starts hstarts
        obtain ⟨rfl, hfills⟩ := htells.notes hsound hget hget' hi
        exact ⟨(h x _ i hget hi).1, hfills⟩

theorem Reached.notesPrompts (h : m.Reached) : m.NotesPrompts := by
  refine h.invariant (fun b => ?_) fun hreached hnotes d => hnotes.after hreached d
  intro x activation i hget
  simp [start, Engine.new, IdMap.get?_empty] at hget

/-- The record with which a stage of an activation begins notes no prompt. -/
theorem Reached.prompt_none (h : m.Reached) {stage : ResolutionStage}
    (hstarts : m.starts? d = some ⟨i, .resolve x stage⟩)
    (hget : m.engine.activations.get? x = some activation) : activation.prompt = none := by
  have hnotes := h.notesPrompts
  -- Any other stage begins before the costs are paid, or once the targets are chosen.
  have hother : ∀ p, (StepKind.resolve x stage).part? = some (x, p) → p ≠ .choose →
      ¬p.Follows .costsPaid [] → activation.prompt = none := fun p hpart hp hnot => by
    obtain ⟨q, hrunning, htaken⟩ := frontTaken_of_starts hstarts
    obtain ⟨_, hget', -, hfollows⟩ :=
      follows_of_fits (h.sound.fits_front hrunning hpart htaken).2 hp
    obtain rfl := Option.some.inj (hget.symm.trans hget')
    refine Option.eq_none_iff_forall_ne_some.mpr fun j hj => ?_
    rw [(hnotes x activation j hget hj).1] at hfollows
    cases p <;> simp_all [Part.Follows]
  cases stage with
  | payCosts => exact hother .pay rfl (by decide) (by simp [Part.Follows])
  | chooseTargets => exact hnotes.of_starts hstarts hget
  | execute => exact hother .execute rfl (by decide) (by simp [Part.Follows])

end Moment

end Doomtown
