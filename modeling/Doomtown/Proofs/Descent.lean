import Doomtown.Proofs.LifeCycle
import Doomtown.Proofs.Steady

/-!
# What descends from an activation

The family of an activation are its own steps and all that is queued while a step of the family
runs. In a steady run, a step that waits behind all of the family is not started before the family
is gone and the activation is done with (`Awaits.after`), and what is gone never comes back
(`Gone.after`).
-/

namespace Doomtown

open Play

/-- Steps that descend from an activation, by their numbers, and whether the step that runs is one
of them. -/
structure Family where
  members : List StepId
  runs : Bool

namespace Family

/-- Before anything was queued. -/
def none : Family := ⟨[], false⟩

/-- Whether what a deed queues is queued while a member runs. -/
def acts (f : Family) (m : Moment) (d : Deed) : Bool :=
  match m.starts? d with
  | some s => f.members.contains s.id
  | .none => f.runs

/-- After a deed also those are members that a member has queued, or that are the activation's
own. -/
def grow (f : Family) (x : ActivationId) (m : Moment) (d : Deed) : Family where
  members := f.members ++ ((m.after d).engine.queue.order.filter fun s =>
    m.engine.queue.nextId ≤ s.id.number && (f.acts m d || s.kind.part?.any (·.1 = x))).map (·.id)
  runs := f.acts m d && (m.after d).running.isSome

/-- After some deeds. -/
def after (f : Family) (x : ActivationId) : Moment → List Deed → Family
  | _, [] => f
  | m, d :: ds => (f.grow x m d).after x (m.after d) ds

variable {f : Family} {m : Moment} {d : Deed} {x : ActivationId} {i : StepId}

theorem after_append {ds' : List Deed} : ∀ {f : Family} {m : Moment} {ds : List Deed},
    f.after x m (ds ++ ds') = (f.after x m ds).after x (m.run ds) ds'
  | _, _, [] => rfl
  | _, m, d :: _ => after_append (m := m.after d)

theorem mem_grow : i ∈ (f.grow x m d).members ↔ i ∈ f.members ∨
    ∃ s ∈ (m.after d).engine.queue.order, s.id = i ∧ m.engine.queue.nextId ≤ i.number ∧
      (f.acts m d ∨ ∃ p, s.kind.part? = some (x, p)) := by
  have hany : ∀ s : Step, s.kind.part?.any (·.1 = x) = true ↔ ∃ p, s.kind.part? = some (x, p) := by
    intro s
    cases s.kind.part? with
    | none => simp
    | some t =>
      obtain ⟨y, p⟩ := t
      simp
  simp only [grow, List.mem_append, List.mem_map, List.mem_filter, Bool.and_eq_true,
    decide_eq_true_eq, Bool.or_eq_true, hany]
  constructor
  · rintro (hold | ⟨s, ⟨hs, hnew, hkin⟩, rfl⟩)
    · exact .inl hold
    · exact .inr ⟨s, hs, rfl, hnew, hkin⟩
  · rintro (hold | ⟨s, hs, rfl, hnew, hkin⟩)
    · exact .inl hold
    · exact .inr ⟨s, ⟨hs, hnew, hkin⟩, rfl⟩

/-- A number that was given before is no new member's. -/
theorem mem_of_mem_grow (hi : i.number < m.engine.queue.nextId)
    (hmem : i ∈ (f.grow x m d).members) : i ∈ f.members := by
  rcases mem_grow.mp hmem with hold | ⟨_, -, -, hnew, -⟩
  · exact hold
  · exact absurd hi (Nat.not_lt.mpr hnew)

end Family

namespace Moment

variable {m : Moment} {d : Deed} {x : ActivationId} {f : Family} {s : Step}

/-- A family at a moment: its numbers are given, a script runs if a member does, and the waiting
steps of the activation are members. -/
structure Kin (m : Moment) (x : ActivationId) (f : Family) : Prop where
  given : ∀ i ∈ f.members, i.number < m.engine.queue.nextId
  idle : m.running = none → f.runs = false
  own : ∀ s ∈ m.engine.queue.order, ∀ p, s.kind.part? = some (x, p) → s.id ∈ f.members

theorem Kin.after (h : m.Kin x f) (hsound : m.Sound) (hsteady : m.Steady d) :
    (m.after d).Kin x (f.grow x m d) := by
  obtain ⟨hids, hsteps⟩ := (hsound.course d hsteady.2).steps
  refine ⟨fun i hi => ?_, fun hidle => ?_, fun s hs p hp => ?_⟩
  · rcases Family.mem_grow.mp hi with hold | ⟨s, hs, rfl, -, -⟩
    · exact Nat.lt_of_lt_of_le (h.given i hold) hids
    · exact (hsound.after d).ids s hs
  · simp [Family.grow, hidle]
  · refine Family.mem_grow.mpr ?_
    rcases hsteps s hs with hold | ⟨hnew, -⟩
    · exact .inl (h.own s hold p hp)
    · exact .inr ⟨s, hs, rfl, hnew, .inr ⟨p, hp⟩⟩

/-- A family to which a deed queues nothing has the members that it had. -/
theorem Kin.not_mem_grow (hsound : m.Sound) (hsteady : m.Steady d) (hacts : f.acts m d = false)
    (habout : m.isAbout d x = false) {i : StepId} (hi : i ∉ f.members) :
    i ∉ (f.grow x m d).members := by
  intro hmem
  rcases Family.mem_grow.mp hmem with hold | ⟨s, hs, rfl, hnew, hqueued | ⟨p, hp⟩⟩
  · exact hi hold
  · simp [hacts] at hqueued
  · -- A new step of the activation would have been queued by a deed about it.
    rcases (hsound.course d hsteady.2).steps.2 s hs with hold | ⟨-, honly⟩
    · exact absurd (hsound.ids s hold) (Nat.not_lt.mpr hnew)
    · have hmine := honly.part _ hp
      simp [habout] at hmine

/-! ## A step that waits for the family -/

/-- A step that belongs to no activation waits behind all of the family of an activation that is
under way. -/
structure Awaits (m : Moment) (x : ActivationId) (f : Family) (s : Step) : Prop where
  underway : m.Underway x
  kin : m.Kin x f
  foreign : s.kind.part? = none
  outside : s.id ∉ f.members
  behind : ∃ front back, m.engine.queue.steps = front ++ s :: back ∧ ∀ t ∈ back, t.id ∉ f.members

/-- Nothing of the family of an activation waits or runs, and nothing of it can come any more. -/
structure Gone (m : Moment) (x : ActivationId) (f : Family) : Prop where
  underway : m.Underway x
  kin : m.Kin x f
  idle : f.runs = false
  parts : m.partsOf x = []
  pending : ∀ s ∈ m.engine.queue.order, s.id ∉ f.members

/-- When the step starts that has waited for it, the family is gone. -/
theorem Awaits.gone (h : m.Awaits x f s) (hreached : m.Reached) (hstarts : m.starts? d = some s) :
    m.Gone x f := by
  obtain ⟨-, hrunning, -⟩ := frontTaken_of_starts hstarts
  obtain ⟨front, back, hsplit, hback⟩ := h.behind
  have horder := hreached.order_of_starts hstarts hsplit
  have hpending : ∀ t ∈ m.engine.queue.order, t.id ∉ f.members := by
    intro t ht
    rw [horder] at ht
    rcases List.mem_cons.mp ht with rfl | ht
    · exact h.outside
    · exact hback t ht
  refine ⟨h.underway, h.kin, h.kin.idle hrunning, ?_, hpending⟩
  rw [partsOf_idle hrunning]
  refine List.eq_nil_iff_forall_not_mem.mpr fun p hp => ?_
  obtain ⟨t, ht, hpart⟩ := StepQueue.mem_partsOf_iff.mp hp
  exact hpending t ht (h.kin.own t ht p hpart)

/-- The step goes on waiting until it starts. -/
theorem Awaits.after (h : m.Awaits x f s) (hreached : m.Reached) (hsteady : m.Steady d)
    (hstarts : m.starts? d ≠ some s) : (m.after d).Awaits x (f.grow x m d) s := by
  have hsound := hreached.sound
  have hold : ∀ {t : Step}, t ∈ m.engine.queue.order → t.id ∉ f.members →
      t.id ∉ (f.grow x m d).members := fun ht hout hmem =>
    hout (Family.mem_of_mem_grow (hsound.ids _ ht) hmem)
  obtain ⟨front, back, hsplit, hback⟩ := h.behind
  have hwaits : ∀ t ∈ s :: back, t ∈ m.engine.queue.order := by
    intro t ht
    refine StepQueue.mem_order_of_mem_steps ?_
    rw [hsplit]
    exact List.mem_append_right _ ht
  obtain ⟨front', back', hsplit', hback'⟩ := (hsound.course d hsteady.2).behind
    hreached.ready.running h.foreign hstarts hsplit
  refine ⟨h.underway.after hsound hreached.ready hsteady, h.kin.after hsound hsteady, h.foreign,
    hold (hwaits s List.mem_cons_self) h.outside, front', back', hsplit', fun t ht => ?_⟩
  rcases hback' t ht with ht | ⟨hrunning, hnone, hnew⟩
  · exact hold (hwaits t (List.mem_cons_of_mem _ ht)) (hback t ht)
  · -- What the engine is called to queue is of no family.
    have hacts : f.acts m d = false := by
      unfold Family.acts
      rw [hnone]
      exact h.kin.idle hrunning
    have habout : m.isAbout d x = false := by
      by_contra htrue
      rcases about_cases (by simpa using htrue) h.underway.number h.underway.kept with
        ⟨_, _, hsome, -⟩ | ⟨_, _, _, -, hsome, -⟩
      · simp [hnone] at hsome
      · simp [hrunning] at hsome
    refine Kin.not_mem_grow hsound hsteady hacts habout fun hmem => ?_
    exact absurd (h.kin.given _ hmem) (Nat.not_lt.mpr hnew)

/-- No deed is about an activation that is gone. -/
theorem Gone.not_about (h : m.Gone x f) (d : Deed) : m.isAbout d x = false := by
  by_contra habout
  obtain ⟨p, ps, hparts⟩ := h.underway.parts_of_about (by simpa using habout)
  rw [h.parts] at hparts
  simp at hparts

/-- What is gone stays gone, and the record of the activation stays as it is. -/
theorem Gone.after (h : m.Gone x f) (hreached : m.Reached) (hsteady : m.Steady d) :
    (m.after d).Gone x (f.grow x m d) ∧
      (m.after d).engine.activations.get? x = m.engine.activations.get? x := by
  have hsound := hreached.sound
  have hcourse := hsound.course d hsteady.2
  obtain ⟨hrecord, hparts⟩ := hcourse.spared (h.not_about d) h.underway.kept
  have hacts : f.acts m d = false := by
    unfold Family.acts
    cases hstarts : m.starts? d with
    | none => exact h.idle
    | some s => simpa using h.pending s (mem_order_of_starts hstarts)
  refine ⟨⟨h.underway.after hsound hreached.ready hsteady, h.kin.after hsound hsteady, ?_,
    hparts.trans h.parts, fun s hs => ?_⟩, hrecord⟩
  · simp [Family.grow, hacts]
  · refine Kin.not_mem_grow hsound hsteady hacts (h.not_about d) fun hmem => ?_
    rcases hcourse.steps.2 s hs with hold | ⟨hnew, -⟩
    · exact h.pending s hold hmem
    · exact absurd (h.kin.given _ hmem) (Nat.not_lt.mpr hnew)

/-- What is gone stays gone in a steady run. -/
theorem Gone.run (hreached : m.Reached) {ds : List Deed} (h : m.Gone x f)
    (halong : Along Steady m ds) :
    (m.run ds).Gone x (f.after x m ds) ∧
      (m.run ds).engine.activations.get? x = m.engine.activations.get? x := by
  induction ds generalizing m f with
  | nil => exact ⟨h, rfl⟩
  | cons d ds ih =>
    obtain ⟨hsteady, halong⟩ := halong
    obtain ⟨hafter, hrecord⟩ := h.after hreached hsteady
    obtain ⟨hgone, hrecord'⟩ := ih (hreached.after d) hafter halong
    exact ⟨hgone, hrecord'.trans hrecord⟩

/-! ## Activations that were started -/

/-- An activation is filed and has started. -/
def Started (m : Moment) (x : ActivationId) : Prop :=
  ∃ activation, m.engine.activations.get? x = some activation ∧ activation.stage ≠ .idle

theorem started_of_happens (h : .reached .legalityChecked ∈ happenings x m d) :
    (m.after d).Started x := by
  rcases List.mem_append.mp h with hmem | hmem
  · simp at hmem
  · have hstage : (m.after d).stage? x = some .legalityChecked := by
      unfold reached at hmem
      split at hmem
      · rename_i stage hstage
        split at hmem
        · simp at hmem
        · rw [hstage, ← Happening.reached.inj (List.mem_singleton.mp hmem)]
      · simp at hmem
    obtain ⟨activation, hget, hstage⟩ := Option.map_eq_some_iff.mp hstage
    exact ⟨activation, hget, by simp [hstage]⟩

theorem Underway.started_after (h : m.Underway x) (hreached : m.Reached) (hsteady : m.Steady d)
    (hstarted : m.Started x) : (m.after d).Started x := by
  have hsound := hreached.sound
  obtain ⟨activation, hget, hstage⟩ := hstarted
  cases hx : m.isAbout d x with
  | false =>
    obtain ⟨hrecord, -⟩ := (hsound.course d hsteady.2).spared hx h.kept
    exact ⟨activation, hrecord.trans hget, hstage⟩
  | true =>
    obtain ⟨p, ps, hparts⟩ := h.parts_of_about hx
    obtain ⟨activation', hget', hlive, -⟩ := hsound.live_of_front h.onTrack hparts
    obtain rfl := Option.some.inj (hget.symm.trans hget')
    rcases (passage hsound d).spared_or_taken x with ⟨usage, mine, hspares, hmine, -⟩ |
      ⟨o, hadvance, -⟩
    · obtain ⟨-, -, hterminal⟩ := Activation.isLive_iff.mp hlive
      have hrecord := hspares.get?_eq hmine hget hterminal
      exact ⟨activation, hrecord, hstage⟩
    · rw [hget] at hadvance
      exact hadvance.started hstage

/-- An activation that is started in a steady run is filed at its end. -/
theorem Underway.started_run (h : m.Underway x) (hreached : m.Reached) {ds : List Deed}
    (halong : Along Steady m ds)
    (hstarted : m.Started x ∨ .reached .legalityChecked ∈ life x m ds) :
    (m.run ds).Started x := by
  induction ds generalizing m with
  | nil => exact hstarted.resolve_right (by simp [life])
  | cons d ds ih =>
    obtain ⟨hsteady, halong⟩ := halong
    refine ih (h.after hreached.sound hreached.ready hsteady) (hreached.after d) halong ?_
    rcases hstarted with hstarted | hstarted
    · exact .inl (h.started_after hreached hsteady hstarted)
    · rcases List.mem_append.mp hstarted with hnow | hlater
      · exact .inl (started_of_happens hnow)
      · exact .inr hlater

end Moment

end Doomtown
