import Doomtown.Proofs.Alteration

/-!
# The cards of activations

An activation is entered for the card of the ability that it is of, and that does not change: it is
so of every activation that is filed at some moment of a run, and of the effect that runs
(`Moment.Sourced`).
-/

namespace Doomtown

open Play

/-- The record of an activation stays one of the same ability and the same card. -/
theorem Advance.same {admits : AbilityId → Prop} {a a' : Activation} {ps ps' : List Part}
    {o : Option Occurrence} (h : Advance admits (some a) ps o (some a') ps') :
    a'.ability = a.ability ∧ a'.source = a.source := by
  generalize ha : some a = before at h
  generalize ha' : some a' = after at h
  cases h with
  | start | offer | decline => simp at ha ha'
  | skip =>
    obtain rfl := Option.some.inj (ha'.trans ha.symm)
    exact ⟨rfl, rfl⟩
  | answer b slot t =>
    subst ha
    obtain rfl := Option.some.inj ha'
    exact ⟨rfl, rfl⟩
  | _ =>
    obtain rfl := Option.some.inj ha
    obtain rfl := Option.some.inj ha'
    exact ⟨rfl, rfl⟩

namespace Engine

variable {e : Engine}

/-- The activation is of an ability of its card. -/
def SourceOf (e : Engine) (activation : Activation) : Prop :=
  ∃ a, e.ability? activation.ability = some a ∧ a.source = activation.source

/-- What a player starts is entered for the card of the ability. -/
theorem activate_sources (a : AbilityId) (p : PlayerId) {activation : Activation}
    (hnone : e.activations.get? ⟨e.nextActivation⟩ = none)
    (hget : ((activate a p).ends e).2.activations.get? ⟨e.nextActivation⟩ = some activation) :
    e.SourceOf activation := by
  have hunfiled : e.activations.get? ⟨e.nextActivation⟩ = some activation → e.SourceOf activation :=
    fun h => by simp [hnone] at h
  unfold activate at hget
  cases hability : e.ability? a with
  | none =>
    rw [ends_bind_error (getAbility_missing hability)] at hget
    exact hunfiled hget
  | some ability =>
    rw [ends_bind_ok (getAbility_ends hability)] at hget
    by_cases haction : ability.isAction
    · simp only [haction, Bool.not_true, Bool.false_eq_true, if_false] at hget
      have htake : (takeActivationId).ends e =
          (.ok ⟨e.nextActivation⟩, { e with nextActivation := e.nextActivation + 1 }) := rfl
      rw [ends_bind_ok htake, ends_bind_ok (ends_look _)] at hget
      dsimp only at hget
      split at hget
      · exact hunfiled hget
      · change (e.activations.insert _ _).get? _ = _ at hget
        rw [IdMap.get?_insert, if_pos rfl] at hget
        obtain rfl := Option.some.inj hget
        exact ⟨ability, hability, rfl⟩
    · simp only [haction, Bool.not_false, if_true] at hget
      exact hunfiled hget

/-- So is what a window offers. -/
theorem offer_sources (event : GameEvent) (c : TriggerCandidate) {activation : Activation}
    (hnone : e.activations.get? ⟨e.nextActivation⟩ = none)
    (hget : ((offer event c).ends e).2.activations.get? ⟨e.nextActivation⟩ = some activation) :
    e.SourceOf activation := by
  have hunfiled : e.activations.get? ⟨e.nextActivation⟩ = some activation → e.SourceOf activation :=
    fun h => by simp [hnone] at h
  unfold offer at hget
  rw [ends_bind_ok (ends_look e)] at hget
  cases hability : e.ability? c.ability with
  | none =>
    rw [hability] at hget
    exact hunfiled hget
  | some a =>
    rw [hability] at hget
    dsimp only at hget
    have htake : (takeActivationId).ends e =
        (.ok ⟨e.nextActivation⟩, { e with nextActivation := e.nextActivation + 1 }) := rfl
    rw [ends_bind_ok htake, ends_bind_ok (ends_look _)] at hget
    dsimp only at hget
    -- Forced or prompted, the same record is entered, but for its stage.
    have hentered : ∀ {record : Activation}, record.ability = c.ability →
        record.source = a.source →
        (e.activations.insert ⟨e.nextActivation⟩ record).get? ⟨e.nextActivation⟩ =
          some activation → e.SourceOf activation := by
      intro record hof hsource hrecord
      rw [IdMap.get?_insert, if_pos rfl] at hrecord
      obtain rfl := Option.some.inj hrecord
      exact ⟨a, by rw [hof, hability], hsource.symm⟩
    split at hget
    · exact hunfiled hget
    · split at hget
      · exact hentered rfl rfl hget
      · exact hentered rfl rfl hget

theorem advance_sources (w : TriggerWindow) {activation : Activation}
    (hnone : e.activations.get? ⟨e.nextActivation⟩ = none)
    (hget : ((advance w).ends e).2.activations.get? ⟨e.nextActivation⟩ = some activation) :
    e.SourceOf activation := by
  obtain ⟨event, pending⟩ := w
  unfold advance at hget
  cases pending with
  | nil =>
    rw [show e.activations.get? _ = some activation from hget] at hnone
    simp at hnone
  | cons c rest =>
    dsimp only at hget
    obtain ⟨e₁, hoffer, -⟩ := offer_ends e event c
    refine offer_sources event c hnone ?_
    rw [ends_bind_ok hoffer] at hget
    rw [hoffer]
    cases rest <;> exact hget

end Engine

namespace Moment

variable {m : Moment} {d : Deed} {x : ActivationId}

/-- A deed is about the activation that an order enters or retracts, or of which a step starts or
which is entered by a step, or whose effect ends. -/
theorem about_forms (hx : m.isAbout d x) :
    (∃ o, m.gives d = some o ∧ m.engine.entered? o = some x) ∨
      (∃ s, m.starts? d = some s ∧ m.engine.takenOn? s.kind = some x) ∨
      ∃ a activation script, d = .go ∧ m.running = some ⟨.effect a x activation, script⟩ ∧
        (script = .done ∨ ∃ err, script = .fail err) := by
  have habout : m.about? d = some x := of_decide_eq_true hx
  cases hstarts : m.starts? d with
  | some s =>
    rw [about?_of_starts hstarts] at habout
    exact .inr (.inl ⟨s, rfl, habout⟩)
  | none =>
    unfold about? at habout
    split at habout
    · rename_i o hrunning
      exact .inl ⟨o, by simp [gives, hrunning], habout⟩
    · simp at habout
    · simp [hstarts] at habout
    · rename_i o next hrunning
      exact .inl ⟨o, by simp [gives, hrunning], habout⟩
    · rename_i hrunning
      obtain rfl := Option.some.inj habout
      exact .inr (.inr ⟨_, _, _, rfl, hrunning, .inl rfl⟩)
    · rename_i hrunning
      obtain rfl := Option.some.inj habout
      exact .inr (.inr ⟨_, _, _, rfl, hrunning, .inr ⟨_, rfl⟩⟩)
    · simp at habout

/-- A deed that gives an order does what the order does. -/
theorem after_gives {o : Order} (hgives : m.gives d = some o) :
    (m.after d).engine = (o.carryOut.ends m.engine).2 ∧ (m.after d).effect? = m.effect? := by
  obtain ⟨e, running⟩ := m
  unfold gives at hgives
  split at hgives
  · rename_i hrunning
    obtain rfl : running = none := hrunning
    obtain rfl := Option.some.inj hgives
    exact ⟨congrArg Prod.snd (ends_discard _ _), rfl⟩
  · rename_i task _ next hrunning
    obtain rfl : running = some ⟨task, _⟩ := hrunning
    obtain rfl := Option.some.inj hgives
    cases task <;> exact ⟨rfl, rfl⟩
  · simp at hgives

/-- An attempt to retract an activation leaves records and queue as they are, or marks the record as
retracted and withdraws the prompt that it notes. -/
theorem after_retract {a : AbilityId} {p : PlayerId} {activation : Activation}
    (hgives : m.gives d = some (.retract a p)) (ho : m.engine.latestRetractable? a = some x)
    (hget : m.engine.activations.get? x = some activation) :
    ((m.after d).engine.queue = m.engine.queue ∧
        (m.after d).engine.activations = m.engine.activations) ∨
      Engine.canRetract m.engine.board p activation ∧
        (m.after d).engine.queue = Engine.withdrawPrompt m.engine.queue activation.prompt ∧
        (m.after d).engine.activations.get? x =
          some { activation with stage := .deactivated, deactivated := true, prompt := none } := by
  have hafter := (after_gives hgives).1
  change (m.after d).engine = ((Engine.retract a p).ends m.engine).2 at hafter
  rw [hafter]
  have hretracts := Engine.retract_ends m.engine a p
  generalize (Engine.retract a p).ends m.engine = ending at hretracts
  cases hretracts with
  | refused | failed => exact .inl ⟨rfl, rfl⟩
  | retracted hlatest hbefore hcan =>
    obtain rfl := Option.some.inj (ho.symm.trans hlatest)
    obtain rfl := Option.some.inj (hget.symm.trans hbefore)
    exact .inr ⟨hcan, rfl, IdMap.get?_modify_self hget _⟩

/-- A step of an activation that starts is the first part of it. -/
theorem partsOf_of_starts {s : Step} {p : Part} (hstarts : m.starts? d = some s)
    (hpart : s.kind.part? = some (x, p)) : ∃ ps, m.partsOf x = p :: ps := by
  obtain ⟨q, hrunning, htaken⟩ := frontTaken_of_starts hstarts
  rw [partsOf_idle hrunning]
  exact ⟨_, StepQueue.partsOf_begin htaken.order hpart⟩

/-- So is its effect, while it runs. -/
theorem partsOf_of_running {a : Ability} {activation : Activation} {script : Script}
    (hrunning : m.running = some ⟨.effect a x activation, script⟩) :
    ∃ ps, m.partsOf x = .effect :: ps := by
  have heffect : m.effect? = some (a, x, activation) := by
    unfold effect?
    rw [hrunning]
  exact ⟨_, partsOf_of_effect heffect⟩

/-- Whoever starts a step starts no step of an activation for which nothing waits. -/
theorem part?_of_starts {s : Step} (hstarts : m.starts? d = some s) (hnil : m.partsOf x = []) :
    ∀ p, s.kind.part? ≠ some (x, p) := by
  intro p hpart
  obtain ⟨ps, hparts⟩ := partsOf_of_starts hstarts hpart
  simp [hparts] at hnil

/-- A deed about an activation that is filed is an attempt to retract it, or starts a step of it, or
ends its effect. -/
theorem Sound.about_filed (h : m.Sound) {activation : Activation}
    (hget : m.engine.activations.get? x = some activation) (hx : m.isAbout d x) :
    (∃ a p, m.gives d = some (.retract a p) ∧ m.engine.latestRetractable? a = some x) ∨
      (∃ s p, m.starts? d = some s ∧ s.kind.part? = some (x, p)) ∨
      ∃ a running script, d = .go ∧ m.running = some ⟨.effect a x running, script⟩ ∧
        (script = .done ∨ ∃ err, script = .fail err) := by
  -- What is entered is not filed yet.
  have hold : (⟨m.engine.nextActivation⟩ : ActivationId) ≠ x := by
    rintro rfl
    simp [(h.fresh ⟨m.engine.nextActivation⟩ (Nat.le_refl _)).1] at hget
  rcases about_forms hx with ⟨o, hgives, ho⟩ | ⟨s, hstarts, hs⟩ | hends
  · unfold Engine.entered? at ho
    split at ho
    · exact absurd (Option.some.inj ho) hold
    · exact .inl ⟨_, _, hgives, ho⟩
    · simp at ho
  · unfold Engine.takenOn? at hs
    split at hs
    · exact absurd (Option.some.inj hs) hold
    · obtain ⟨⟨y, p⟩, hpart, rfl⟩ := Option.map_eq_some_iff.mp hs
      exact .inr (.inl ⟨s, p, hstarts, hpart⟩)
  · exact .inr (.inr hends)

/-- The effect that runs after a deed ran before, or is that of an activation that is filed. -/
theorem effect?_after {a : Ability} {activation : Activation}
    (h : (m.after d).effect? = some (a, x, activation)) :
    m.effect? = some (a, x, activation) ∨ m.engine.ability? activation.ability = some a := by
  obtain ⟨e, running⟩ := m
  cases running with
  | none =>
    cases d with
    | call c => simp [after, effect?] at h
    | go => exact .inl h
    | turn =>
      change (turn e).effect? = _ at h
      unfold turn at h
      cases hbegin : e.queue.begin? with
      | none => simp [hbegin, effect?] at h
      | some sq =>
        obtain ⟨s, q⟩ := sq
        simp only [hbegin] at h
        cases hopening : e.opening s.kind with
        | none => simp [hopening, effect?] at h
        | some r =>
          simp only [hopening] at h
          rcases Engine.opening_cases hopening with ⟨_, _, -, rfl⟩ | ⟨_, _, -, rfl⟩ |
            ⟨y, activation', a', -, -, hability, -, rfl⟩
          · simp [effect?] at h
          · simp [effect?] at h
          · obtain ⟨rfl, -, rfl⟩ : a' = a ∧ y = x ∧ activation' = activation := by
              simpa [effect?] using h
            exact .inr hability
    | answer p n =>
      change (respond e p n).effect? = _ at h
      unfold respond at h
      split at h
      · simp [effect?] at h
      · split at h
        · split at h <;> simp [effect?] at h
        · simp [effect?] at h
  | some r =>
    obtain ⟨task, script⟩ := r
    cases d with
    | go =>
      change (go e task script).effect? = _ at h
      cases script with
      | done => cases task <;> simp [go, effect?] at h
      | fail err => simp [go, effect?] at h
      | _ => exact .inl ((effect?_rest _ _ task _ _).symm.trans h)
    | _ => cases task <;> cases script <;> exact .inl h

/-! ## A run -/

variable {activation : Activation}

/-- Activations that are filed are of abilities of their cards, and the effect that runs is that of
its activation's ability. -/
structure Sourced (m : Moment) : Prop where
  filed : ∀ x activation, m.engine.activations.get? x = some activation →
    m.engine.SourceOf activation
  effect : ∀ a x activation, m.effect? = some (a, x, activation) →
    m.engine.ability? activation.ability = some a

/-- The effect that runs is that of an ability of its activation's card. -/
theorem Sourced.source_of_effect (h : m.Sourced) (hsound : m.Sound) {a : Ability}
    (heffect : m.effect? = some (a, x, activation)) : a.source = activation.source := by
  obtain ⟨a', hability, hsource⟩ := h.filed x activation (hsound.running a x activation heffect)
  obtain rfl := Option.some.inj (hability.symm.trans (h.effect a x activation heffect))
  exact hsource

/-- What is entered by a deed is entered for its ability's card. -/
theorem Sound.sourceOf_entered (h : m.Sound) (hready : m.Ready)
    (hnone : m.engine.activations.get? x = none) (hnil : m.partsOf x = [])
    (hnew : m.engine.nextActivation ≤ x.number)
    (hget : (m.after d).engine.activations.get? x = some activation) :
    m.engine.SourceOf activation := by
  -- The deed is about the activation, for otherwise it would not be filed.
  have habout : m.isAbout d x := by
    by_contra hx
    rcases h.record_of_not_about (by simpa using hx) with heq | ⟨_, hsome, -⟩
    · rw [heq, hnone] at hget
      simp at hget
    · simp [hnone] at hsome
  rcases about_forms habout with ⟨o, hgives, ho⟩ | ⟨s, hstarts, hs⟩ |
    ⟨a, running, script, -, hrunning, -⟩
  · obtain ⟨hengine, -⟩ := after_gives hgives
    rw [hengine] at hget
    unfold Engine.entered? at ho
    split at ho
    · obtain rfl := Option.some.inj ho
      rw [Order.carryOut] at hget
      exact Engine.activate_sources _ _ hnone hget
    · -- What can be retracted was given its number before.
      obtain ⟨t, ht, rfl⟩ := Option.map_eq_some_iff.mp ho
      have hold := hready.retractable t (List.mem_filter.mp (List.mem_of_getLast? ht)).1
      omega
    · simp at ho
  · unfold Engine.takenOn? at hs
    split at hs
    · rename_i w hkind
      obtain rfl := Option.some.inj hs
      obtain ⟨i, kind⟩ := s
      obtain rfl : kind = .window w := hkind
      cases d with
      | turn =>
        obtain ⟨q, hrunning, hbegin, hafter⟩ := begin?_of_starts hstarts
        rw [hafter, turn] at hget
        simp only [hbegin, Engine.opening, Engine.asStep_ends, Engine.runStep_kind] at hget
        exact Engine.advance_sources (e := { m.engine with queue := q }) w hnone hget
      | answer p n =>
        obtain ⟨_, _, _, -, -, hstep, -⟩ := beginAnswer?_of_starts hstarts
        simp at hstep
      | _ => cases hr : m.running <;> simp [starts?, hr] at hstarts
    · obtain ⟨⟨y, p⟩, hpart, rfl⟩ := Option.map_eq_some_iff.mp hs
      exact absurd hpart (part?_of_starts hstarts hnil p)
  · -- Its effect would be running, and that is a part of it.
    have heffect : m.effect? = some (a, x, running) := by
      unfold effect?
      rw [hrunning]
    rw [partsOf_of_effect heffect] at hnil
    simp at hnil

theorem Sourced.after (h : m.Sourced) (hsound : m.Sound) (hready : m.Ready) (d : Deed) :
    (m.after d).Sourced := by
  -- Abilities are never taken away, so what is known of an activation stays so.
  have habilities : ∀ a ability, m.engine.ability? a = some ability →
      (m.after d).engine.ability? a = some ability := fun _ _ =>
    (Moment.passage hsound d).ability?
  have hkept : ∀ {activation : Activation}, m.engine.SourceOf activation →
      (m.after d).engine.SourceOf activation := fun ⟨a, hability, hsource⟩ =>
    ⟨a, habilities _ a hability, hsource⟩
  constructor
  · intro x activation' hget'
    rcases (Moment.passage hsound d).spared_or_taken x with ⟨usage, mine, hspares, hx, -, -⟩ |
      ⟨o, hadvance, hentry, -, -⟩
    · exact hkept (h.filed x activation'
        (get?_spared (e := { m.engine with usage := usage }) rfl hspares hx hget'))
    · rw [hget'] at hadvance
      cases hget : m.engine.activations.get? x with
      | none =>
        rw [hget] at hadvance
        have hnil := hadvance.entered
        exact hkept (hsound.sourceOf_entered hready hget hnil (hentry hget hnil) hget')
      | some activation =>
        rw [hget] at hadvance
        obtain ⟨hability, hsource⟩ := hadvance.same
        obtain ⟨a, ha, has⟩ := hkept (h.filed x activation hget)
        exact ⟨a, by rw [hability, ha], by rw [hsource, has]⟩
  · intro a x activation heffect
    rcases effect?_after heffect with hold | hability
    · exact habilities _ a (h.effect a x activation hold)
    · exact habilities _ a hability

theorem Sourced.run (h : m.Sourced) (hsound : m.Sound) (hready : m.Ready) (ds : List Deed) :
    (m.run ds).Sourced := by
  induction ds generalizing m with
  | nil => exact h
  | cons d ds ih => exact ih (h.after hsound hready d) (hsound.after d) (hready.after hsound d)

/-- At the start nothing is filed and nothing runs. -/
theorem sourced_start (b : Board) : (start b).Sourced where
  filed x activation hget := by simp [start, Engine.new, IdMap.get?_empty] at hget
  effect a x activation heffect := by simp [start, effect?] at heffect

theorem Reached.sourced (h : m.Reached) : m.Sourced := by
  obtain ⟨b, ds, rfl⟩ := h
  exact (sourced_start b).run (sound_start b) (ready_start b) ds

end Moment

end Doomtown
