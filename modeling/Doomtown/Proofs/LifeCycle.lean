import Doomtown.Proofs.Deeds

/-!
# The life of an activation

What happens to an activation in a run: which stages it reaches, that its costs are paid, that its
effect starts, that its use is counted, that its resolution is announced. Unless somebody withdraws
the steps of activations, this is the beginning of one of two stories, after an offer or without
one; and nothing occurs to an activation that was cancelled or retracted (`Moment.life_cycle`).

An activation tells its story by its stage (`ActivationStage.story`), but that the effect may have
started at the stage at which all targets are chosen. `Activation.Tells` says so, and each of the
steps that `Advance` lists keeps it.
-/

namespace Doomtown

/-! ## Lives -/

/-- What happens to an activation. -/
inductive Happening where
  | reached (stage : ActivationStage)
  | occurred (o : Occurrence)
deriving DecidableEq

/-- The stage that is reached if it was one and then is another. -/
def reached (before after : Option ActivationStage) : List Happening :=
  match after with
  | some stage => if before = some stage then [] else [.reached stage]
  | none => []

namespace Moment

/-- The stage of an activation that is filed. -/
def stage? (m : Moment) (x : ActivationId) : Option ActivationStage :=
  (m.engine.activations.get? x).map (·.stage)

/-- What happens to an activation from one moment to the next, with what occurs to any. -/
def between (x : ActivationId) (m : Moment) (o : Option (ActivationId × Occurrence)) (m' : Moment) :
    List Happening :=
  ((o.filter (·.1 = x)).map fun t => .occurred t.2).toList ++ reached (m.stage? x) (m'.stage? x)

/-- What happens to an activation by a deed. -/
def happenings (x : ActivationId) (m : Moment) (d : Deed) : List Happening :=
  between x m (m.occurrence d) (m.after d)

/-- What happens to an activation by some deeds. -/
def life (x : ActivationId) : Moment → List Deed → List Happening
  | _, [] => []
  | m, d :: ds => happenings x m d ++ life x (m.after d) ds

/-- An activation was cancelled or retracted. -/
def Ended (m : Moment) (x : ActivationId) : Prop :=
  ∃ activation, m.engine.activations.get? x = some activation ∧
    (activation.cancelled ∨ activation.deactivated)

/-- Whether a player is being asked if an activation shall start. -/
def Offers (m : Moment) (x : ActivationId) : Prop :=
  ∃ s ∈ m.engine.queue.pending, ∃ view player alternatives,
    s.kind = .prompt ⟨view, player, .offer x alternatives⟩

end Moment

/-- What has happened to an activation at a stage, but for an offer. -/
def ActivationStage.story : ActivationStage → List Happening
  | idle => []
  | legalityChecked => [.reached .legalityChecked]
  | costsPaid => [.reached .legalityChecked, .occurred .paid, .reached .costsPaid]
  | deactivated =>
    [.reached .legalityChecked, .occurred .paid, .reached .costsPaid, .reached .deactivated]
  | targetsResolved =>
    [.reached .legalityChecked, .occurred .paid, .reached .costsPaid, .reached .targetsResolved]
  | executed =>
    [.reached .legalityChecked, .occurred .paid, .reached .costsPaid, .reached .targetsResolved,
      .occurred .effect, .occurred .counted, .reached .executed]
  | eventEmitted =>
    [.reached .legalityChecked, .occurred .paid, .reached .costsPaid, .reached .targetsResolved,
      .occurred .effect, .occurred .counted, .reached .executed, .occurred .announced,
      .reached .eventEmitted]
  | completed =>
    [.reached .legalityChecked, .occurred .paid, .reached .costsPaid, .reached .targetsResolved,
      .occurred .effect, .occurred .counted, .reached .executed, .occurred .announced,
      .reached .eventEmitted, .reached .completed]

/-- A life is the beginning of the story of an activation that was retracted or of one that is
complete, after an offer or without one. -/
def LifeCycle (life : List Happening) : Prop :=
  ∃ offered ∈ [[], [Happening.reached .idle]],
    life <+: offered ++ ActivationStage.deactivated.story ∨
      life <+: offered ++ ActivationStage.completed.story

/-! ## What an activation tells -/

/-- An activation and the parts that wait for it tell what has happened to it. -/
structure Activation.Tells (activation : Activation) (parts : List Part) (life : List Happening) :
    Prop where
  story : ∃ offered, (offered = [] ∧ activation.stage ≠ .idle ∨ offered = [.reached .idle]) ∧
    (life = offered ++ activation.stage.story ∧ .effect ∉ parts ∨
      activation.stage = .targetsResolved ∧ .execute ∉ parts ∧
        life = offered ++ activation.stage.story ++ [.occurred .effect])
  ending : activation.stage = .executed → parts = [] ∨ parts = [.announce, .complete]

namespace Activation.Tells

variable {a a' : Activation} {ps ps' : List Part} {life step : List Happening}

/-- It tells the same while its stage stays, if its effect neither starts nor is made to wait. -/
theorem stays (h : a.Tells ps life) (hstage : a'.stage = a.stage)
    (hparts : ∀ p ∈ ps', p = .effect ∨ p = .execute → p ∈ ps)
    (hending : a.stage = .executed → ps' = [] ∨ ps' = [.announce, .complete]) :
    a'.Tells ps' life := by
  obtain ⟨offered, hoffered, hstory⟩ := h.story
  refine ⟨⟨offered, ?_, ?_⟩, ?_⟩
  · rw [hstage]
    exact hoffered
  · rw [hstage]
    rcases hstory with ⟨hlife, heffect⟩ | ⟨hresolved, hexecute, hlife⟩
    · exact .inl ⟨hlife, fun hmem => heffect (hparts _ hmem (.inl rfl))⟩
    · exact .inr ⟨hresolved, fun hmem => hexecute (hparts _ hmem (.inr rfl)), hlife⟩
  · rw [hstage]
    exact hending

/-- It tells more when it moves on from a stage at which no effect can have started. -/
theorem moves (h : a.Tells ps life) (hstage : a.stage ≠ .targetsResolved) (hidle : a'.stage ≠ .idle)
    (hstory : a'.stage.story = a.stage.story ++ step) (hps : .effect ∉ ps')
    (hending : a'.stage = .executed → ps' = [] ∨ ps' = [.announce, .complete]) :
    a'.Tells ps' (life ++ step) := by
  obtain ⟨offered, hoffered, ⟨hlife, -⟩ | ⟨hresolved, -⟩⟩ := h.story
  · refine ⟨⟨offered, hoffered.imp_left fun h => ⟨h.1, hidle⟩, .inl ⟨?_, hps⟩⟩, hending⟩
    rw [hlife, hstory, List.append_assoc]
  · exact absurd hresolved hstage

/-- Whatever it tells is a life. -/
theorem lifeCycle (h : a.Tells ps life) : LifeCycle life := by
  obtain ⟨offered, hoffered, hstory⟩ := h.story
  refine ⟨offered, by rcases hoffered with ⟨rfl, -⟩ | rfl <;> simp, ?_⟩
  rcases hstory with ⟨rfl, -⟩ | ⟨hresolved, -, rfl⟩
  · cases a.stage with
    | deactivated => exact .inl (List.prefix_refl _)
    | _ =>
      refine .inr ((List.prefix_append_right_inj _).mpr ?_)
      decide
  · rw [hresolved, List.append_assoc]
    refine .inr ((List.prefix_append_right_inj _).mpr ?_)
    decide

end Activation.Tells

/-- What happens when an activation is taken a step on. -/
def stepHappenings (a : Option Activation) (o : Option Occurrence) (a' : Option Activation) :
    List Happening :=
  (o.map .occurred).toList ++ reached (a.map (·.stage)) (a'.map (·.stage))

/-- Each step of an activation is told by what it is then. -/
theorem Advance.tells {admits : AbilityId → Prop} {a a' : Option Activation} {ps ps' : List Part}
    {o : Option Occurrence} {life : List Happening} (h : Advance admits a ps o a' ps')
    (htells : ∀ activation, a = some activation → activation.Tells ps life)
    (hstart : a = none → ps = [] → life = []) {activation' : Activation}
    (ha' : a' = some activation') : activation'.Tells ps' (life ++ stepHappenings a o a') := by
  -- A step that leaves the stage as it is and at which nothing occurs tells nothing new.
  have hsame : ∀ {b b' : Activation} {ps : List Part}, b'.stage = b.stage → b'.Tells ps life →
      b'.Tells ps (life ++ stepHappenings (some b) none (some b')) := by
    intro b b' ps hstage hb'
    have hnothing : stepHappenings (some b) none (some b') = [] := by
      simp [stepHappenings, reached, hstage]
    rw [hnothing, List.append_nil]
    exact hb'
  cases h with
  | start hstage hlive _ =>
    obtain rfl := Option.some.inj ha'
    refine ⟨⟨[], .inl ⟨rfl, by simp [hstage]⟩, .inl ⟨?_, by simp⟩⟩, by simp [hstage]⟩
    simp [hstart rfl rfl, hstage, stepHappenings, reached, ActivationStage.story]
  | offer hstage hlive =>
    obtain rfl := Option.some.inj ha'
    refine ⟨⟨[.reached .idle], .inr rfl, .inl ⟨?_, by simp⟩⟩, by simp [hstage]⟩
    simp [hstart rfl rfl, hstage, stepHappenings, reached, ActivationStage.story]
  | decline => simp at ha'
  -- A stage that is reached adds its entries to the story.
  | accept hstage choice _ =>
    obtain rfl := Option.some.inj ha'
    exact (htells _ rfl).moves (by simp [hstage]) (by simp)
      (by simp [hstage, stepHappenings, reached, ActivationStage.story]) (by simp) (by simp)
  | skip a hp =>
    subst ha'
    exact hsame rfl ((htells _ rfl).stays rfl (by simp) fun _ => .inl rfl)
  | refuse hstage =>
    obtain rfl := Option.some.inj ha'
    exact hsame rfl ((htells _ rfl).stays rfl (by simp) fun _ => .inl rfl)
  | pay hstage receipts hps =>
    obtain rfl := Option.some.inj ha'
    exact (htells _ rfl).moves (by simp [hstage]) (by simp)
      (by simp [hstage, stepHappenings, reached, ActivationStage.story])
      (fun hmem => by simpa using hps.subset hmem) (by simp)
  | miss hstage targets =>
    obtain rfl := Option.some.inj ha'
    exact hsame rfl ((htells _ rfl).stays rfl (by simp) fun _ => .inl rfl)
  | ask hstage targets i =>
    obtain rfl := Option.some.inj ha'
    exact hsame rfl ((htells _ rfl).stays rfl (by simp) (by simp [hstage]))
  | answer a slot t =>
    obtain ⟨b, rfl, rfl⟩ := Option.map_eq_some_iff.mp ha'
    exact hsame (b := b) rfl ((htells b rfl).stays rfl (by simp) (htells b rfl).ending)
  | resolve hstage targets =>
    obtain rfl := Option.some.inj ha'
    exact (htells _ rfl).moves (by simp [hstage]) (by simp)
      (by simp [hstage, stepHappenings, reached, ActivationStage.story]) (by simp) (by simp)
  -- A retraction drops parts, but the effect is not among what waits at this stage.
  | retract hstage hps =>
    obtain rfl := Option.some.inj ha'
    refine (htells _ rfl).moves (by simp [hstage]) (by simp)
      (by simp [hstage, stepHappenings, reached, ActivationStage.story]) (fun hmem => ?_) (by simp)
    obtain ⟨_, -, ⟨-, heffect⟩ | ⟨hresolved, -⟩⟩ := (htells _ rfl).story
    · exact heffect (hps.subset hmem)
    · simp [hstage] at hresolved
  -- That the effect has started is not told by the stage: the second form of `Tells.story`
  -- begins here and ends with the conclusion.
  | execute hstage =>
    obtain rfl := Option.some.inj ha'
    obtain ⟨offered, hoffered, ⟨rfl, -⟩ | ⟨-, hexecute, -⟩⟩ := (htells _ rfl).story
    · exact ⟨⟨offered, hoffered, .inr ⟨hstage, by simp, by simp [stepHappenings, reached]⟩⟩,
        by simp [hstage]⟩
    · simp at hexecute
  | conclude hstage hps =>
    obtain rfl := Option.some.inj ha'
    obtain ⟨offered, hoffered, ⟨-, heffect⟩ | ⟨-, -, rfl⟩⟩ := (htells _ rfl).story
    · simp at heffect
    · refine ⟨⟨offered, hoffered.imp_left fun h => ⟨h.1, by simp⟩, .inl ⟨?_, ?_⟩⟩, fun _ => hps⟩
      · simp [hstage, stepHappenings, reached, ActivationStage.story]
      · rcases hps with rfl | rfl <;> simp
  | announce hstage hps =>
    obtain rfl := Option.some.inj ha'
    exact (htells _ rfl).moves (by simp [hstage]) (by simp)
      (by simp [hstage, stepHappenings, reached, ActivationStage.story])
      (fun hmem => by simpa using hps.subset hmem) (by simp)
  | complete hstage =>
    obtain rfl := Option.some.inj ha'
    -- The end comes after the announcement, for it has waited behind it.
    have hemitted := hstage.resolve_left fun hexecuted => by
      simpa using (htells _ rfl).ending hexecuted
    exact (htells _ rfl).moves (by simp [hemitted]) (by simp)
      (by simp [hemitted, stepHappenings, reached, ActivationStage.story]) (by simp) (by simp)

/-- Nothing occurs to an activation that is not filed then. -/
theorem Advance.occurrence_gone {admits : AbilityId → Prop} {a : Option Activation}
    {ps ps' : List Part} {o : Option Occurrence} (h : Advance admits a ps o none ps') :
    o = none := by
  generalize ha' : none = a' at h
  cases h with
  | decline => rfl
  | skip => rfl
  | answer => rfl
  | _ => simp at ha'

theorem reached_mem_stepHappenings {a a' : Option Activation} {o : Option Occurrence}
    {stage : ActivationStage} : .reached stage ∈ stepHappenings a o a' ↔
      a'.map (·.stage) = some stage ∧ a.map (·.stage) ≠ some stage := by
  unfold stepHappenings reached
  cases a' with
  | none => simp
  | some a' =>
    by_cases hsame : a.map (·.stage) = some a'.stage
    · rw [Option.map_some, hsame]
      simp
    · simp only [Option.map_some, if_neg hsame, List.mem_append, List.mem_singleton,
        Happening.reached.injEq, Option.some.injEq]
      constructor
      · rintro (h | rfl)
        · simp at h
        · exact ⟨rfl, hsame⟩
      · rintro ⟨rfl, -⟩
        exact .inr rfl

/-- Only an offer leaves an activation at the first stage, and it then waits for an answer. -/
theorem Advance.offers {admits : AbilityId → Prop} {a a' : Option Activation} {ps ps' : List Part}
    {o : Option Occurrence} (h : Advance admits a ps o a' ps')
    (hidle : .reached .idle ∈ stepHappenings a o a') : ps' = [.offer] := by
  obtain ⟨hafter, hbefore⟩ := reached_mem_stepHappenings.mp hidle
  cases h with
  | offer => rfl
  | decline => simp at hafter
  | skip => exact absurd hafter hbefore
  | answer a =>
    rw [Option.map_map] at hafter
    exact absurd hafter hbefore
  | refuse => exact absurd hafter hbefore
  | miss => exact absurd hafter hbefore
  | ask => exact absurd hafter hbefore
  | execute => exact absurd hafter hbefore
  | start hstage => simp [hstage] at hafter
  | _ => simp at hafter

/-- Nothing occurs any more to an activation that was cancelled or retracted, and it stays so. -/
theorem Advance.over {admits : AbilityId → Prop} {a a' : Option Activation} {ps ps' : List Part}
    {o : Option Occurrence} (h : Advance admits a ps o a' ps') (hfits : Fits a ps)
    (hover : ∀ activation, a = some activation → activation.cancelled ∨ activation.deactivated)
    (hentered : ¬(a = none ∧ ps = [])) :
    o = none ∧ ∀ activation, a' = some activation →
      activation.cancelled ∨ activation.deactivated := by
  -- Nothing waits for what was cancelled, and what was retracted has got no further.
  have hpast : ∀ {b : Activation}, a = some b → ps ≠ [] → b.stage = .deactivated := by
    rintro b rfl hps
    rcases hover b rfl with hcancelled | hdeactivated
    · exact absurd (hfits.cancelled hcancelled).1 hps
    · exact hfits.deactivated.mp hdeactivated
  cases h with
  | start => exact absurd ⟨rfl, rfl⟩ hentered
  | offer => exact absurd ⟨rfl, rfl⟩ hentered
  | decline => simp
  | skip => exact ⟨rfl, hover⟩
  | answer a =>
    refine ⟨rfl, fun activation h => ?_⟩
    obtain ⟨b, rfl, rfl⟩ := Option.map_eq_some_iff.mp h
    exact hover b rfl
  | retract =>
    refine ⟨rfl, fun activation h => ?_⟩
    obtain rfl := Option.some.inj h
    exact .inr rfl
  -- These are steps from other stages than that of a retracted activation.
  | accept hstage | refuse hstage | pay hstage | miss hstage | ask hstage | resolve hstage
  | execute hstage | conclude hstage | announce hstage | complete hstage =>
    simp [hpast rfl (by simp)] at hstage

namespace Moment

variable {m m' : Moment} {x : ActivationId} {told : List Happening} {kept : Prop}
  {o : Option (ActivationId × Occurrence)}

/-! ## From moment to moment -/

/-- What is filed tells what has happened so far. -/
structure Tells (m : Moment) (x : ActivationId) (told : List Happening) : Prop where
  filed : ∀ activation, m.engine.activations.get? x = some activation →
    activation.Tells (m.partsOf x) told
  fresh : m.engine.nextActivation ≤ x.number → told = []
  cycle : LifeCycle told

/-- Nothing happens to an activation that is spared. -/
theorem between_spared {mine : ActivationId → Bool} {e : Engine}
    (hactivations : e.activations = m.engine.activations)
    (hspares : e.Spares mine kept m'.engine) (hx : mine x = false)
    (ho : ∀ t, o = some t → t.1 ≠ x) : between x m o m' = [] := by
  have hnone : (o.filter (·.1 = x)) = none := by
    cases o with
    | none => rfl
    | some t => simpa using ho t rfl
  have hreached : reached (m.stage? x) (m'.stage? x) = [] := by
    unfold stage? reached
    rcases hspares.activations x hx with heq | ⟨_, -, -, hgone⟩
    · rw [heq, hactivations]
      split <;> simp_all
    · rw [hgone]
      rfl
  rw [between, hnone, hreached]
  rfl

/-- Nothing happens to any activation but the one that is taken a step on. -/
theorem between_other {y : ActivationId} {o : Option Occurrence}
    (hspares : (m.counted y o).Spares (· = y) kept m'.engine) (hxy : x ≠ y) :
    between x m (o.map fun o => (y, o)) m' = [] := by
  obtain ⟨usage, husage⟩ := m.counted_eq y o
  refine between_spared (by rw [husage]) hspares (by simpa using hxy) fun t ht => ?_
  obtain ⟨o', -, rfl⟩ := Option.map_eq_some_iff.mp ht
  exact fun h => hxy h.symm

/-- What occurs to an activation is what occurs to any. -/
theorem occurrence_of_mem_between {o' : Occurrence} (h : .occurred o' ∈ between x m o m') :
    o = some (x, o') := by
  rcases List.mem_append.mp h with hmem | hmem
  · rw [Option.mem_toList] at hmem
    obtain ⟨t, hfilter, heq⟩ := Option.map_eq_some_iff.mp hmem
    obtain ⟨ho, htx⟩ := Option.filter_eq_some_iff.mp hfilter
    obtain rfl := of_decide_eq_true htx
    rw [ho, ← Happening.occurred.inj heq]
  · unfold reached at hmem
    split at hmem
    · split at hmem <;> simp at hmem
    · simp at hmem

/-- Where both the announcement and the end wait and are kept, they go on waiting. -/
theorem eq_of_sublist_pair {ps : List Part} (h : ps.Sublist [.announce, .complete])
    (hannounce : .announce ∈ ps) (hcomplete : .complete ∈ ps) : ps = [.announce, .complete] := by
  cases h with
  | cons _ h => simpa using h.subset hannounce
  | cons_cons _ h =>
    rcases List.sublist_singleton.mp h with rfl | rfl
    · simp at hcomplete
    · rfl

/-- A spared activation tells what it told. -/
theorem Tells.spared (h : m.Sound) (htells : m.Tells x told) {mine : ActivationId → Bool}
    {e : Engine} (hqueue : e.queue = m.engine.queue)
    (hactivations : e.activations = m.engine.activations)
    (hnext : e.nextActivation = m.engine.nextActivation) (hspares : e.Spares mine True m'.engine)
    (hx : mine x = false)
    (heffect : ∀ t, m'.effect? = some t → t.2.1 = x → m.effect? = some t) : m'.Tells x told := by
  have hsub := partsOf_sublist hqueue hspares hx heffect
  refine ⟨fun activation hget => ?_, fun hfresh => ?_, htells.cycle⟩
  · have hget' := get?_spared hactivations hspares hx hget
    have htold := htells.filed activation hget'
    refine htold.stays rfl (fun p hp _ => hsub.subset hp) fun hstage => ?_
    -- At this stage no effect is running, so what waits for the activation is in the queue.
    have hidle : ∀ t, m.effect? = some t → t.2.1 ≠ x := by
      rintro ⟨a, _, activation'⟩ ht rfl
      obtain rfl := Option.some.inj (hget'.symm.trans (h.running _ _ _ ht))
      simp [(h.effect_stage ht).1] at hstage
    rw [partsOf_of_no_effect hidle] at hsub htold
    have hwaiting : m'.partsOf x = m'.engine.queue.partsOf x :=
      partsOf_of_no_effect fun t ht htx => hidle t (heffect t ht htx) htx
    have hkept : ∀ p ∈ m.engine.queue.partsOf x, p ≠ .choose → p ∈ m'.partsOf x := by
      intro p hp hchoose
      rw [hwaiting]
      exact hspares.mem_partsOf trivial hx (hqueue ▸ hp) hchoose
    rcases htold.ending hstage with hnil | hpair
    · rw [hnil] at hsub
      exact .inl (List.sublist_nil.mp hsub)
    · rw [hpair] at hsub hkept
      exact .inr (eq_of_sublist_pair hsub (hkept _ (by simp) (by decide))
        (hkept _ (by simp) (by decide)))
  · have hnumbers := hspares.numbers
    exact htells.fresh (by omega)

/-- From one moment to the next a given activation is spared and nothing happens to it, or it is
taken a step on. -/
theorem Passage.spared_or_taken (h : Passage kept m o m') (x : ActivationId) :
    (∃ usage mine, ({ m.engine with usage := usage } : Engine).Spares mine kept m'.engine ∧
      mine x = false ∧ (∀ t, m'.effect? = some t → t.2.1 = x → m.effect? = some t) ∧
      between x m o m' = []) ∨
    ∃ o', Advance m.engine.Admits (m.engine.activations.get? x) (m.partsOf x) o'
        (m'.engine.activations.get? x) (m'.partsOf x) ∧
      (m.engine.activations.get? x = none → m.partsOf x = [] →
        m.engine.nextActivation ≤ x.number) ∧
      x.number < m'.engine.nextActivation ∧
      between x m o m' =
        stepHappenings (m.engine.activations.get? x) o' (m'.engine.activations.get? x) := by
  cases h with
  | spare hspares heffect =>
    exact .inl ⟨m.engine.usage, _, hspares, rfl, fun t ht _ => heffect ▸ ht,
      between_spared rfl hspares rfl (by simp)⟩
  | @step _ y o hspares heffect hadvance _ hnumber hentry =>
    by_cases hxy : x = y
    · subst hxy
      refine .inr ⟨o, hadvance, hentry, hnumber, ?_⟩
      cases o <;> simp [between, stepHappenings, stage?, Option.filter]
    -- Another is taken on: the given one is spared.
    · have hbetween := between_other hspares hxy
      obtain ⟨usage, husage⟩ := m.counted_eq y o
      rw [husage] at hspares
      refine .inl ⟨usage, _, hspares, by simpa using hxy, fun t ht htx => ?_, hbetween⟩
      rcases heffect t ht with ⟨-, hold⟩ | ⟨hty, -⟩
      · exact hold
      · exact absurd (htx.symm.trans hty) hxy

/-- From one moment to the next what is filed goes on telling what has happened. -/
theorem Tells.passage (h : m.Sound) (htells : m.Tells x told) (hpassage : Passage True m o m') :
    m'.Tells x (told ++ between x m o m') := by
  rcases hpassage.spared_or_taken x with ⟨usage, mine, hspares, hx, heffect, hbetween⟩ |
    ⟨o', hadvance, hentry, hnumber, hbetween⟩
  · rw [hbetween, List.append_nil]
    exact htells.spared (e := { m.engine with usage := usage }) h rfl rfl rfl hspares hx heffect
  · rw [hbetween]
    have hfiled : ∀ activation', m'.engine.activations.get? x = some activation' →
        activation'.Tells (m'.partsOf x)
          (told ++ stepHappenings (m.engine.activations.get? x) o'
            (m'.engine.activations.get? x)) := fun activation' hget' =>
      hadvance.tells htells.filed (fun hnone hnil => htells.fresh (hentry hnone hnil)) hget'
    refine ⟨hfiled, fun hfresh => by omega, ?_⟩
    -- What is gone from the file has no more to tell than it had told.
    cases hget' : m'.engine.activations.get? x with
    | some activation' => exact hget' ▸ (hfiled activation' hget').lifeCycle
    | none =>
      obtain rfl : o' = none := Advance.occurrence_gone (hget' ▸ hadvance)
      simpa [stepHappenings, reached] using htells.cycle

/-! ## Offers -/

theorem offers_of_part (h : .offer ∈ m.partsOf x) : m.Offers x := by
  have hqueue : .offer ∈ m.engine.queue.partsOf x := by
    unfold partsOf at h
    split at h
    · split at h
      · simpa using h
      · exact h
    · exact h
  obtain ⟨t, ht, hoffer⟩ := List.mem_map.mp hqueue
  obtain ⟨hmem, htx⟩ := List.mem_filter.mp ht
  obtain ⟨s, hs, hpart⟩ := List.mem_filterMap.mp hmem
  have hpart' : s.kind.part? = some (x, .offer) := by
    rw [hpart, ← hoffer, ← of_decide_eq_true htx]
  refine ⟨s, StepQueue.mem_pending_iff.mpr hs, ?_⟩
  unfold StepKind.part? at hpart'
  split at hpart' <;> simp at hpart'
  subst hpart'
  exact ⟨_, _, _, by assumption⟩

/-- An activation is idle only once a player is asked about it. -/
theorem Passage.offers (h : Passage kept m o m') (hidle : .reached .idle ∈ between x m o m') :
    m'.Offers x := by
  rcases h.spared_or_taken x with ⟨_, _, -, -, -, hbetween⟩ | ⟨o', hadvance, -, -, hbetween⟩
  · simp [hbetween] at hidle
  · rw [hbetween] at hidle
    exact offers_of_part (by simp [hadvance.offers hidle])

/-! ## The end -/

/-- An activation was entered, and if it is still filed it was cancelled or retracted. -/
structure Over (m : Moment) (x : ActivationId) : Prop where
  entered : x.number < m.engine.nextActivation
  ended : ∀ activation, m.engine.activations.get? x = some activation →
    activation.cancelled ∨ activation.deactivated

theorem Over.passage (h : m.Sound) (hover : m.Over x) (hpassage : Passage kept m o m') :
    m'.Over x ∧ ∀ o', .occurred o' ∉ between x m o m' := by
  rcases hpassage.spared_or_taken x with ⟨usage, mine, hspares, hx, -, hbetween⟩ |
    ⟨o', hadvance, hentry, hnumber, hbetween⟩
  · refine ⟨⟨Nat.lt_of_lt_of_le hover.entered hspares.numbers, fun activation hget => ?_⟩, ?_⟩
    · exact hover.ended activation
        (get?_spared (e := { m.engine with usage := usage }) rfl hspares hx hget)
    · simp [hbetween]
  · have hentered : ¬(m.engine.activations.get? x = none ∧ m.partsOf x = []) := fun hnew =>
      Nat.not_lt_of_le (hentry hnew.1 hnew.2) hover.entered
    obtain ⟨rfl, hended⟩ := hadvance.over (h.fits x) hover.ended hentered
    refine ⟨⟨hnumber, hended⟩, fun o' hmem => ?_⟩
    rw [hbetween] at hmem
    unfold stepHappenings reached at hmem
    split at hmem
    · split at hmem <;> simp at hmem
    · simp at hmem

/-- Nothing occurs in a run to an activation that is over. -/
theorem Over.not_occurred (h : m.Sound) (hover : m.Over x) (ds : List Deed) (o : Occurrence) :
    .occurred o ∉ life x m ds := by
  induction ds generalizing m with
  | nil => simp [life]
  | cons d ds ih =>
    obtain ⟨hafter, hnone⟩ := hover.passage h (Moment.passage h d)
    intro hmem
    rcases List.mem_append.mp hmem with hmem | hmem
    · exact hnone o hmem
    · exact ih (h.after d) hafter hmem

/-! ## Runs -/

/-- In an undisturbed run what is filed goes on telling what has happened. -/
theorem Tells.run (h : m.Sound) (htells : m.Tells x told) (ds : List Deed)
    (halong : Along Undisturbed m ds) : (m.run ds).Tells x (told ++ life x m ds) := by
  induction ds generalizing m told with
  | nil =>
    rw [life, List.append_nil]
    exact htells
  | cons d ds ih =>
    obtain ⟨hundisturbed, halong⟩ := halong
    have hafter := htells.passage h (eq_true hundisturbed ▸ Moment.passage h d)
    rw [life, ← List.append_assoc]
    exact ih (h.after d) hafter halong

theorem tells_start (b : Board) (x : ActivationId) : (start b).Tells x [] where
  filed activation hget := by simp [start, Engine.new, IdMap.get?_empty] at hget
  fresh _ := rfl
  cycle := ⟨[], by simp, .inl List.nil_prefix⟩

/-- Unless somebody withdraws steps of activations, the life of an activation is the beginning of a
story that it can have. It is idle only if a player is asked whether it shall start. And once it was
cancelled or retracted its costs are not paid any more, its effect does not start, its use is not
counted and its resolution is not announced. -/
theorem life_cycle (b : Board) (ds : List Deed) (x : ActivationId)
    (h : Along Undisturbed (start b) ds) :
    LifeCycle (life x (start b) ds) ∧
      (∀ past d rest, ds = past ++ d :: rest →
        .reached .idle ∈ happenings x ((start b).run past) d →
          ((start b).run (past ++ [d])).Offers x) ∧
      ∀ past rest, ds = past ++ rest → ((start b).run past).Ended x →
        ∀ o, .occurred o ∉ life x ((start b).run past) rest := by
  refine ⟨?_, fun past d rest _ hidle => ?_, fun past rest _ hended o => ?_⟩
  · simpa using ((tells_start b x).run (sound_start b) ds h).cycle
  · rw [run_append]
    exact (Moment.passage ((sound_start b).run past) d).offers hidle
  · obtain ⟨activation, hget, hended⟩ := hended
    have hsound := (sound_start b).run past
    -- What is filed was given its number.
    refine Over.not_occurred hsound ⟨?_, fun activation' hget' => ?_⟩ rest o
    · by_contra hge
      have hnone := (hsound.fresh x (Nat.le_of_not_lt hge)).1
      rw [hget] at hnone
      simp at hnone
    · obtain rfl := Option.some.inj (hget.symm.trans hget')
      exact hended

/-- The deed is given an action, which is used. -/
def useOfDeed : List Deed :=
  [.call (.attach ⟨3⟩ { kind := .action, handler := some fun _ => .done }),
    .call (.order (.activate ⟨0⟩ ⟨0⟩)), .turn, .turn, .turn, .go, .turn, .turn]

/-- The use goes all the way. -/
theorem life_cycle_useOfDeed :
    Along Undisturbed (start deedInPlay) useOfDeed ∧
      life ⟨0⟩ (start deedInPlay) useOfDeed = ActivationStage.completed.story ∧
      LifeCycle (life ⟨0⟩ (start deedInPlay) useOfDeed) := by
  have hundisturbed : Along Undisturbed (start deedInPlay) useOfDeed := by decide +kernel
  exact ⟨hundisturbed, by decide +kernel, (life_cycle deedInPlay useOfDeed ⟨0⟩ hundisturbed).1⟩

end Moment

end Doomtown
