import Doomtown.Proofs.Registration
import Doomtown.Proofs.TakeBack

/-!
# Usage counts are exact

The counter of an ability is made when the ability is registered, set back when the event fires that
ends its period, and counted up where the effect of an activation has run. Nothing else touches it.
So the count of an ability that is registered and has a limit is the number of its activations that
were executed since the last of the deeds by which a period began (`Moment.usage_exact`). An
activation that comes to nothing is not among them.
-/

namespace Doomtown

/-! ## Periods -/

namespace Engine.Entry

variable {ability : Ability} {limit : AbilityLimit} {s s' : Entry}

/-- The entry of an ability that has a limit is reset by the event that ends the limit's period, and
by no other. -/
theorem Whole.hear_counter (h : s.Whole ability) (hlimit : ability.limit = some limit)
    (event : EventName) : (s.hear event).counter =
      if event = limit.period.resetEvent then s.counter.map (·.reset) else s.counter := by
  have hlistens : (s.subscriptions.any fun s => s.event = event && s.listener = .resetUsage) =
      decide (event = limit.period.resetEvent) := by
    have hany : (s.subscriptions.any fun s => s.event = event && s.listener = .resetUsage) =
        ability.subscriptions.any fun t => t.1 = event && t.2 = .resetUsage := by
      rw [← h.subscriptions, List.any_map]
      rfl
    rw [hany]
    -- Only the first subscription resets, and it is to that event.
    unfold Ability.subscriptions
    rw [hlimit]
    have hreset : decide (limit.period.resetEvent = event) =
        decide (event = limit.period.resetEvent) := decide_eq_decide.mpr eq_comm
    by_cases haction : ability.isAction <;> simp [haction, hreset]
  unfold hear
  rw [hlistens]
  by_cases hevent : event = limit.period.resetEvent <;> simp [hevent]

/-- The counter of an ability with a limit is made anew with its entry. -/
theorem Enters.counter_new (h : Enters ability s s') (hproper : s.Proper (some ability))
    (hlimit : ability.limit = some limit) :
    s.counter = Option.none ∧ s'.counter = some (.new limit) := by
  have hempty : s = .empty := by
    refine hproper.resolve_right ?_
    rintro ⟨ability', hability', hwhole⟩
    -- An ability with a limit has something to subscribe to.
    obtain rfl := Option.some.inj hability'
    have hnone := hwhole.subscriptions
    rw [h.none] at hnone
    simp [Ability.subscriptions, hlimit] at hnone
  rw [h.counter, hempty, hlimit]
  exact ⟨rfl, rfl⟩

end Engine.Entry

namespace Moment

variable {m : Moment} {d : Deed} {e e' : Engine} {a : AbilityId} {x : ActivationId}
  {limit : AbilityLimit} {b : Board} {ds : List Deed}

/-- A period of an ability's counter begins by a deed: the counter is made, or the event fires that
ends the period before. -/
def Renews (m : Moment) (d : Deed) (a : AbilityId) (limit : AbilityLimit) : Prop :=
  m.engine.usage.count? a = none ∧ ((m.after d).engine.usage.count? a).isSome ∨
    ∃ event, m.fires? d = some event ∧ event.name = limit.period.resetEvent

/-- What a deed does to the entry of an ability, once the use is counted that it counts. -/
theorem Alters.entry (h : m.Alters d e e') (hproper : e.Proper) (a : AbilityId) :
    e'.entry a = e.entry a ∨
      (∃ ability, e'.ability? a = some ability ∧ (e.entry a).Enters ability (e'.entry a) ∧
        (e.entry a).Proper (some ability)) ∨
      e'.entry a = .empty ∨
      ∃ event, m.fires? d = some event ∧ e'.entry a = (e.entry a).hear event.name := by
  have htended : ∀ {here : Bool}, e'.abilities = e.abilities →
      (e.entry a).Tends (e.ability? a) here (e'.entry a) →
      e'.entry a = e.entry a ∨
        (∃ ability, e'.ability? a = some ability ∧ (e.entry a).Enters ability (e'.entry a) ∧
          (e.entry a).Proper (some ability)) ∨ e'.entry a = .empty := by
    intro here habilities hentry
    generalize hs' : e'.entry a = s' at hentry ⊢
    cases hentry with
    | keeps => exact .inl rfl
    | @enters ability _ hability _ hnew =>
      exact .inr (.inl ⟨ability, (Engine.ability?_congr habilities a).trans hability, hnew,
        hability ▸ hproper a⟩)
    | leaves _ => exact .inr (.inr rfl)
  cases h with
  | tends h => exact (htended h.abilities (h.entries a)).imp_right fun h => h.imp_right .inl
  | relocates c h => exact (htended h.abilities (h.entries a)).imp_right fun h => h.imp_right .inl
  | refunds _ _ h => exact .inl (h.entries a)
  | shifts _ _ _ _ h => exact .inl (h.entries a)
  | sets _ _ _ h => exact .inl (h.entries a)
  | @registers a' ability _ hability h henters =>
    by_cases ha : a = a'
    · subst ha
      exact .inr (.inl ⟨ability, (Engine.ability?_congr h.abilities a).trans hability, henters,
        hability ▸ hproper a⟩)
    · exact .inl (h.others a ha)
  | unregisters a' _ h hentry =>
    by_cases ha : a = a'
    · subst ha
      exact .inr (.inr (.inl hentry))
    · exact .inl (h.others a ha)
  | attaches c design card ability h =>
    rcases e.eq_next_or_ne a with rfl | ha
    · have hentry := h.enters hproper
      split at hentry
      · exact .inr (.inl ⟨ability, by rw [h.ability?, if_pos rfl], hentry,
          .inl hproper.entry_next⟩)
      · exact .inr (.inr (.inl hentry))
    · exact .inl (h.others a ha)
  | hears event hfires h => exact .inr (.inr (.inr ⟨event, hfires, h.entries a⟩))

/-- What a count was before a deed that does nothing to it but to count a use. -/
theorem count?_of_kept {n : Nat}
    (hkept : ((m.countedBy (m.occurrence d)).entry a).counter.map (·.count) = some n) :
    m.engine.usage.count? a = some (n - (m.use? d a).toList.length) ∧
      (m.use? d a).toList.length ≤ n := by
  have hcounted : (m.countedBy (m.occurrence d)).usage.count? a = some n := hkept
  rw [m.count?_countedBy] at hcounted
  obtain ⟨k, hk, rfl⟩ := Option.map_eq_some_iff.mp hcounted
  rw [hk, Nat.add_sub_cancel]
  exact ⟨rfl, Nat.le_add_left _ _⟩

/-- No period begins where there is a counter, unless its event fires. -/
theorem not_renews {n : Nat} (hn : m.engine.usage.count? a = some n)
    (hfires : ∀ event, m.fires? d = some event → event.name ≠ limit.period.resetEvent) :
    ¬m.Renews d a limit := by
  rintro (⟨hnone, -⟩ | ⟨event, hfires', hevent⟩)
  · rw [hn] at hnone
    simp at hnone
  · exact hfires event hfires' hevent

/-- A count after a deed is zero if a period begins by it, and otherwise what it was before, and one
more if the deed counts a use. -/
theorem count?_after (h : m.Sound) (hproper : m.engine.Proper)
    (hlimit : ∀ ability, (m.after d).engine.ability? a = some ability →
      ability.limit = some limit) {n : Nat}
    (hn : (m.after d).engine.usage.count? a = some n) :
    m.Renews d a limit ∧ n = 0 ∨
      ¬m.Renews d a limit ∧
        m.engine.usage.count? a = some (n - (m.use? d a).toList.length) ∧
        (m.use? d a).toList.length ≤ n := by
  have hproper' := proper_countedBy hproper (m.occurrence d)
  have hn' : ((m.after d).engine.entry a).counter.map (·.count) = some n := hn
  cases hfires : m.fires? d with
  | some event =>
    have hears := hears_of_fires hfires
    rw [hears.entries a] at hn'
    rcases hproper' a with hempty | ⟨ability, hability, hwhole⟩
    · rw [hempty] at hn'
      simp [Engine.Entry.hear, Engine.Entry.empty] at hn'
    · have hability' := (Engine.ability?_congr hears.abilities a).trans hability
      rw [hwhole.hear_counter (hlimit ability hability')] at hn'
      by_cases hevent : event.name = limit.period.resetEvent
      · rw [if_pos hevent, Option.map_map] at hn'
        obtain ⟨u, -, rfl⟩ := Option.map_eq_some_iff.mp hn'
        exact .inl ⟨.inr ⟨event, hfires, hevent⟩, rfl⟩
      · rw [if_neg hevent] at hn'
        have hbefore := count?_of_kept hn'
        refine .inr ⟨not_renews hbefore.1 fun event' hfires' => ?_, hbefore⟩
        rw [← Option.some.inj (hfires.symm.trans hfires')]
        exact hevent
  | none =>
    rcases (h.alters d).entry hproper' a with hsame | ⟨ability, hability, henters, hfits⟩ |
      hempty | ⟨event, hfires', -⟩
    · rw [hsame] at hn'
      have hbefore := count?_of_kept hn'
      refine .inr ⟨not_renews hbefore.1 fun event hfires' => ?_, hbefore⟩
      rw [hfires] at hfires'
      simp at hfires'
    · obtain ⟨hnone, hnew⟩ := henters.counter_new hfits (hlimit ability hability)
      rw [hnew] at hn'
      obtain rfl : 0 = n := Option.some.inj hn'
      refine .inl ⟨.inl ⟨?_, by rw [hn]; rfl⟩, rfl⟩
      have hcount : (m.countedBy (m.occurrence d)).usage.count? a = none :=
        congrArg (Option.map AbilityUsage.count) hnone
      rw [m.count?_countedBy] at hcount
      exact Option.map_eq_none_iff.mp hcount
    · rw [hempty] at hn'
      simp [Engine.Entry.empty] at hn'
    · rw [hfires] at hfires'
      simp at hfires'

/-- A counter in a run counts the uses since its period has begun. -/
theorem exists_renewal
    (hlimit : ∀ past rest, ds = past ++ rest → ∀ ability,
      ((start b).run past).engine.ability? a = some ability → ability.limit = some limit) {n : Nat}
    (hn : ((start b).run ds).engine.usage.count? a = some n) :
    ∃ past d rest, ds = past ++ d :: rest ∧ ((start b).run past).Renews d a limit ∧
      Along (fun m d => ¬m.Renews d a limit) ((start b).run (past ++ [d])) rest ∧
      n = (uses a ((start b).run (past ++ [d])) rest).length := by
  induction ds using List.reverseRecOn generalizing n with
  | nil =>
    simp [run, start, Engine.new, UsageTracker.empty, UsageTracker.count?, IdMap.get?_empty] at hn
  | append_singleton ds d ih =>
    have hproper := proper_run (sound_start b) (proper_start b) ds
    have hlast := hlimit (ds ++ [d]) [] (by simp)
    rw [run_append] at hn hlast
    rcases count?_after ((sound_start b).run ds) hproper hlast hn with ⟨hrenews, rfl⟩ |
      ⟨hnot, hbefore, hle⟩
    · exact ⟨ds, d, [], rfl, hrenews, trivial, rfl⟩
    · obtain ⟨past, d', rest, rfl, hrenews, hkept, hlength⟩ :=
        ih (fun past rest hds => hlimit past (rest ++ [d]) (by simp [hds])) hbefore
      have hrun : ((start b).run (past ++ [d'])).run rest = (start b).run (past ++ d' :: rest) := by
        rw [← run_append]
        simp
      refine ⟨past, d', rest ++ [d], by simp, hrenews, ?_, ?_⟩
      · rw [along_append, hrun]
        exact ⟨hkept, hnot, trivial⟩
      · rw [uses_append, hrun, List.length_append, ← hlength]
        simp only [uses, List.append_nil]
        omega

end Moment

/-! ## Activations that are executed -/

/-- The effect of an activation has run, and the activation was neither cancelled nor retracted. -/
structure Activation.Done (activation : Activation) : Prop where
  cancelled : activation.cancelled = false
  deactivated : activation.deactivated = false
  executed : 5 ≤ activation.stage.rank

/-- Whatever happens to an activation once its effect has run, it is not cancelled or retracted. -/
theorem Advance.done {admits : AbilityId → Prop} {y y' : Activation} {ps ps' : List Part}
    {o : Option Occurrence} (h : Advance admits (some y) ps o (some y') ps') (hdone : y.Done) :
    y'.Done := by
  have hrank := Nat.le_trans hdone.executed h.forward.1
  generalize hbefore : some y = before at h
  generalize hafter : some y' = after at h
  cases h with
  | start | offer => simp at hbefore
  | decline => simp at hafter
  | answer b =>
    subst hbefore
    obtain rfl := Option.some.inj hafter
    exact ⟨hdone.cancelled, hdone.deactivated, hrank⟩
  | skip =>
    obtain rfl := Option.some.inj (hbefore.trans hafter.symm)
    exact hdone
  -- At these stages the effect has not run yet.
  | accept hstage | refuse hstage | pay hstage | miss hstage | ask hstage | resolve hstage
  | retract hstage | execute hstage | conclude hstage =>
    obtain rfl := Option.some.inj hbefore
    have hexecuted := hdone.executed
    simp [hstage, ActivationStage.rank] at hexecuted
  | announce | complete =>
    obtain rfl := Option.some.inj hbefore
    obtain rfl := Option.some.inj hafter
    exact ⟨hdone.cancelled, hdone.deactivated, hrank⟩

/-- A use is counted of an activation that has all its targets, and the activation is executed. -/
theorem Advance.concludes {admits : AbilityId → Prop} {y y' : Option Activation}
    {ps ps' : List Part} (h : Advance admits y ps (some .counted) y' ps') :
    ∃ activation, y = some activation ∧ activation.stage = .targetsResolved ∧
      y' = some { activation with stage := .executed } := by
  cases h with
  | conclude hstage _ => exact ⟨_, rfl, hstage, rfl⟩

namespace Moment

variable {m : Moment} {d d' : Deed} {a : AbilityId} {x : ActivationId} {limit : AbilityLimit}
  {b : Board} {ds past rest : List Deed}

/-- The activation whose handler fails by a deed. -/
def fails? (m : Moment) (d : Deed) : Option ActivationId :=
  match m.running, d with
  | some ⟨.effect _ x _, .fail _⟩, .go => some x
  | _, _ => none

/-- An activation comes to nothing by a deed: it is declined, or not legal any more when it is
accepted; or it is cancelled or retracted; or its handler fails. -/
def ComesToNothing (m : Moment) (d : Deed) (x : ActivationId) : Prop :=
  m.stage? x = some .idle ∧ (m.after d).stage? x = none ∨ (m.after d).Ended x ∨
    m.fails? d = some x

/-- An activation whose use is counted by a deed is taken on by the deed. -/
theorem Counts.advance (h : m.Sound) (hcounts : m.Counts d x a) :
    Advance m.engine.Admits (m.engine.activations.get? x) (m.partsOf x) (some .counted)
      ((m.after d).engine.activations.get? x) ((m.after d).partsOf x) :=
  (hcounts.1 ▸ Moment.passage h d).advance

/-- An activation whose use is counted by a deed is executed by it. -/
theorem Counts.executes (h : m.Sound) (hcounts : m.Counts d x a) : m.Executes d x a := by
  have hadvance := hcounts.advance h
  obtain ⟨activation, hget, hstage, hget'⟩ := hadvance.concludes
  have hability := hcounts.2
  rw [abilityOf?, hget] at hability
  refine ⟨?_, by rw [abilityOf?, hget']; exact hability⟩
  rw [happenings, between]
  refine List.mem_append.mpr (.inr ?_)
  simp [reached, stage?, hget, hget', hstage]

/-- What was executed is done at every later moment. -/
theorem Counts.done_run (h : m.Sound) (hcounts : m.Counts d x a) (ds : List Deed) :
    ∀ activation, ((m.after d).run ds).engine.activations.get? x = some activation →
      activation.Done := by
  have hadvance := hcounts.advance h
  obtain ⟨activation, hget, -, hget'⟩ := hadvance.concludes
  have hfits := h.fits x
  rw [hget, hadvance.counted.1] at hfits
  obtain ⟨activation', heq, hlive, -⟩ := follows_of_fits hfits (by decide)
  obtain rfl := Option.some.inj heq
  obtain ⟨hcancelled, hdeactivated, -⟩ := Activation.isLive_iff.mp hlive
  have hnumber : x.number < (m.after d).engine.nextActivation := by
    refine Nat.lt_of_lt_of_le (h.number_lt ?_) (Moment.passage h d).numbers
    simp [hadvance.counted.1]
  refine (h.after d).filed_run (fun hadvance => hadvance.done) hnumber
    (fun activation' hfiled => ?_) ds
  rw [hget'] at hfiled
  obtain rfl := Option.some.inj hfiled
  exact ⟨hcancelled, hdeactivated, by simp [ActivationStage.rank]⟩

/-- No use is counted twice of an activation. -/
theorem Counts.not_again (h : m.Sound) (hcounts : m.Counts d x a) (ds : List Deed)
    {a' : AbilityId} :
    ¬((m.after d).run ds).Counts d' x a' := by
  intro hagain
  obtain ⟨activation, hget, hstage, -⟩ := (hagain.advance ((h.after d).run ds)).concludes
  have hdone := (hcounts.done_run h ds activation hget).executed
  simp [hstage, ActivationStage.rank] at hdone

/-- The uses that are counted by some deeds are the activations that are executed by one of them. -/
theorem mem_uses_iff (h : m.Sound) : x ∈ uses a m ds ↔
    ∃ past d rest, ds = past ++ d :: rest ∧ (m.run past).Executes d x a := by
  constructor
  · intro hmem
    induction ds generalizing m with
    | nil => simp [uses] at hmem
    | cons d ds ih =>
      rcases List.mem_append.mp hmem with hmem | hmem
      · have hcounts := use?_eq_some_iff.mp (Option.mem_toList.mp hmem)
        exact ⟨[], d, ds, rfl, hcounts.executes h⟩
      · obtain ⟨past, d', rest, rfl, hexecutes⟩ := ih (h.after d) hmem
        exact ⟨d :: past, d', rest, rfl, hexecutes⟩
  · rintro ⟨past, d, rest, rfl, hexecutes⟩
    exact mem_uses h hexecutes

theorem uses_nodup (h : m.Sound) (ds : List Deed) : (uses a m ds).Nodup := by
  induction ds generalizing m with
  | nil => exact List.nodup_nil
  | cons d ds ih =>
    refine List.nodup_append.mpr ⟨?_, ih (h.after d), fun x hx y hy heq => ?_⟩
    · cases m.use? d a <;> simp
    · -- What is counted first is not executed later.
      subst heq
      have hcounts := use?_eq_some_iff.mp (Option.mem_toList.mp hx)
      obtain ⟨past, d', rest, -, hexecutes⟩ := (mem_uses_iff (h.after d)).mp hy
      exact hcounts.not_again h past (hexecutes.counts ((h.after d).run past))

/-! ### What comes to nothing -/

theorem mem_life : ∀ {m : Moment} {past : List Deed} {d : Deed} {u : Happening},
    u ∈ happenings x (m.run past) d → u ∈ life x m (past ++ [d])
  | _, [], _, _, h => List.mem_append.mpr (.inl h)
  | _, _ :: _, _, _, h => List.mem_append.mpr (.inr (mem_life h))

/-- Of an activation that is over no use is counted any more. -/
theorem Over.not_counts (h : m.Sound) (hover : m.Over x) (ds : List Deed) :
    ¬(m.run ds).Counts d x a := by
  intro hcounts
  refine hover.not_occurred h (ds ++ [d]) .counted (mem_life ?_)
  rw [happenings, between, hcounts.1]
  simp [Option.filter]

/-- An activation was entered, and nothing waits for it though its effect has not run. -/
structure Stuck (m : Moment) (x : ActivationId) : Prop where
  entered : x.number < m.engine.nextActivation
  alone : m.partsOf x = []
  stage : ∀ activation, m.engine.activations.get? x = some activation →
    activation.stage = .targetsResolved

theorem Stuck.after (hstuck : m.Stuck x) (h : m.Sound) (d : Deed) : (m.after d).Stuck x := by
  rcases (Moment.passage h d).spared_or_taken x with ⟨usage, mine, hspares, hx, heffect, -⟩ |
    ⟨o, hadvance, hentry, hnumber, -⟩
  · let e : Engine := { m.engine with usage := usage }
    refine ⟨Nat.lt_of_lt_of_le hstuck.entered hspares.numbers, ?_, fun activation hget => ?_⟩
    · have hsub := partsOf_sublist (e := e) rfl hspares hx heffect
      rw [hstuck.alone] at hsub
      exact List.sublist_nil.mp hsub
    · exact hstuck.stage activation (get?_spared (e := e) rfl hspares hx hget)
  · -- Where nothing waits only a retraction could take it on, and that comes earlier.
    cases hget : m.engine.activations.get? x with
    | none =>
      have hge := hentry hget hstuck.alone
      have hlt := hstuck.entered
      omega
    | some activation =>
      rw [hget, hstuck.alone] at hadvance
      have hstage := stage_of_advance_nil hadvance
      rw [hstuck.stage activation hget] at hstage
      simp at hstage

theorem Stuck.not_counts (hstuck : m.Stuck x) (h : m.Sound) (ds : List Deed) :
    ¬(m.run ds).Counts d x a := by
  induction ds generalizing m with
  | nil =>
    intro hcounts
    have hcounts' : m.Counts d x a := hcounts
    have hparts := (hcounts'.advance h).counted.1
    rw [hstuck.alone] at hparts
    simp at hparts
  | cons d' ds ih => exact ih (hstuck.after h d') (h.after d')

/-- While its handler runs an activation has all its targets, and nothing else waits for it. -/
theorem fails?_eq_some (h : m.Sound) (hfails : m.fails? d = some x) :
    (∃ activation, m.engine.activations.get? x = some activation ∧
      activation.stage = .targetsResolved) ∧ (m.after d).Stuck x ∧ m.occurrence d = none := by
  obtain ⟨e, running⟩ := m
  unfold fails? at hfails
  split at hfails
  · rename_i a y activation err hrunning
    obtain rfl := Option.some.inj hfails
    obtain rfl : running = some ⟨.effect a y activation, .fail err⟩ := hrunning
    have hget := h.running a y activation rfl
    have heffect : effect? ⟨e, some ⟨.effect a y activation, .fail err⟩⟩ =
        some (a, y, activation) := rfl
    obtain ⟨hstage, hnone⟩ := h.effect_stage heffect
    refine ⟨⟨activation, hget, hstage⟩, ⟨?_, ?_, fun activation' hget' => ?_⟩, rfl⟩
    · exact Nat.lt_of_lt_of_le (h.number_lt (by rw [h.effect_alone heffect]; simp))
        (Moment.passage h .go).numbers
    · have hspares : e.Spares (fun _ => false) True e.finished := Engine.spares_finished e
      have hsub : (e.finished.queue.partsOf y).Sublist (e.queue.partsOf y) :=
        hspares.partsOf_sublist rfl
      have hnone' : e.queue.partsOf y = [] := hnone
      rw [hnone'] at hsub
      exact List.sublist_nil.mp hsub
    · have hget'' : e.activations.get? y = some activation' := hget'
      rw [Option.some.inj (hget''.symm.trans hget)]
      exact hstage
  · simp at hfails

/-- An activation that comes to nothing is not counted by a later deed. -/
theorem ComesToNothing.not_counts (h : m.Sound) (hnothing : m.ComesToNothing d x) (ds : List Deed) :
    ¬((m.after d).run ds).Counts d' x a := by
  have hover : (∀ activation, (m.after d).engine.activations.get? x = some activation →
      activation.cancelled ∨ activation.deactivated) →
      x.number < (m.after d).engine.nextActivation → ¬((m.after d).run ds).Counts d' x a :=
    fun hended hentered => Over.not_counts (h.after d) ⟨hentered, hended⟩ ds
  rcases hnothing with ⟨hidle, hgone⟩ | ⟨activation, hget, hended⟩ | hfails
  · refine hover (fun activation hget => ?_) ?_
    · rw [stage?, hget] at hgone
      simp at hgone
    · refine Nat.lt_of_lt_of_le ?_ (Moment.passage h d).numbers
      by_contra hge
      rw [stage?, (h.fresh x (Nat.le_of_not_lt hge)).1] at hidle
      simp at hidle
  · refine hover (fun activation' hget' => ?_) ?_
    · obtain rfl := Option.some.inj (hget.symm.trans hget')
      exact hended
    · by_contra hge
      rw [((h.after d).fresh x (Nat.le_of_not_lt hge)).1] at hget
      simp at hget
  · exact (fails?_eq_some h hfails).2.1.not_counts (h.after d) ds

/-- An activation that is done does not come to nothing any more. -/
theorem not_comesToNothing_of_done (h : m.Sound)
    (hdone : ∀ activation, m.engine.activations.get? x = some activation → activation.Done)
    (hdone' : ∀ activation, (m.after d).engine.activations.get? x = some activation →
      activation.Done) : ¬m.ComesToNothing d x := by
  have hstage : ∀ {stage : ActivationStage}, stage.rank < 5 → ∀ activation,
      m.engine.activations.get? x = some activation → activation.stage ≠ stage := by
    rintro stage hrank activation hget rfl
    have hexecuted := (hdone activation hget).executed
    omega
  rintro (⟨hidle, -⟩ | ⟨activation, hget, hended⟩ | hfails)
  · obtain ⟨activation, hget, hstage'⟩ := Option.map_eq_some_iff.mp hidle
    exact hstage (by decide) activation hget hstage'
  · have hactivation := hdone' activation hget
    simp [hactivation.cancelled, hactivation.deactivated] at hended
  · obtain ⟨⟨activation, hget, hresolved⟩, -⟩ := fails?_eq_some h hfails
    exact hstage (by decide) activation hget hresolved

/-- A deed that counts the use of an activation does not bring it to nothing. -/
theorem Counts.not_comesToNothing (h : m.Sound) (hcounts : m.Counts d x a) :
    ¬m.ComesToNothing d x := by
  obtain ⟨activation, hget, hstage, hget'⟩ := (hcounts.advance h).concludes
  rintro (⟨hidle, -⟩ | ⟨activation', hsome, hended⟩ | hfails)
  · rw [stage?, hget, Option.map_some, hstage] at hidle
    simp at hidle
  · have hdone := hcounts.done_run h [] activation' hsome
    simp [hdone.cancelled, hdone.deactivated] at hended
  · have hnone := (fails?_eq_some h hfails).2.2
    rw [hcounts.1] at hnone
    simp at hnone

/-- Of two deeds of a run they are the same one, or one is earlier. -/
theorem split_cases {past past' rest rest' : List Deed}
    (h : past ++ d :: rest = past' ++ d' :: rest') :
    past = past' ∧ d = d' ∨ (∃ mid, past' = past ++ d :: mid) ∨
      ∃ mid, past = past' ++ d' :: mid := by
  rcases List.append_eq_append_iff.mp h with ⟨l, rfl, hl⟩ | ⟨l, rfl, hl⟩
  · cases l with
    | nil => exact .inl ⟨by simp, (List.cons.inj hl).1⟩
    | cons _ mid => exact .inr (.inl ⟨mid, by rw [(List.cons.inj hl).1]⟩)
  · cases l with
    | nil => exact .inl ⟨by simp, (List.cons.inj hl).1.symm⟩
    | cons _ mid => exact .inr (.inr ⟨mid, by rw [(List.cons.inj hl).1]⟩)

/-- An activation that is executed in a run does not come to nothing at any of its moments. -/
theorem Executes.not_comesToNothing (hexecutes : ((start b).run past).Executes d x a)
    (hds : ds = past ++ d :: rest) {past' rest' : List Deed} (hds' : ds = past' ++ d' :: rest') :
    ¬((start b).run past').ComesToNothing d' x := by
  have hsound := (sound_start b).run past
  have hsound' := (sound_start b).run past'
  have hcounts := hexecutes.counts hsound
  rcases split_cases (hds.symm.trans hds') with ⟨rfl, rfl⟩ | ⟨mid, rfl⟩ | ⟨mid, rfl⟩
  · exact hcounts.not_comesToNothing hsound
  · have hrun : ((start b).run (past ++ d :: mid)) = (((start b).run past).after d).run mid :=
      run_append _ _ _
    refine not_comesToNothing_of_done hsound' ?_ ?_
    · rw [hrun]
      exact hcounts.done_run hsound mid
    · have hafter : ((start b).run (past ++ d :: mid)).after d' =
          (((start b).run past).after d).run (mid ++ [d']) := by
        rw [hrun, run_append]
        rfl
      rw [hafter]
      exact hcounts.done_run hsound (mid ++ [d'])
  · intro hnothing
    have hlater : ¬((((start b).run past').after d').run mid).Counts d x a :=
      hnothing.not_counts hsound' mid
    rw [run_append] at hcounts
    exact hlater hcounts

/-! ## In every run -/

/-- The count of an ability that is registered and has a limit is the number of its activations that
were executed since the last deed by which a period of its counter began: the counter was made, or
the event of the limit's period fired. None of these activations comes to nothing at any moment of
the run. -/
theorem usage_exact {ability : Ability}
    (hability : ((start b).run ds).engine.ability? a = some ability)
    (hlimit : ability.limit = some limit)
    (hregistered : ((start b).run ds).engine.registrar.isRegistered a) :
    ∃ past d rest, ∃ xs : List ActivationId,
      ds = past ++ d :: rest ∧ ((start b).run past).Renews d a limit ∧
      Along (fun m d => ¬m.Renews d a limit) ((start b).run (past ++ [d])) rest ∧
      ((start b).run ds).engine.usage.count? a = some xs.length ∧ xs.Nodup ∧
      (∀ x, x ∈ xs ↔ ∃ past' d' rest', rest = past' ++ d' :: rest' ∧
        ((start b).run (past ++ d :: past')).Executes d' x a) ∧
      ∀ x ∈ xs, ∀ past' d' rest', ds = past' ++ d' :: rest' →
        ¬((start b).run past').ComesToNothing d' x := by
  have hproper := proper_run (sound_start b) (proper_start b) ds a
  have hsame : ∀ past rest, ds = past ++ rest → ∀ ability',
      ((start b).run past).engine.ability? a = some ability' → ability'.limit = some limit := by
    intro past rest hds ability' hability'
    rw [← ability?_unique hability hds hability']
    exact hlimit
  obtain ⟨n, hn⟩ : ∃ n, ((start b).run ds).engine.usage.count? a = some n := by
    rcases hproper with hempty | ⟨ability', hability', hwhole⟩
    · exact absurd (congrArg Engine.Entry.subscriptions hempty)
        ((Registrar.isRegistered_iff _ _).mp hregistered)
    · obtain rfl := Option.some.inj (hability.symm.trans hability')
      obtain ⟨u, hu, -⟩ := Option.map_eq_some_iff.mp (hwhole.limit.trans hlimit)
      exact ⟨u.count, congrArg (Option.map AbilityUsage.count) hu⟩
  obtain ⟨past, d, rest, rfl, hrenews, hkept, rfl⟩ := exists_renewal hsame hn
  have hmem : ∀ x, x ∈ uses a ((start b).run (past ++ [d])) rest ↔ ∃ past' d' rest',
      rest = past' ++ d' :: rest' ∧ ((start b).run (past ++ d :: past')).Executes d' x a := by
    have hrun : ∀ past', ((start b).run (past ++ [d])).run past' =
        (start b).run (past ++ d :: past') := fun past' => by
      rw [← run_append]
      simp
    intro x
    simp only [mem_uses_iff ((sound_start b).run _), hrun]
  refine ⟨past, d, rest, _, rfl, hrenews, hkept, hn, uses_nodup ((sound_start b).run _) rest, hmem,
    fun x hx past' d' rest' hds' => ?_⟩
  obtain ⟨mid, d₁, rest₁, rfl, hexecutes⟩ := (hmem x).mp hx
  have hds : past ++ d :: (mid ++ d₁ :: rest₁) = (past ++ d :: mid) ++ d₁ :: rest₁ := by simp
  exact hexecutes.not_comesToNothing hds hds'

/-- The deed is given an action that can be used twice a round. It is used in one round and in the
next. -/
def usedInTwoRounds : List Deed :=
  [.call (.attach ⟨3⟩ {
      kind := .action
      limit := some ⟨2, .round⟩
      handler := some fun _ => .done }),
    .call (.order (.activate ⟨0⟩ ⟨0⟩)), .turn, .turn, .turn, .go, .turn, .turn,
    .call (.order .beginRound), .turn, .go, .call (.order (.setWindow (some .noon))),
    .call (.order (.activate ⟨0⟩ ⟨0⟩)), .turn, .turn, .turn, .go]

/-- One of the two uses is counted. -/
theorem usage_exact_usedInTwoRounds :
    ∃ ability past d rest, ∃ xs : List ActivationId,
      ((start deedInPlay).run usedInTwoRounds).engine.ability? ⟨0⟩ = some ability ∧
      ability.limit = some ⟨2, .round⟩ ∧
      ((start deedInPlay).run usedInTwoRounds).engine.registrar.isRegistered ⟨0⟩ ∧
      usedInTwoRounds = past ++ d :: rest ∧ ((start deedInPlay).run past).Renews d ⟨0⟩ ⟨2, .round⟩ ∧
      ((start deedInPlay).run usedInTwoRounds).engine.usage.count? ⟨0⟩ = some 1 ∧ xs.length = 1 ∧
      ∀ x, x ∈ xs ↔ ∃ past' d' rest', rest = past' ++ d' :: rest' ∧
        ((start deedInPlay).run (past ++ d :: past')).Executes d' x ⟨0⟩ := by
  have hfound : (((start deedInPlay).run usedInTwoRounds).engine.ability? ⟨0⟩).map (·.limit) =
      some (some ⟨2, .round⟩) := by decide +kernel
  have hregistered :
      ((start deedInPlay).run usedInTwoRounds).engine.registrar.isRegistered ⟨0⟩ := by
    decide +kernel
  have hone : ((start deedInPlay).run usedInTwoRounds).engine.usage.count? ⟨0⟩ = some 1 := by
    decide +kernel
  obtain ⟨ability, hability, hlimit⟩ := Option.map_eq_some_iff.mp hfound
  obtain ⟨past, d, rest, xs, hds, hrenews, -, hcount, -, hexecuted, -⟩ :=
    usage_exact hability hlimit hregistered
  exact ⟨ability, past, d, rest, xs, hability, hlimit, hregistered, hds, hrenews, hone,
    Option.some.inj (hcount.symm.trans hone), hexecuted⟩

end Moment

end Doomtown
