import Doomtown.Proofs.LifeCycle
import Mathlib.Data.List.Induction

/-!
# Usage limits in a run

The limit of an ability is checked when an activation of it starts, and the use is counted when its
effect has run. Nothing is checked in between, though prompts, other activations and whole windows
can come there. So a run keeps a limit if and only if no activation that started before the limit
was reached is counted after it was (`Moment.keepsLimit_iff`), and a limit can be broken
(`Moment.not_keepsLimit_useWithinUse`). To keep a limit is to keep the count down to it, and so the
number of activations that are executed before the counter is reset.
-/

namespace Doomtown

/-! ## Counters -/

/-- An ability, if it has a counter, was used at most so many times. -/
def Engine.Within (e : Engine) (a : AbilityId) (max : Nat) : Prop :=
  ∀ n, e.usage.count? a = some n → n ≤ max

namespace Moment

variable {m m' : Moment} {x : ActivationId} {a : AbilityId} {ability : Ability} {kept : Prop}
  {o : Option (ActivationId × Occurrence)}

/-- The engine once the use is counted that is counted, if one is. -/
def countedBy (m : Moment) : Option (ActivationId × Occurrence) → Engine
  | some (x, o) => m.counted x (some o)
  | none => m.engine

/-- The ability of an activation that is filed. -/
def abilityOf? (m : Moment) (x : ActivationId) : Option AbilityId :=
  (m.engine.activations.get? x).map (·.ability)

/-- An activation of an ability starts by a deed. -/
def Starts (m : Moment) (d : Deed) (x : ActivationId) (a : AbilityId) : Prop :=
  .reached .legalityChecked ∈ happenings x m d ∧ (m.after d).abilityOf? x = some a

/-- The use of an activation of an ability is counted by a deed. -/
def Counts (m : Moment) (d : Deed) (x : ActivationId) (a : AbilityId) : Prop :=
  m.occurrence d = some (x, .counted) ∧ m.abilityOf? x = some a

/-- An activation of an ability reaches the stage `executed` by a deed. -/
def Executes (m : Moment) (d : Deed) (x : ActivationId) (a : AbilityId) : Prop :=
  .reached .executed ∈ happenings x m d ∧ (m.after d).abilityOf? x = some a

/-- By a deed an ability is given a counter, loses its counter or has it set back: its count is then
another than that to which the uses have been counted. -/
def Resets (m : Moment) (d : Deed) (a : AbilityId) : Prop :=
  (m.after d).engine.usage.count? a ≠ (m.countedBy (m.occurrence d)).usage.count? a

/-- In a run an ability is used at most so many times a period. -/
structure KeepsLimit (b : Board) (ds : List Deed) (a : AbilityId) (max : Nat) : Prop where
  /-- Its count is never higher. -/
  counts : ∀ past rest, ds = past ++ rest → ((start b).run past).engine.Within a max
  /-- It is not higher while a use is being counted either. -/
  counting : ∀ past d rest, ds = past ++ d :: rest →
    (((start b).run past).countedBy (((start b).run past).occurrence d)).Within a max
  /-- Where its counter is not reset, but by the last deed at most, no more than so many of its
  activations are executed. -/
  executed : ∀ past mid d rest, ds = past ++ (mid ++ d :: rest) →
    (((start b).run past).engine.usage.count? a).isSome →
    Along (fun m d => ¬m.Resets d a) ((start b).run past) mid →
    ∀ xs : List ActivationId, xs.Nodup →
      (∀ x ∈ xs, ∃ past' d' rest', mid ++ [d] = past' ++ d' :: rest' ∧
        (((start b).run past).run past').Executes d' x a) → xs.length ≤ max

/-- In a run an activation of an ability starts before the limit is reached, and its use is counted
after it was. -/
def Overtaken (b : Board) (ds : List Deed) (a : AbilityId) : Prop :=
  ∃ past d mid d' rest x, ds = past ++ d :: (mid ++ d' :: rest) ∧
    ((start b).run past).Starts d x a ∧ ((start b).run past).engine.usage.isUsed a = false ∧
    ((start b).run (past ++ d :: mid)).Counts d' x a ∧
    ((start b).run (past ++ d :: mid)).engine.usage.isUsed a = true

/-- A count goes up by one for a use of its ability. -/
theorem count?_counted (h : m.abilityOf? x = some a) :
    (m.countedBy (some (x, .counted))).usage.count? a =
      (m.engine.usage.count? a).map (· + 1) := by
  obtain ⟨activation, hget, rfl⟩ := Option.map_eq_some_iff.mp h
  simp only [countedBy, counted, hget, UsageTracker.count?, UsageTracker.increment,
    IdMap.get?_modify, if_true, Option.map_map]
  rfl

/-- A counter stays as it is for anything else. -/
theorem counter_not_counted (h : ∀ x, o = some (x, .counted) → m.abilityOf? x ≠ some a) :
    (m.countedBy o).usage.counters.get? a = m.engine.usage.counters.get? a := by
  rcases o with _ | ⟨x, o⟩
  · rfl
  · cases o with
    | counted =>
      have hability := h x rfl
      unfold abilityOf? at hability
      cases hget : m.engine.activations.get? x with
      | none => simp only [countedBy, counted, hget]
      | some activation =>
        have hother : activation.ability ≠ a := by simpa [hget] using hability
        simp only [countedBy, counted, hget, UsageTracker.increment, IdMap.get?_modify,
          if_neg hother]
    | _ => rfl

/-- Once its use is counted a deed leaves all activations alone but one. -/
theorem Passage.spares (h : Passage kept m o m') :
    ∃ mine, (m.countedBy o).Spares mine kept m'.engine := by
  cases h with
  | spare hspares _ => exact ⟨_, hspares⟩
  | @step _ x o hspares =>
    cases o with
    | none => exact ⟨_, hspares⟩
    | some o => exact ⟨_, hspares⟩

/-- No count is higher after a deed than once its use was counted. -/
theorem Passage.within (h : Passage kept m o m') {max : Nat}
    (hwithin : (m.countedBy o).Within a max) : m'.engine.Within a max := by
  obtain ⟨mine, hspares⟩ := h.spares
  intro n hn
  obtain ⟨u', hu', rfl⟩ := Option.map_eq_some_iff.mp hn
  rcases hspares.counters a u' hu' with ⟨hzero, -⟩ | ⟨u, hu, -, hle⟩
  · omega
  · exact Nat.le_trans hle (hwithin u.count (by rw [UsageTracker.count?, hu]; rfl))

/-- No limit is reached by a deed that counts no use, unless it allows of none. -/
theorem Passage.isUsed (h : Passage kept m o m')
    (hpositive : ∀ ability limit, m'.engine.ability? a = some ability →
      ability.limit = some limit → 0 < limit.max)
    (hcounts : ∀ x, o = some (x, .counted) → m.abilityOf? x ≠ some a)
    (hroom : m.engine.usage.isUsed a = false) : m'.engine.usage.isUsed a = false := by
  obtain ⟨mine, hspares⟩ := h.spares
  unfold UsageTracker.isUsed at hroom ⊢
  cases hu' : m'.engine.usage.counters.get? a with
  | none => rfl
  | some u' =>
    -- A counter is new and stands at zero, or it was there and has not risen.
    rcases hspares.counters a u' hu' with ⟨hzero, ability, hability, hlimit⟩ | ⟨u, hu, hlimit, hle⟩
    · have hmax := hpositive ability u'.limit hability hlimit
      simp only [Option.any_some, AbilityUsage.isUsed, decide_eq_false_iff_not]
      omega
    · rw [counter_not_counted hcounts] at hu
      rw [hu] at hroom
      simp only [Option.any_some, AbilityUsage.isUsed, decide_eq_false_iff_not] at hroom ⊢
      rw [hlimit]
      omega

/-- A limit is reached if its counter has come to it. -/
theorem Sound.isUsed_iff (h : m.Sound) {limit : AbilityLimit}
    (hlimit : ∀ ability, m.engine.ability? a = some ability → ability.limit = some limit) :
    m.engine.usage.isUsed a = true ↔
      ∃ n, m.engine.usage.count? a = some n ∧ limit.max ≤ n := by
  unfold UsageTracker.isUsed UsageTracker.count?
  cases hu : m.engine.usage.counters.get? a with
  | none => simp
  | some u =>
    obtain ⟨ability, hability, hmax⟩ := h.counters a u hu
    obtain rfl : limit = u.limit := Option.some.inj ((hlimit ability hability).symm.trans hmax)
    simp [AbilityUsage.isUsed]

/-! ## Abilities in a run -/

/-- An ability is what it was when it was attached. -/
theorem Passage.ability? (h : Passage kept m o m')
    (hability : m.engine.ability? a = some ability) : m'.engine.ability? a = some ability := by
  cases h with
  | spare hspares _ => exact hspares.abilities a ability hability
  | @step _ x o hspares =>
    obtain ⟨usage, husage⟩ := m.counted_eq x o
    rw [husage] at hspares
    exact hspares.abilities a ability hability

theorem Sound.run_ability? (h : m.Sound) (hability : m.engine.ability? a = some ability)
    (ds : List Deed) : (m.run ds).engine.ability? a = some ability := by
  induction ds generalizing m with
  | nil => exact hability
  | cons d ds ih => exact ih (h.after d) ((Moment.passage h d).ability? hability)

/-- Wherever in a run an ability exists, it is the one that there is at the end. -/
theorem ability?_unique {b : Board} {ds past rest : List Deed} {ability' : Ability}
    (hability : ((start b).run ds).engine.ability? a = some ability) (hds : ds = past ++ rest)
    (hability' : ((start b).run past).engine.ability? a = some ability') : ability = ability' := by
  have hlast := ((sound_start b).run past).run_ability? hability' rest
  rw [← run_append, ← hds, hability] at hlast
  exact Option.some.inj hlast

end Moment

/-! ## Activations under way -/

/-- A live activation has started, and its effect is still to come or is running. -/
structure Activation.Goes (activation : Activation) (parts : List Part) : Prop where
  live : activation.isLive
  started : activation.stage ≠ .idle
  ahead : ∃ p ∈ parts, p ≠ .announce ∧ p ≠ .complete

/-- An activation that is under way starts now, and was admitted, or was under way before. -/
theorem Advance.goes {admits : AbilityId → Prop} {x x' : Option Activation} {ps ps' : List Part}
    {o : Option Occurrence} (h : Advance admits x ps o x' ps') {activation' : Activation}
    (hx' : x' = some activation') (hgoes : activation'.Goes ps') :
    (admits activation'.ability ∧ .reached .legalityChecked ∈ stepHappenings x o x') ∨
      ∃ activation, x = some activation ∧ activation.ability = activation'.ability ∧
        activation.Goes ps := by
  obtain ⟨hlive, hstarted, p, hp, hahead⟩ := hgoes
  cases h with
  | start hstage _ hadmits =>
    obtain rfl := Option.some.inj hx'
    exact .inl ⟨hadmits, reached_mem_stepHappenings.mpr ⟨by simp [hstage], by simp⟩⟩
  | accept hstage _ hadmits =>
    obtain rfl := Option.some.inj hx'
    exact .inl ⟨hadmits, reached_mem_stepHappenings.mpr ⟨rfl, by simp [hstage]⟩⟩
  | offer hstage =>
    obtain rfl := Option.some.inj hx'
    exact absurd hstage hstarted
  | decline => simp at hx'
  | skip | refuse | miss | complete => simp at hp
  | answer =>
    obtain ⟨activation, rfl, rfl⟩ := Option.map_eq_some_iff.mp hx'
    exact .inr ⟨activation, rfl, rfl, hlive, hstarted, _, List.mem_singleton.mpr rfl, by decide⟩
  | ask =>
    obtain rfl := Option.some.inj hx'
    exact .inr ⟨_, rfl, rfl, hlive, hstarted, _, List.mem_singleton.mpr rfl, by decide⟩
  | execute =>
    obtain rfl := Option.some.inj hx'
    exact .inr ⟨_, rfl, rfl, hlive, hstarted, _, List.mem_singleton.mpr rfl, by decide⟩
  -- Where the stage changes, what is live then was live before.
  | pay hstage | resolve hstage =>
    obtain rfl := Option.some.inj hx'
    refine .inr ⟨_, rfl, rfl, ⟨?_, by simp [hstage], _, List.mem_singleton.mpr rfl, by decide⟩⟩
    simpa [Activation.isLive, hstage, ActivationStage.isTerminal] using hlive
  -- What was retracted is not live, and behind the effect nothing is under way.
  | retract =>
    obtain rfl := Option.some.inj hx'
    simp [Activation.isLive] at hlive
  | conclude _ hps =>
    rcases hps with rfl | rfl
    · simp at hp
    · rcases List.mem_pair.mp hp with rfl | rfl <;> simp at hahead
  | announce _ hps =>
    obtain rfl : p = .complete := by simpa using hps.subset hp
    simp at hahead

/-- A use is counted when the effect has run, and then only the announcement and the end wait. -/
theorem Advance.counted {admits : AbilityId → Prop} {x x' : Option Activation} {ps ps' : List Part}
    (h : Advance admits x ps (some .counted) x' ps') :
    ps = [.effect] ∧ (ps' = [] ∨ ps' = [.announce, .complete]) := by
  cases h with
  | conclude _ hps => exact ⟨rfl, hps⟩

/-- An activation is executed when its use is counted, and its ability stays what it is. -/
theorem Advance.executes {admits : AbilityId → Prop} {x x' : Option Activation} {ps ps' : List Part}
    {o : Option Occurrence} (h : Advance admits x ps o x' ps')
    (hreached : .reached .executed ∈ stepHappenings x o x') :
    o = some .counted ∧ x'.map (·.ability) = x.map (·.ability) := by
  obtain ⟨hafter, hbefore⟩ := reached_mem_stepHappenings.mp hreached
  cases h with
  | conclude => exact ⟨rfl, rfl⟩
  | answer =>
    rw [Option.map_map] at hafter
    exact absurd hafter hbefore
  | skip | refuse | miss | ask | execute => exact absurd hafter hbefore
  | start hstage | offer hstage => simp [hstage] at hafter
  | _ => simp at hafter

namespace Moment

variable {m m' : Moment} {b : Board} {ds past rest : List Deed} {x : ActivationId} {a : AbilityId}
  {kept : Prop} {o : Option (ActivationId × Occurrence)}

/-- An activation of an ability has started, and its effect is still to come or is running. -/
def UnderWay (m : Moment) (x : ActivationId) (a : AbilityId) : Prop :=
  ∃ activation, m.engine.activations.get? x = some activation ∧ activation.ability = a ∧
    activation.Goes (m.partsOf x)

/-- What is under way starts now, and was admitted, or was under way before. -/
theorem UnderWay.before (h : m'.UnderWay x a) (hpassage : Passage kept m o m') :
    m.UnderWay x a ∨ m.engine.Admits a ∧ .reached .legalityChecked ∈ between x m o m' := by
  obtain ⟨activation, hget, rfl, hgoes⟩ := h
  rcases hpassage.spared_or_taken x with ⟨usage, mine, hspares, hx, heffect, -⟩ |
    ⟨o', hadvance, -, -, hbetween⟩
  · let e : Engine := { m.engine with usage := usage }
    have hsub := partsOf_sublist (e := e) rfl hspares hx heffect
    obtain ⟨p, hp, hahead⟩ := hgoes.ahead
    exact .inl ⟨activation, get?_spared (e := e) rfl hspares hx hget, rfl,
      hgoes.live, hgoes.started, p, hsub.subset hp, hahead⟩
  · rw [hbetween]
    rcases hadvance.goes hget hgoes with hstarts | ⟨before, hget', hsame, hgoes'⟩
    · exact .inr hstarts
    · exact .inl ⟨before, hget', hsame, hgoes'⟩

/-- What is counted was under way, and is not then. -/
theorem Passage.counted (h : m.Sound) (hpassage : Passage kept m (some (x, .counted)) m')
    (hability : m.abilityOf? x = some a) : m.UnderWay x a ∧ ¬m'.UnderWay x a := by
  have hadvance : Advance m.engine.Admits (m.engine.activations.get? x) (m.partsOf x)
      (some .counted) (m'.engine.activations.get? x) (m'.partsOf x) := by
    generalize ho : some (x, Occurrence.counted) = o at hpassage
    cases hpassage with
    | spare => simp at ho
    | step y _ _ hadvance =>
      obtain ⟨o', rfl, heq⟩ := Option.map_eq_some_iff.mp ho.symm
      obtain ⟨rfl, rfl⟩ := Prod.mk.inj heq
      exact hadvance
  obtain ⟨hparts, hparts'⟩ := hadvance.counted
  constructor
  · have hfits := h.fits x
    rw [hparts] at hfits
    obtain ⟨activation, hget, hlive, hstage, -⟩ := follows_of_fits hfits (by decide)
    have hsame : activation.ability = a := by simpa [abilityOf?, hget] using hability
    exact ⟨activation, hget, hsame, hlive, by simp [hstage], .effect, by simp [hparts], by decide⟩
  · rintro ⟨activation, -, -, -, -, p, hp, hahead⟩
    rcases hparts' with hnil | hpair
    · simp [hnil] at hp
    · rw [hpair] at hp
      rcases List.mem_pair.mp hp with rfl | rfl <;> simp at hahead

/-- An activation that is under way in a run was admitted by its ability's limit when it started. -/
theorem exists_start
    (hallow : ∀ ability, ((start b).run ds).engine.ability? a = some ability →
      ability.allowUsed = false) (h : ((start b).run ds).UnderWay x a) :
    ∃ past d mid, ds = past ++ d :: mid ∧ ((start b).run past).Starts d x a ∧
      ((start b).run past).engine.usage.isUsed a = false := by
  induction ds using List.reverseRecOn with
  | nil =>
    obtain ⟨activation, hget, -⟩ := h
    simp [run, start, Engine.new, IdMap.get?_empty] at hget
  | append_singleton ds d ih =>
    have hpassage := Moment.passage ((sound_start b).run ds) d
    rw [run_append] at h hallow
    -- The last deed starts the activation, or an earlier one did.
    rcases h.before hpassage with hbefore | ⟨⟨ability, hability, hroom⟩, hreached⟩
    · obtain ⟨past, d', mid, rfl, hstarts, hroom⟩ :=
        ih (fun ability hability => hallow ability (hpassage.ability? hability)) hbefore
      exact ⟨past, d', mid ++ [d], by simp, hstarts, hroom⟩
    · have hdenied := hallow ability (hpassage.ability? hability)
      obtain ⟨activation, hget, hsame, -⟩ := h
      have hget' : (((start b).run ds).after d).engine.activations.get? x = some activation := hget
      refine ⟨ds, d, [], by simp, ⟨hreached, ?_⟩, hroom.resolve_left (by simp [hdenied])⟩
      rw [abilityOf?, hget', Option.map_some, hsame]

/-! ## Uses between two resets -/

/-- The activation of an ability whose use is counted by a deed. -/
def use? (m : Moment) (d : Deed) (a : AbilityId) : Option ActivationId :=
  ((m.occurrence d).filter fun t => t.2 = .counted ∧ m.abilityOf? t.1 = some a).map (·.1)

/-- The activations of an ability whose uses are counted by some deeds. -/
def uses (a : AbilityId) : Moment → List Deed → List ActivationId
  | _, [] => []
  | m, d :: ds => (m.use? d a).toList ++ uses a (m.after d) ds

theorem use?_eq_some_iff {d : Deed} : m.use? d a = some x ↔ m.Counts d x a := by
  unfold use? Counts
  constructor
  · intro h
    obtain ⟨⟨y, o⟩, hfilter, rfl⟩ := Option.map_eq_some_iff.mp h
    obtain ⟨ho, hcounts⟩ := Option.filter_eq_some_iff.mp hfilter
    obtain ⟨rfl, hability⟩ : o = .counted ∧ m.abilityOf? y = some a := by simpa using hcounts
    exact ⟨ho, hability⟩
  · rintro ⟨ho, hability⟩
    simp [ho, hability]

theorem uses_append (a : AbilityId) :
    ∀ (m : Moment) (ds ds' : List Deed), uses a m (ds ++ ds') = uses a m ds ++ uses a (m.run ds) ds'
  | _, [], _ => rfl
  | m, d :: ds, ds' => by
    rw [List.cons_append, uses, uses, uses_append a (m.after d), List.append_assoc, run_cons]

/-- A count goes up by one where a use is counted, and stays as it is elsewhere. -/
theorem count?_countedBy (m : Moment) (d : Deed) (a : AbilityId) :
    (m.countedBy (m.occurrence d)).usage.count? a =
      (m.engine.usage.count? a).map (· + (m.use? d a).toList.length) := by
  cases huse : m.use? d a with
  | some x =>
    obtain ⟨ho, hability⟩ := use?_eq_some_iff.mp huse
    rw [ho, count?_counted hability]
    rfl
  | none =>
    have hnone : ∀ x, m.occurrence d = some (x, .counted) → m.abilityOf? x ≠ some a := by
      intro x ho hability
      rw [use?_eq_some_iff.mpr ⟨ho, hability⟩] at huse
      simp at huse
    rw [UsageTracker.count?, counter_not_counted hnone, UsageTracker.count?]
    cases m.engine.usage.counters.get? a <;> rfl

/-- While a counter is not reset, it counts the uses. -/
theorem count?_run (ds : List Deed) (hkept : Along (fun m d => ¬m.Resets d a) m ds) :
    (m.run ds).engine.usage.count? a =
      (m.engine.usage.count? a).map (· + (uses a m ds).length) := by
  induction ds generalizing m with
  | nil => cases h : m.engine.usage.count? a <;> simp [run, uses, h]
  | cons d ds ih =>
    obtain ⟨hnot, hkept⟩ := hkept
    have hstep : (m.after d).engine.usage.count? a = _ :=
      (Decidable.not_not.mp hnot).trans (m.count?_countedBy d a)
    rw [run_cons, ih hkept, hstep, Option.map_map, uses, List.length_append]
    congr 1
    funext n
    exact Nat.add_assoc n _ _

/-- An activation that is executed by a deed has its use counted by it. -/
theorem Executes.counts {d : Deed} (h : m.Sound) (hexecutes : m.Executes d x a) :
    m.Counts d x a := by
  obtain ⟨hreached, hability⟩ := hexecutes
  rcases (Moment.passage h d).spared_or_taken x with ⟨_, _, -, -, -, hbetween⟩ |
    ⟨o, hadvance, -, -, hbetween⟩
  · simp [happenings, hbetween] at hreached
  · rw [happenings, hbetween] at hreached
    obtain ⟨rfl, hsame⟩ := hadvance.executes hreached
    refine ⟨?_, ?_⟩
    · -- What occurs to it is what occurs by the deed.
      have hoccurred : .occurred .counted ∈ between x m (m.occurrence d) (m.after d) := by
        rw [hbetween]
        simp [stepHappenings]
      exact occurrence_of_mem_between hoccurred
    · rw [abilityOf?, ← hsame]
      exact hability

/-- What is executed by one of some deeds is among the uses that are counted by them. -/
theorem mem_uses (h : m.Sound) {past rest : List Deed} {d : Deed}
    (hexecutes : (m.run past).Executes d x a) : x ∈ uses a m (past ++ d :: rest) := by
  have huse := use?_eq_some_iff.mpr (hexecutes.counts (h.run past))
  rw [uses_append, uses, huse]
  simp

/-- Where a counter is not reset, no more activations are executed than its count comes to. -/
theorem length_le_of_executes (h : m.Sound) {mid : List Deed} {d : Deed} {max : Nat}
    (hcounter : (m.engine.usage.count? a).isSome)
    (hkept : Along (fun m d => ¬m.Resets d a) m mid)
    (hwithin : ((m.run mid).countedBy ((m.run mid).occurrence d)).Within a max)
    {xs : List ActivationId} (hxs : xs.Nodup)
    (hexecutes : ∀ x ∈ xs, ∃ past d' rest, mid ++ [d] = past ++ d' :: rest ∧
      (m.run past).Executes d' x a) : xs.length ≤ max := by
  obtain ⟨n, hn⟩ := Option.isSome_iff_exists.mp hcounter
  have hsubset : xs ⊆ uses a m (mid ++ [d]) := by
    intro x hx
    obtain ⟨past, d', rest, hsplit, hexecuted⟩ := hexecutes x hx
    rw [hsplit]
    exact mem_uses h hexecuted
  have hcount : ((m.run mid).countedBy ((m.run mid).occurrence d)).usage.count? a =
      some (n + (uses a m (mid ++ [d])).length) := by
    rw [count?_countedBy, count?_run mid hkept, hn, uses_append]
    simp [uses, Nat.add_assoc]
  calc xs.length ≤ (uses a m (mid ++ [d])).length := hxs.length_le_of_subset hsubset
    _ ≤ n + (uses a m (mid ++ [d])).length := Nat.le_add_left _ _
    _ ≤ max := hwithin _ hcount

/-! ## Keeping a limit -/

/-- While no activation is overtaken, a use is counted only where there is room for it. -/
theorem within_countedBy {limit : AbilityLimit}
    (hability : ∀ ability, ((start b).run past).engine.ability? a = some ability →
      ability.allowUsed = false ∧ ability.limit = some limit)
    {d : Deed} (hnot : ¬Overtaken b (past ++ d :: rest) a)
    (hwithin : ((start b).run past).engine.Within a limit.max) :
    (((start b).run past).countedBy (((start b).run past).occurrence d)).Within a limit.max := by
  have hsound := (sound_start b).run past
  by_cases hcounts : ∃ x, ((start b).run past).Counts d x a
  · obtain ⟨x, hcounts⟩ := hcounts
    have hpassage := Moment.passage hsound d
    rw [hcounts.1] at hpassage
    obtain ⟨past', d', mid, rfl, hstarts, hroom⟩ := exists_start
      (fun ability h => (hability ability h).1) (hpassage.counted hsound hcounts.2).1
    -- The activation started where there was room, so there still is, or it was overtaken.
    have hfree : ((start b).run (past' ++ d' :: mid)).engine.usage.isUsed a = false := by
      refine Bool.eq_false_iff.mpr fun hused => hnot ?_
      exact ⟨past', d', mid, d, rest, x, by simp, hstarts, hroom, hcounts, hused⟩
    intro n hn
    rw [hcounts.1, count?_counted hcounts.2] at hn
    obtain ⟨n', hn', rfl⟩ := Option.map_eq_some_iff.mp hn
    by_contra hgt
    refine Bool.eq_false_iff.mp hfree ?_
    exact (hsound.isUsed_iff fun ability h => (hability ability h).2).mpr ⟨n', hn', by omega⟩
  · intro n hn
    rw [UsageTracker.count?, counter_not_counted fun x ho hx => hcounts ⟨x, ho, hx⟩] at hn
    exact hwithin n hn

theorem keepsLimit_of_not_overtaken {limit : AbilityLimit}
    (hability : ∀ past rest, ds = past ++ rest → ∀ ability,
      ((start b).run past).engine.ability? a = some ability →
        ability.allowUsed = false ∧ ability.limit = some limit)
    (hnot : ¬Overtaken b ds a) : KeepsLimit b ds a limit.max := by
  -- The count rises where a use is counted only, and there is room for it then.
  have hmoments : ∀ past rest, ds = past ++ rest →
      ((start b).run past).engine.Within a limit.max := by
    intro past
    induction past using List.reverseRecOn with
    | nil =>
      intro rest _ n hn
      simp [run, start, Engine.new, UsageTracker.empty, UsageTracker.count?,
        IdMap.get?_empty] at hn
    | append_singleton past d ih =>
      intro rest hds
      have hds' : ds = past ++ d :: rest := by simpa using hds
      have hcounted := within_countedBy (hability past _ hds') (hds' ▸ hnot) (ih _ hds')
      rw [run_append]
      exact (Moment.passage ((sound_start b).run past) d).within hcounted
  have hdeeds : ∀ past d rest, ds = past ++ d :: rest →
      (((start b).run past).countedBy (((start b).run past).occurrence d)).Within a limit.max :=
    fun past d rest hds =>
      within_countedBy (hability past _ hds) (hds ▸ hnot) (hmoments past _ hds)
  refine ⟨hmoments, hdeeds, fun past mid d rest hds hcounter hkept xs hxs hexecutes => ?_⟩
  have hwithin := hdeeds (past ++ mid) d rest (by simpa using hds)
  rw [run_append] at hwithin
  exact length_le_of_executes ((sound_start b).run past) hcounter hkept hwithin hxs hexecutes

/-- A run keeps a limit if and only if no activation that started before the limit was reached is
counted after it was. -/
theorem keepsLimit_iff {ability : Ability} {limit : AbilityLimit}
    (hability : ((start b).run ds).engine.ability? a = some ability)
    (hlimit : ability.limit = some limit) (hallow : ability.allowUsed = false) :
    KeepsLimit b ds a limit.max ↔ ¬Overtaken b ds a := by
  have hsame : ∀ past rest, ds = past ++ rest → ∀ ability',
      ((start b).run past).engine.ability? a = some ability' →
        ability'.allowUsed = false ∧ ability'.limit = some limit := by
    intro past rest hds ability' hability'
    obtain rfl := ability?_unique hability hds hability'
    exact ⟨hallow, hlimit⟩
  refine ⟨?_, keepsLimit_of_not_overtaken hsame⟩
  rintro hkeeps ⟨past, d, mid, d', rest, x, rfl, -, -, hcounts, hused⟩
  have hsplit : past ++ d :: (mid ++ d' :: rest) = (past ++ d :: mid) ++ d' :: rest := by simp
  have hsound := (sound_start b).run (past ++ d :: mid)
  obtain ⟨n, hn, hle⟩ :=
    (hsound.isUsed_iff fun ability' h => (hsame _ _ hsplit ability' h).2).mp hused
  -- The count has come to the limit, and goes up once more.
  have hwithin := hkeeps.counting _ _ _ hsplit (n + 1)
  rw [hcounts.1, count?_counted hcounts.2, hn] at hwithin
  have hbound := hwithin rfl
  omega

/-! ## Uses that do not overlap -/

/-- Of an ability at most one activation is under way, and only while the limit is not reached. -/
structure Apart (m : Moment) (a : AbilityId) : Prop where
  alone : ∀ x y, m.UnderWay x a → m.UnderWay y a → x = y
  room : ∀ x, m.UnderWay x a → m.engine.usage.isUsed a = false

/-- From one moment to the next something happens to one activation at most. -/
theorem Passage.between_unique (h : Passage kept m o m') {x y : ActivationId} {u v : Happening}
    (hx : u ∈ between x m o m') (hy : v ∈ between y m o m') : x = y := by
  cases h with
  | spare hspares =>
    rw [between_spared rfl hspares rfl (by simp)] at hx
    simp at hx
  | @step _ z o hspares =>
    have hz : ∀ {w u}, u ∈ between w m (o.map fun o => (z, o)) m' → w = z := by
      intro w u hu
      by_contra hwz
      rw [between_other hspares hwz] at hu
      simp at hu
    rw [hz hx, hz hy]

/-- While none starts as another is under way, at most one is under way where there is room. -/
theorem Apart.after (h : m.Sound) (hapart : m.Apart a) (d : Deed)
    (hability : ∀ ability, (m.after d).engine.ability? a = some ability →
      ability.allowUsed = false ∧ ∀ limit, ability.limit = some limit → 0 < limit.max)
    (hstarts : ∀ x y, m.Starts d x a → ¬m.UnderWay y a) : (m.after d).Apart a := by
  have hpassage := Moment.passage h d
  -- Whatever is under way then was so before, or starts and is the only one.
  have hbefore : ∀ x, (m.after d).UnderWay x a →
      m.UnderWay x a ∨ m.engine.Admits a ∧ m.Starts d x a := by
    intro x hx
    rcases hx.before hpassage with hold | ⟨hadmits, hreached⟩
    · exact .inl hold
    · obtain ⟨activation, hget, hsame, -⟩ := hx
      exact .inr ⟨hadmits, hreached, by rw [abilityOf?, hget, Option.map_some, hsame]⟩
  refine ⟨fun x y hx hy => ?_, fun x hx => ?_⟩
  · rcases hbefore x hx with hx | ⟨-, hx⟩ <;> rcases hbefore y hy with hy | ⟨-, hy⟩
    · exact hapart.alone x y hx hy
    · exact absurd hx (hstarts y x hy)
    · exact absurd hy (hstarts x y hx)
    · exact hpassage.between_unique hx.1 hy.1
  · have hcounts : ∀ y, m.occurrence d = some (y, .counted) → m.abilityOf? y ≠ some a := by
      intro y ho hy
      rw [ho] at hpassage
      obtain ⟨hunder, hnot⟩ := hpassage.counted h hy
      rcases hbefore x hx with hx' | ⟨-, hx'⟩
      · exact hnot (hapart.alone x y hx' hunder ▸ hx)
      · exact hstarts x y hx' hunder
    refine hpassage.isUsed (fun ability limit hfound => (hability ability hfound).2 limit)
      hcounts ?_
    rcases hbefore x hx with hx' | ⟨⟨ability, hfound, hroom⟩, -⟩
    · exact hapart.room x hx'
    · have hdenied := (hability ability (hpassage.ability? hfound)).1
      exact hroom.resolve_left (by simp [hdenied])

/-- A limit is kept if no activation of the ability starts while another is under way. -/
theorem keepsLimit_of_apart {ability : Ability} {limit : AbilityLimit}
    (hability : ((start b).run ds).engine.ability? a = some ability)
    (hlimit : ability.limit = some limit) (hallow : ability.allowUsed = false)
    (hpositive : 0 < limit.max)
    (hstarts : ∀ past d rest x y, ds = past ++ d :: rest → ((start b).run past).Starts d x a →
      ¬((start b).run past).UnderWay y a) : KeepsLimit b ds a limit.max := by
  have hapart : ∀ past rest, ds = past ++ rest → ((start b).run past).Apart a := by
    intro past
    induction past using List.reverseRecOn with
    | nil =>
      have hnone : ∀ x, ¬(start b).UnderWay x a := by
        rintro x ⟨activation, hget, -⟩
        simp [start, Engine.new, IdMap.get?_empty] at hget
      exact fun _ _ => ⟨fun x _ hx => absurd hx (hnone x), fun x hx => absurd hx (hnone x)⟩
    | append_singleton past d ih =>
      intro rest hds
      have hds' : ds = past ++ d :: rest := by simpa using hds
      rw [run_append]
      refine (ih _ hds').after ((sound_start b).run past) d (fun ability' hfound => ?_)
        fun x y => hstarts past d rest x y hds'
      have hfound' : ((start b).run (past ++ [d])).engine.ability? a = some ability' := by
        rw [run_append]
        exact hfound
      obtain rfl := ability?_unique hability hds hfound'
      refine ⟨hallow, fun limit' hlimit' => ?_⟩
      obtain rfl := Option.some.inj (hlimit.symm.trans hlimit')
      exact hpositive
  refine keepsLimit_of_not_overtaken (fun past rest hds ability' hfound => ?_) ?_
  · obtain rfl := ability?_unique hability hds hfound
    exact ⟨hallow, hlimit⟩
  -- An activation that is overtaken is under way when the limit is reached already.
  rintro ⟨past, d, mid, d', rest, x, rfl, -, -, hcounts, hused⟩
  have hpassage := Moment.passage ((sound_start b).run (past ++ d :: mid)) d'
  rw [hcounts.1] at hpassage
  have hunder := (hpassage.counted ((sound_start b).run _) hcounts.2).1
  have hroom := (hapart (past ++ d :: mid) (d' :: rest) (by simp)).room x hunder
  rw [hused] at hroom
  simp at hroom

/-! ## A limit that is not kept -/

/-- The deed is given an action that can be used once a round and in whose effect it is used again.
Both uses are played to the end. -/
def useWithinUse : List Deed :=
  [.call (.attach ⟨3⟩ {
      kind := .action
      limit := some ⟨1, .round⟩
      handler := some fun _ => .order (.activate ⟨0⟩ ⟨0⟩) fun _ => .done }),
    .call (.order (.activate ⟨0⟩ ⟨0⟩)), .turn, .turn, .turn, .go, .go,
    .turn, .turn, .turn, .go, .go]

/-- The ability that the deed is given. -/
theorem ability?_useWithinUse :
    ∃ ability, ((start deedInPlay).run useWithinUse).engine.ability? ⟨0⟩ = some ability ∧
      ability.limit = some ⟨1, .round⟩ ∧ ability.allowUsed = false := by
  have hlimit : (((start deedInPlay).run useWithinUse).engine.ability? ⟨0⟩).map
      (fun ability => (ability.limit, ability.allowUsed)) = some (some ⟨1, .round⟩, false) := by
    decide +kernel
  obtain ⟨ability, hability, heq⟩ := Option.map_eq_some_iff.mp hlimit
  exact ⟨ability, hability, (Prod.mk.inj heq).1, (Prod.mk.inj heq).2⟩

theorem keepsLimit_iff_useWithinUse :
    (∃ ability, ((start deedInPlay).run useWithinUse).engine.ability? ⟨0⟩ = some ability ∧
      ability.limit = some ⟨1, .round⟩ ∧ ability.allowUsed = false) ∧
      (KeepsLimit deedInPlay useWithinUse ⟨0⟩ 1 ↔ ¬Overtaken deedInPlay useWithinUse ⟨0⟩) := by
  obtain ⟨ability, hability, hlimit, hallow⟩ := ability?_useWithinUse
  exact ⟨⟨ability, hability, hlimit, hallow⟩, keepsLimit_iff hability hlimit hallow⟩

/-- The limit of an ability is not always kept: here it is used twice in a round, where it may be
used once. -/
theorem not_keepsLimit_useWithinUse :
    ¬∀ (b : Board) (ds : List Deed) (a : AbilityId) (ability : Ability) (limit : AbilityLimit),
      ((start b).run ds).engine.ability? a = some ability → ability.limit = some limit →
        ability.allowUsed = false → KeepsLimit b ds a limit.max := by
  intro h
  obtain ⟨ability, hability, hlimit, hallow⟩ := ability?_useWithinUse
  have hkeeps := h deedInPlay useWithinUse ⟨0⟩ ability _ hability hlimit hallow
  have hcount : ((start deedInPlay).run useWithinUse).engine.usage.count? ⟨0⟩ = some 2 := by
    decide +kernel
  exact absurd (hkeeps.counts useWithinUse [] (by simp) 2 hcount) (by decide)

end Moment

end Doomtown
