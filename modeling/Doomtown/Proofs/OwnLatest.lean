import Doomtown.Proofs.Alternatives
import Doomtown.Proofs.Retractable

/-!
# Players who retract their own latest activation

An ability that is open to all players has one stack for all of them, of which only the last
activation is retracted. So the latest activation of a player is at hand only if everything that
anyone has started with the ability since is retracted already, and if nobody has ended the
registration of the ability (`Moment.retract_ownLatest_iff`).

As long as the round lasts, the card of the ability is in place and nobody unregisters it, all that
was started and is not retracted stays on the stack (`Moment.Lists`). Once it is unregistered,
nothing is on the stack but what is started from then on.
-/

namespace Doomtown

open Play

/-- The stack of an ability is dropped by no event but the begin of a round. -/
theorem Engine.Proper.beginRound_of_clearsOn {e : Engine} {a : AbilityId} {event : EventName}
    (h : e.Proper) (hclears : e.clearsOn event a) : event = .beginRound := by
  obtain ⟨s, hs, hof⟩ := List.any_eq_true.mp hclears
  simp only [Bool.and_eq_true, decide_eq_true_eq] at hof
  obtain ⟨rfl, hlistener⟩ := hof
  rcases h a with hempty | ⟨ability, -, hwhole⟩
  · have hnil : e.registrar.of a = [] := congrArg Entry.subscriptions hempty
    simp [hnil] at hs
  · have hmem : (s.event, s.listener) ∈ ability.subscriptions := by
      rw [← hwhole.subscriptions]
      exact List.mem_map.mpr ⟨s, hs, rfl⟩
    rw [hlistener] at hmem
    unfold Ability.subscriptions at hmem
    simp only [List.mem_append, List.mem_map, Prod.mk.injEq] at hmem
    rcases hmem with (hreset | hend) | ⟨-, -, -, htrigger⟩
    · cases hlimit : ability.limit <;> simp [hlimit] at hreset
    · split at hend <;> simp at hend
      exact hend
    · simp at htrigger

namespace Moment

variable {m : Moment} {d : Deed} {a : AbilityId} {x : ActivationId} {p : PlayerId}
  {activation : Activation}

/-- A deed that begins no round, and after which the card of an ability is in place. -/
structure SameRound (a : AbilityId) (m : Moment) (d : Deed) : Prop where
  fires : ∀ event ∈ m.fires? d, event.name ≠ .beginRound
  kept : d ≠ .call (.clear a)
  inPlace : (m.after d).engine.inPlace a

/-- A deed does not end the registration of an ability by hand. -/
def KeepsListening (a : AbilityId) (m : Moment) (d : Deed) : Prop :=
  m.gives d ≠ some (.unregister a)

/-! ## What is on the stack -/

/-- All that was started with an ability since a number was given is on its stack, but for what was
retracted. -/
def Lists (m : Moment) (a : AbilityId) (n : Nat) : Prop :=
  ∀ y activation, n ≤ y.number → m.engine.activations.get? y = some activation →
    activation.ability = a → activation.deactivated = false → y ∈ m.engine.stack a

/-- All that is on a stack was started later. -/
def Outlasts (m : Moment) (a : AbilityId) (n : Nat) : Prop :=
  ∀ y ∈ m.engine.stack a, n < y.number

variable {n : Nat}

/-- In the same round a stack loses nothing but what is retracted. -/
theorem mem_stack_of_sameRound (hreached : m.Reached) (hround : SameRound a m d)
    (hkeeps : KeepsListening a m d) (hmem : x ∈ m.engine.stack a)
    (hget' : (m.after d).engine.activations.get? x = some activation)
    (hactive : activation.deactivated = false) : x ∈ (m.after d).engine.stack a := by
  cases m.restacks d a with
  | keeps hstack => exact hstack ▸ hmem
  | starts p hgives hability haction hlegal hafter =>
    rw [hafter, Engine.stack_entered]
    exact List.mem_append_left _ hmem
  | @retracts p y activation₀ b hgives hlatest hget hcan hafter =>
    obtain ⟨front, hfront⟩ := Engine.stack_of_latest hlatest
    rw [hafter, Engine.stack_retracted, hfront, List.dropLast_concat]
    rw [hfront, List.mem_append, List.mem_singleton] at hmem
    rcases hmem with hmem | rfl
    · exact hmem
    · -- The last of the stack leaves it, but then it is retracted.
      rw [hafter, Engine.get?_retracted hget] at hget'
      obtain rfl := Option.some.inj hget'
      simp at hactive
  | drops hnil hwhy =>
    cases hwhy with
    | away haway => simp [hround.inPlace] at haway
    | unregistered hgives => exact absurd hgives hkeeps
    | cleared hd => exact absurd hd hround.kept
    | fired event hfires hclears =>
      exact absurd (hreached.proper.beginRound_of_clearsOn hclears) (hround.fires event hfires)

/-- An action is never offered. -/
theorem Reached.not_action_of_offered (h : m.Reached) {i : StepId} {event : GameEvent}
    {c : TriggerCandidate} {rest : List TriggerCandidate} {ability : Ability}
    (hstarts : m.starts? d = some ⟨i, .window ⟨event, c :: rest⟩⟩)
    (hability : m.engine.ability? c.ability = some ability) : ability.isAction = false := by
  obtain ⟨ability', hability', htriggered⟩ :=
    h.picks.triggers _ (mem_order_of_starts hstarts) _ rfl c List.mem_cons_self
  obtain rfl := Option.some.inj (hability.symm.trans hability')
  unfold Ability.isAction
  cases hkind : ability.kind <;> simp_all [AbilityKind.isTriggered]

theorem Lists.after (h : m.Lists a n) (hreached : m.Reached) {ability : Ability}
    (hability : m.engine.ability? a = some ability) (haction : ability.isAction)
    (hround : SameRound a m d) (hkeeps : KeepsListening a m d) : (m.after d).Lists a n := by
  intro y activation' hn hget' hof hactive
  have hfiles := hreached.sound.files hreached.ready hget'
  cases m.refiles d y with
  | stays hsame =>
    rw [hget', Option.map_some, eq_comm] at hsame
    obtain ⟨activation, hget, heq⟩ := Option.map_eq_some_iff.mp hsame
    obtain ⟨hof', -, -⟩ := hreached.sound.files_of_filed hget hfiles
    exact mem_stack_of_sameRound hreached hround hkeeps
      (h y activation hn hget (hof'.symm.trans hof) (heq.trans hactive)) hget' hactive
  | enters hy =>
    have hnone : m.engine.activations.get? y = none := by
      rw [hy]
      exact (hreached.sound.fresh _ (Nat.le_refl _)).1
    cases hfiles with
    | @played a₀ _ _ _ _ _ _ hafter =>
      change a₀ = a at hof
      subst hof
      rw [hafter, Engine.stack_entered, hy]
      exact List.mem_append_right _ List.mem_cons_self
    | @offered i event c rest a₀ hstarts _ hability₀ =>
      have hoffered : c.ability = a := by
        unfold Engine.proposed at hof
        split at hof <;> exact hof
      rw [hoffered] at hability₀
      obtain rfl := Option.some.inj (hability.symm.trans hability₀)
      -- Only triggers are offered.
      have hno := hreached.not_action_of_offered hstarts (hoffered ▸ hability)
      simp [hno] at haction
    | accepted _ _ _ _ hget => simp [hnone] at hget
    | paid _ hget => simp [hnone] at hget
    | goes hget => simp [hnone] at hget
  | declines _ hgone => simp [hgone] at hget'
  | clears _ _ _ hgone => simp [hgone] at hget'
  | retracts _ _ hget _ hafter =>
    rw [hafter, Engine.get?_retracted hget] at hget'
    obtain rfl := Option.some.inj hget'
    simp at hactive

theorem Lists.run (h : m.Lists a n) (hreached : m.Reached) {ability : Ability}
    (hability : m.engine.ability? a = some ability) (haction : ability.isAction) {ds : List Deed}
    (hround : Along (SameRound a) m ds) (hkeeps : Along (KeepsListening a) m ds) :
    (m.run ds).Lists a n := by
  induction ds generalizing m with
  | nil => exact h
  | cons d ds ih =>
    exact ih (h.after hreached hability haction hround.1 hkeeps.1) (hreached.after d)
      ((Moment.passage hreached.sound d).ability? hability) hround.2 hkeeps.2

theorem Outlasts.run (h : m.Outlasts a n) (hsound : m.Sound) (hn : n < m.engine.nextActivation)
    (ds : List Deed) : (m.run ds).Outlasts a n := by
  induction ds generalizing m with
  | nil => exact h
  | cons d ds ih =>
    refine ih (fun y hy => ?_) (hsound.after d)
      (Nat.lt_of_lt_of_le hn (Moment.passage hsound d).numbers)
    rcases mem_stack_after hy with hold | ⟨-, -, -, -, rfl, -⟩
    · exact h y hold
    · exact hn

/-- Once an ability was unregistered by hand, nothing that was started before is on its stack. -/
theorem outlasts_of_unregistered (hsound : m.Sound) (hn : n < m.engine.nextActivation)
    {ds : List Deed} (h : ¬Along (KeepsListening a) m ds) : (m.run ds).Outlasts a n := by
  induction ds generalizing m with
  | nil => exact absurd trivial h
  | cons d ds ih =>
    have hn' := Nat.lt_of_lt_of_le hn (Moment.passage hsound d).numbers
    -- The first deed that unregisters it empties the stack.
    by_cases hkeeps : KeepsListening a m d
    · exact ih (hsound.after d) hn' fun hrest => h ⟨hkeeps, hrest⟩
    · have hgives : m.gives d = some (.unregister a) := not_not.mp hkeeps
      have hafter := (after_gives hgives).1
      change (m.after d).engine = ((Engine.unregister a).ends m.engine).2 at hafter
      have hnil : (m.after d).engine.stack a = [] := by
        rw [hafter, Engine.unregister_ends]
        exact (Engine.stack_without rfl a).trans (if_pos rfl)
      exact Outlasts.run (fun y hy => by simp [hnil] at hy) (hsound.after d) hn' ds

/-! ## The latest activation of a player -/

/-- An action was started by a player, as a given activation. -/
structure StartsAs (m : Moment) (d : Deed) (a : AbilityId) (p : PlayerId) (x : ActivationId) :
    Prop where
  gives : m.gives d = some (.activate a p)
  started : ((Engine.activate a p).ends m.engine).1 = .ok true
  number : x = ⟨m.engine.nextActivation⟩

/-- What is started is filed as such, and it is the last on its stack. -/
theorem StartsAs.after (h : m.StartsAs d a p x) : ∃ ability, m.engine.ability? a = some ability ∧
    ability.isAction ∧ (m.after d).engine = m.engine.entered a (Engine.begun a ability p) := by
  have hafter := (after_gives h.gives).1
  have hstarted := h.started
  change (m.after d).engine = ((Engine.activate a p).ends m.engine).2 at hafter
  have hactivates := m.engine.activate_activates a p
  generalize (Engine.activate a p).ends m.engine = ending at hactivates hafter hstarted
  cases hactivates with
  | unknown => simp at hstarted
  | refused => simp at hstarted
  | illegal => simp at hstarted
  | started hability haction => exact ⟨_, hability, haction, hafter⟩

theorem StartsAs.lists (h : m.StartsAs d a p x) (hreached : m.Reached) :
    (m.after d).Lists a x.number := by
  obtain ⟨ability, -, -, hafter⟩ := h.after
  intro y activation hn hget _ _
  have hsound := (hreached.after d).sound
  have hnext : (m.after d).engine.nextActivation = m.engine.nextActivation + 1 := by
    rw [hafter]
    rfl
  have hlt : y.number < m.engine.nextActivation + 1 := by
    by_contra hge
    simp [(hsound.fresh y (by omega)).1] at hget
  -- No number was given since.
  obtain rfl : y = ⟨m.engine.nextActivation⟩ := by
    rw [h.number] at hn
    obtain ⟨number⟩ := y
    exact congrArg _ (Nat.le_antisymm (Nat.lt_succ_iff.mp hlt) hn)
  rw [hafter, Engine.stack_entered]
  exact List.mem_append_right _ List.mem_cons_self

/-- As long as it is filed, what was started is its player's use of its ability. -/
theorem StartsAs.filed (h : m.StartsAs d a p x) (hreached : m.Reached) (ds : List Deed)
    (hget : ((m.after d).run ds).engine.activations.get? x = some activation) :
    activation.ability = a ∧ activation.player = p := by
  obtain ⟨ability, -, -, hafter⟩ := h.after
  have hentered : ∀ activation, (m.after d).engine.activations.get? x = some activation →
      activation.ability = a ∧ activation.player = p := by
    intro activation hget
    rw [hafter, h.number, Engine.get?_entered] at hget
    obtain rfl := Option.some.inj hget
    exact ⟨rfl, rfl⟩
  have hnumber : x.number < (m.after d).engine.nextActivation := by
    rw [hafter, h.number]
    exact Nat.lt_succ_self _
  refine (hreached.after d).sound.filed_run
    (P := fun activation => activation.ability = a ∧ activation.player = p)
    (fun hadvance hof => ?_) hnumber hentered ds activation hget
  rcases hadvance.carries with hcarries | ⟨_, -, -, rfl⟩ | ⟨_, -, -, rfl⟩
  · exact ⟨hcarries.ability.trans hof.1, hcarries.player.trans hof.2⟩
  · exact hof
  · exact hof

/-- Of a stack the last was started last. -/
theorem Stacked.le_latest (h : m.Stacked) {y : ActivationId}
    (hlatest : m.engine.latestRetractable? a = some x) (hmem : y ∈ m.engine.stack a) :
    y.number ≤ x.number := by
  obtain ⟨front, hfront, hbelow⟩ := h.split hlatest
  rw [hfront, List.mem_append, List.mem_singleton] at hmem
  rcases hmem with hmem | rfl
  · exact Nat.le_of_lt (hbelow y hmem)
  · exact Nat.le_refl _

/-- If the last of the stack was started no later, all that was started later is retracted. -/
theorem Lists.deactivated_of_latest (h : m.Lists a n) (hstacked : m.Stacked) {z : ActivationId}
    (hlatest : m.engine.latestRetractable? a = some z) (hle : z.number ≤ n) :
    ∀ y other, n < y.number → m.engine.activations.get? y = some other → other.ability = a →
      other.deactivated := by
  intro y other hlt hget hof
  by_contra hactive
  have hmem := h y other (Nat.le_of_lt hlt) hget hof (by simpa using hactive)
  have := hstacked.le_latest hlatest hmem
  omega

/-- If all that was started later is retracted, what was started first is the last of the stack. -/
theorem Lists.latest_of_deactivated (h : m.Lists a x.number) (hstacked : m.Stacked)
    (hget : m.engine.activations.get? x = some activation) (hof : activation.ability = a)
    (hactive : activation.deactivated = false)
    (hlater : ∀ y other, x.number < y.number → m.engine.activations.get? y = some other →
      other.ability = a → other.deactivated) : m.engine.latestRetractable? a = some x := by
  have hmem := h x activation (Nat.le_refl _) hget hof hactive
  obtain ⟨z, hlast⟩ : ∃ z, (m.engine.stack a).getLast? = some z :=
    ⟨_, List.getLast?_eq_some_getLast (List.ne_nil_of_mem hmem)⟩
  have hlatest : m.engine.latestRetractable? a = some z :=
    (m.engine.latestRetractable?_eq a).trans hlast
  have hle := hstacked.le_latest hlatest hmem
  obtain ⟨other, hgetz, hofz, -, hactivez⟩ :=
    hstacked.filed a z (Engine.mem_stack_of_latest hlatest)
  obtain rfl : z = x := by
    by_contra hne
    have hlt : x.number < z.number := by
      obtain ⟨i⟩ := x
      obtain ⟨j⟩ := z
      exact Nat.lt_of_le_of_ne hle fun heq => hne (congrArg _ heq.symm)
    simp [hlater z other hlt hgetz hofz] at hactivez
  exact hlatest

/-- While an ability is not unregistered, its stack lists all that was started with it since. -/
theorem StartsAs.lists_run (h : m.StartsAs d a p x) (hreached : m.Reached) {ds : List Deed}
    (hround : Along (SameRound a) (m.after d) ds)
    (hkeeps : Along (KeepsListening a) (m.after d) ds) :
    ((m.after d).run ds).Lists a x.number := by
  obtain ⟨ability, hability, haction, -⟩ := h.after
  exact (h.lists hreached).run (hreached.after d)
    ((Moment.passage hreached.sound d).ability? hability) haction hround hkeeps

/-- Once the ability is unregistered, what was started is not on its stack. -/
theorem StartsAs.outlasts_run (h : m.StartsAs d a p x) (hreached : m.Reached) {ds : List Deed}
    (hnot : ¬Along (KeepsListening a) (m.after d) ds) :
    ((m.after d).run ds).Outlasts a x.number := by
  obtain ⟨ability, -, -, hafter⟩ := h.after
  refine outlasts_of_unregistered (hreached.after d).sound ?_ hnot
  rw [hafter, h.number]
  exact Nat.lt_succ_self _

/-- A player has started an action, and since then the round has gone on with its card in place. If
the player has not started it again, and the costs are paid and could be taken back now, then the
player retracts it exactly if nobody has unregistered the action since, and all that others have
started with it since is retracted. -/
theorem retract_ownLatest_iff (b : Board) (before : List Deed)
    (hstarts : ((start b).run before).StartsAs d a p x) {ds : List Deed}
    (hm : (((start b).run before).after d).run ds = m)
    (hround : Along (SameRound a) (((start b).run before).after d) ds)
    (hget : m.engine.activations.get? x = some activation)
    (hstage : activation.stage = .costsPaid)
    (hcan : Payment.canUnpayAll m.engine.board activation.receipts)
    (hown : ∀ y other, m.engine.activations.get? y = some other → other.ability = a →
      other.player = p → y.number ≤ x.number) :
    ((Engine.retract a p).ends m.engine).1 = .ok true ↔
      Along (KeepsListening a) (((start b).run before).after d) ds ∧
        ∀ y other, x.number < y.number → m.engine.activations.get? y = some other →
          other.ability = a → other.deactivated := by
  have hbefore : ((start b).run before).Reached := ⟨b, before, rfl⟩
  have hreached : m.Reached := hm ▸ (hbefore.after d).run ds
  rw [hreached.retract_eq_true_iff]
  constructor
  · rintro ⟨z, other, hlatest, hgetz, hcanz⟩
    obtain ⟨_, -, hgetz', hof, -⟩ := hreached.latest hlatest
    obtain rfl := Option.some.inj (hgetz.symm.trans hgetz')
    -- What is retracted is the player's own, and so no later than the latest of the player.
    have hle : z.number ≤ x.number := hown z other hgetz hof (Engine.canRetract_iff.mp hcanz).1
    have hkeeps : Along (KeepsListening a) (((start b).run before).after d) ds := by
      by_contra hnot
      have houtlasts : m.Outlasts a x.number := hm ▸ hstarts.outlasts_run hbefore hnot
      exact absurd (houtlasts z (Engine.mem_stack_of_latest hlatest)) (Nat.not_lt.mpr hle)
    have hlists : m.Lists a x.number := hm ▸ hstarts.lists_run hbefore hround hkeeps
    exact ⟨hkeeps, hlists.deactivated_of_latest hreached.stacked hlatest hle⟩
  · rintro ⟨hkeeps, hlater⟩
    obtain ⟨hof, hby⟩ := hstarts.filed hbefore ds (hm ▸ hget)
    have hactive : activation.deactivated = false :=
      hreached.sound.active hget (by simp [hstage])
    have hlists : m.Lists a x.number := hm ▸ hstarts.lists_run hbefore hround hkeeps
    refine ⟨x, activation, ?_, hget, ?_⟩
    · exact hlists.latest_of_deactivated hreached.stacked hget hof hactive hlater
    · exact Engine.canRetract_iff.mpr ⟨hby, hstage, hcan⟩

/-- The deed has an action that is open to all players and aimed at a player. -/
def actionForAll : List Deed :=
  [.call (.attach ⟨3⟩ {
    kind := .action
    anyPlayer := true
    targets := [⟨"target", .players fun _ _ _ => true⟩]
    handler := some fun _ => .done })]

/-- The first player starts it. -/
def firstStarts : Deed := .call (.order (.activate ⟨0⟩ ⟨0⟩))

/-- The first player has started it. -/
def startedByFirst : Moment := ((start deedInPlay).run actionForAll).after firstStarts

/-- While the first player is asked for a target, the second one starts it too. -/
def secondStarts : List Deed := [.turn, .turn, .call (.order (.activate ⟨0⟩ ⟨1⟩)), .turn, .turn]

/-- And retracts it. -/
def secondRetracts : List Deed := secondStarts ++ [.call (.order (.retract ⟨0⟩ ⟨1⟩))]

theorem firstStarts_startsAs :
    ((start deedInPlay).run actionForAll).StartsAs firstStarts ⟨0⟩ ⟨0⟩ ⟨0⟩ :=
  ⟨rfl, by decide +kernel, by decide +kernel⟩

theorem sameRound_secondRetracts : Along (SameRound ⟨0⟩) startedByFirst secondRetracts := by
  refine ⟨⟨?_, by simp, ?_⟩, ⟨?_, by simp, ?_⟩, ⟨?_, by simp, ?_⟩, ⟨?_, by simp, ?_⟩,
    ⟨?_, by simp, ?_⟩, ⟨?_, by simp, ?_⟩, trivial⟩
  all_goals decide +kernel

/-- Where two activations were started, and the later one by the second player, the first player has
started no later one than the first. -/
theorem number_le_of_two (hreached : m.Reached) (hnext : m.engine.nextActivation = 2)
    (hsecond : (m.engine.activations.get? ⟨1⟩).map (·.player) = some ⟨1⟩) :
    ∀ y other, m.engine.activations.get? y = some other → other.ability = ⟨0⟩ →
      other.player = ⟨0⟩ → y.number ≤ 0 := by
  rintro ⟨number⟩ other hget - hby
  have hlt : number < 2 := by
    by_contra hge
    have hge : m.engine.nextActivation ≤ number := by omega
    simp [(hreached.sound.fresh ⟨number⟩ hge).1] at hget
  by_contra hpos
  obtain rfl : number = 1 := by
    have : ¬number ≤ 0 := hpos
    omega
  rw [hget, Option.map_some, hby] at hsecond
  simp at hsecond

/-- After the second player has retracted, the first one can. -/
theorem retract_ownLatest_iff_secondRetracts :
    ∃ m activation, startedByFirst.run secondRetracts = m ∧
      ((start deedInPlay).run actionForAll).StartsAs firstStarts ⟨0⟩ ⟨0⟩ ⟨0⟩ ∧
      Along (SameRound ⟨0⟩) startedByFirst secondRetracts ∧
      m.engine.activations.get? ⟨0⟩ = some activation ∧ activation.stage = .costsPaid ∧
      Payment.canUnpayAll m.engine.board activation.receipts ∧
      ((Engine.retract ⟨0⟩ ⟨0⟩).ends m.engine).1 = .ok true ∧
      (((Engine.retract ⟨0⟩ ⟨0⟩).ends m.engine).1 = .ok true ↔
        Along (KeepsListening ⟨0⟩) startedByFirst secondRetracts ∧
          ∀ y other, 0 < y.number → m.engine.activations.get? y = some other →
            other.ability = ⟨0⟩ → other.deactivated) := by
  generalize hm : startedByFirst.run secondRetracts = m
  have hfiled : (m.engine.activations.get? ⟨0⟩).map (fun activation => (activation.stage,
      Payment.canUnpayAll m.engine.board activation.receipts)) = some (.costsPaid, true) := by
    rw [← hm]
    decide +kernel
  obtain ⟨activation, hget, hfacts⟩ := Option.map_eq_some_iff.mp hfiled
  obtain ⟨hstage, hcan⟩ := Prod.mk.inj hfacts
  have hreached : m.Reached := by
    rw [← hm]
    exact Reached.run (Reached.after ⟨deedInPlay, actionForAll, rfl⟩ firstStarts) secondRetracts
  have hown := number_le_of_two hreached (by rw [← hm]; decide +kernel)
    (by rw [← hm]; decide +kernel)
  exact ⟨m, activation, rfl, firstStarts_startsAs, sameRound_secondRetracts, hget, hstage, hcan,
    by rw [← hm]; decide +kernel,
    retract_ownLatest_iff deedInPlay actionForAll firstStarts_startsAs hm
      sameRound_secondRetracts hget hstage hcan hown⟩

/-- Before that the first player cannot retract, though the player's latest activation is live, its
target is asked for, and all that was paid for it could be taken back. -/
theorem not_retracts_own_secondStarts :
    ∃ m activation i, startedByFirst.run secondStarts = m ∧
      ((start deedInPlay).run actionForAll).StartsAs firstStarts ⟨0⟩ ⟨0⟩ ⟨0⟩ ∧
      Along (SameRound ⟨0⟩) startedByFirst secondStarts ∧
      m.engine.activations.get? ⟨0⟩ = some activation ∧ activation.isLive ∧
      activation.stage = .costsPaid ∧ activation.prompt = some i ∧
      (∃ s ∈ m.engine.queue.order, s.id = i ∧ s.kind.part? = some (⟨0⟩, .choose)) ∧
      Payment.canUnpayAll m.engine.board activation.receipts ∧
      (∀ y other, m.engine.activations.get? y = some other → other.ability = ⟨0⟩ →
        other.player = ⟨0⟩ → y.number ≤ 0) ∧
      ((Engine.retract ⟨0⟩ ⟨0⟩).ends m.engine).1 = .ok false := by
  generalize hm : startedByFirst.run secondStarts = m
  have hfiled : (m.engine.activations.get? ⟨0⟩).map (fun activation => (activation.stage,
      activation.prompt, activation.isLive,
      Payment.canUnpayAll m.engine.board activation.receipts)) =
        some (.costsPaid, some ⟨2⟩, true, true) := by
    rw [← hm]
    decide +kernel
  obtain ⟨activation, hget, hfacts⟩ := Option.map_eq_some_iff.mp hfiled
  simp only [Prod.mk.injEq] at hfacts
  obtain ⟨hstage, hprompt, hlive, hcan⟩ := hfacts
  have hasks : ∃ s ∈ m.engine.queue.order,
      s.id = (⟨2⟩ : StepId) ∧ s.kind.part? = some (⟨0⟩, .choose) := by
    rw [← hm]
    decide +kernel
  have hreached : m.Reached := by
    rw [← hm]
    exact Reached.run (Reached.after ⟨deedInPlay, actionForAll, rfl⟩ firstStarts) secondStarts
  have hown := number_le_of_two hreached (by rw [← hm]; decide +kernel)
    (by rw [← hm]; decide +kernel)
  have hround : Along (SameRound ⟨0⟩) startedByFirst secondStarts :=
    (along_append.mp sameRound_secondRetracts).1
  exact ⟨m, activation, ⟨2⟩, rfl, firstStarts_startsAs, hround, hget, hlive, hstage, hprompt, hasks,
    hcan, hown, by rw [← hm]; decide +kernel⟩

end Moment

end Doomtown
