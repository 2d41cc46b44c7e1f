import Doomtown.Proofs.Handling
import Doomtown.Proofs.Subscription

/-!
# The upkeep of registrations

What the engine keeps for an ability while it is registered is its entry: its subscriptions and its
counter (`Engine.Entry`). An entry is made when the ability is registered and dropped when it is not
any more; apart from that, only the count in it changes. Most plays move no card and touch no entry,
or bring entries in step with where the cards are: they tend the engine (`Engine.Tends`). To refresh
a card is to bring the entries of all its abilities in step (`Engine.refresh_tends`).
-/

namespace Doomtown

open Play

/-! ## Subscriptions of one ability -/

namespace Registrar

variable (r : Registrar) (a a' : AbilityId)

theorem isRegistered_iff : r.isRegistered a ↔ r.of a ≠ [] := by
  rw [isRegistered_iff_exists, of_eq_filter]
  simp [List.filter_eq_nil_iff]

/-- The subscriptions that are made for an ability come behind those that it has. -/
theorem of_registerAll (l : List (EventName × Listener)) :
    ∃ made, (r.registerAll a l).of a = r.of a ++ made ∧
      made.map (fun s => (s.event, s.listener)) = l := by
  induction l generalizing r with
  | nil => exact ⟨[], by simp [registerAll], rfl⟩
  | cons s l ih =>
    obtain ⟨made, hof, hmade⟩ := ih (r.register a s.1 s.2)
    refine ⟨⟨r.nextToken, a, s.1, s.2⟩ :: made, ?_, by simp [hmade]⟩
    show ((r.register a s.1 s.2).registerAll a l).of a = _
    rw [hof, of_eq_filter, subscriptions_register, of_eq_filter]
    simp

theorem of_registerAll_other (h : a ≠ a') (l : List (EventName × Listener)) :
    (r.registerAll a l).of a' = r.of a' := by
  induction l generalizing r with
  | nil => rfl
  | cons s l ih =>
    show ((r.register a s.1 s.2).registerAll a l).of a' = _
    rw [ih, of_eq_filter, subscriptions_register, of_eq_filter]
    simp [h]

theorem of_unregisterAll : (r.unregisterAll a).of a' = if a' = a then [] else r.of a' := by
  rw [of_eq_filter, subscriptions_unregisterAll, of_eq_filter, List.filter_filter]
  by_cases h : a' = a
  · subst h
    simp
  · rw [if_neg h]
    refine List.filter_congr fun s _ => ?_
    by_cases hs : s.ability = a'
    · simp [hs, h]
    · simp [hs]

end Registrar

/-- A counter is started for an ability that has none. -/
theorem UsageTracker.get?_track (t : UsageTracker) (a : AbilityId) (limit : AbilityLimit)
    (a' : AbilityId) : (t.track a limit).counters.get? a' =
      if a' = a then some ((t.counters.get? a).getD (.new limit)) else t.counters.get? a' := by
  unfold track IdMap.contains
  cases hcounter : t.counters.get? a with
  | none =>
    simp only [Option.isSome_none, Bool.false_eq_true, if_false, IdMap.get?_insert,
      Option.getD_none, eq_comm]
  | some u =>
    by_cases ha : a' = a
    · simp [ha, hcounter]
    · simp [ha]

namespace Engine

/-! ## Entries -/

/-- What is kept for an ability while it is registered. -/
structure Entry where
  subscriptions : List Subscription
  counter : Option AbilityUsage

namespace Entry

/-- What is kept for an ability that is not registered. -/
def empty : Entry := ⟨[], none⟩

/-- The entry of an ability is made where it had no subscriptions. A counter that is there already
is kept. -/
structure Enters (ability : Ability) (s s' : Entry) : Prop where
  none : s.subscriptions = []
  subscriptions : s'.subscriptions.map (fun s => (s.event, s.listener)) = ability.subscriptions
  counter : s'.counter = (ability.limit.map fun limit => s.counter.getD (.new limit)).or s.counter

/-- An entry is brought in step with where the ability's card is, or left alone. -/
inductive Tends (ability : Option Ability) (here : Bool) (s : Entry) : Entry → Prop where
  | keeps : Tends ability here s s
  | enters {a : Ability} {s' : Entry} (hability : ability = some a) (hhere : here = true)
      (h : Enters a s s') : Tends ability here s s'
  | leaves (hhere : here = false) : Tends ability here s empty

variable {ability : Option Ability} {here : Bool} {s s' s'' : Entry}

theorem Tends.trans (h : Tends ability here s s') (h' : Tends ability here s' s'') :
    Tends ability here s s'' := by
  cases h with
  | keeps => exact h'
  | @enters a _ hability hhere hnew =>
    cases h' with
    | keeps => exact .enters hability hhere hnew
    | @enters a' _ hability' _ hnew' =>
      -- An ability without subscriptions is never registered, and made an entry for once more.
      obtain rfl := Option.some.inj (hability.symm.trans hability')
      refine .enters hability hhere ⟨hnew.none, hnew'.subscriptions, ?_⟩
      rw [hnew'.counter, hnew.counter]
      cases a.limit <;> rfl
    | leaves haway => rw [hhere] at haway; simp at haway
  | leaves haway =>
    cases h' with
    | keeps => exact .leaves haway
    | enters _ hhere _ => rw [haway] at hhere; simp at hhere
    | leaves _ => exact .leaves haway

end Entry

/-- What the engine keeps for an ability. -/
def entry (e : Engine) (a : AbilityId) : Entry := ⟨e.registrar.of a, e.usage.counters.get? a⟩

/-- Whether the card of an ability is at one of the ability's locations. -/
def inPlace (e : Engine) (a : AbilityId) : Bool :=
  (e.ability? a).any fun ability =>
    e.board.cardIs ability.source fun card => ability.listensIn card.location

/-! ## Tending -/

/-- No card is moved, no ability is attached, and entries are left alone or brought in step with
where the cards are. -/
structure Tends (e e' : Engine) : Prop where
  board : e.board.Rests e'.board
  abilities : e'.abilities = e.abilities
  entries : ∀ a, (e.entry a).Tends (e.ability? a) (e.inPlace a) (e'.entry a)

variable {e e' e'' : Engine}

/-- The same abilities are found where the same were attached. -/
theorem ability?_congr (h : e'.abilities = e.abilities) (a : AbilityId) :
    e'.ability? a = e.ability? a := by
  unfold Engine.ability?
  rw [h]

theorem inPlace_of_rests (hplaces : ∀ c, e'.board.place? c = e.board.place? c)
    (habilities : e'.abilities = e.abilities) (a : AbilityId) : e'.inPlace a = e.inPlace a := by
  unfold inPlace
  rw [ability?_congr habilities]
  cases e.ability? a with
  | none => rfl
  | some ability => exact Board.cardIs_of_place? (hplaces ability.source) ability.listensIn

theorem Tends.ability? (h : e.Tends e') (a : AbilityId) : e'.ability? a = e.ability? a :=
  ability?_congr h.abilities a

theorem Tends.inPlace (h : e.Tends e') (a : AbilityId) : e'.inPlace a = e.inPlace a :=
  inPlace_of_rests (fun c => h.board.places c (by simp)) h.abilities a

theorem Tends.refl (e : Engine) : e.Tends e := ⟨.refl none _, rfl, fun _ => .keeps⟩

theorem Tends.trans (h : e.Tends e') (h' : e'.Tends e'') : e.Tends e'' := by
  refine ⟨h.board.trans h'.board, h'.abilities.trans h.abilities, fun a => ?_⟩
  have hentry := h'.entries a
  rw [h.ability?, h.inPlace] at hentry
  exact (h.entries a).trans hentry

/-- A chain of plays that tend the engine tends it. -/
theorem tends_of_chain (h : Relation.ReflTransGen Tends e e') : e.Tends e' :=
  link_of_chain .refl .trans h

/-- Whatever else changes, what is neither board nor ability nor entry needs no tending. -/
theorem tends_of_eq (hboard : e'.board = e.board) (habilities : e'.abilities = e.abilities)
    (hregistrar : e'.registrar = e.registrar) (husage : e'.usage = e.usage) : e.Tends e' := by
  refine ⟨hboard ▸ .refl none _, habilities, fun a => ?_⟩
  have hentry : e'.entry a = e.entry a := by rw [entry, hregistrar, husage, entry]
  rw [hentry]
  exact .keeps

/-- A change of the board that moves nothing. -/
theorem tends_board {b : Board} (h : e.board.Rests b) : e.Tends { e with board := b } :=
  ⟨h, rfl, fun _ => .keeps⟩

/-! ## Plays that tend -/

theorem tends_onBoard {α : Type} {p : Play Board α} (hp : p.Chains Board.Rests) :
    (onBoard p).Chains Tends :=
  .single fun e => tends_board (Board.moves_of_chain (hp e.board))

theorem tends_change {f : Engine → Engine} (hf : ∀ e, (f e).board = e.board ∧
    (f e).abilities = e.abilities ∧ (f e).registrar = e.registrar ∧ (f e).usage = e.usage) :
    (change f).Chains Tends :=
  .change fun e => tends_of_eq (hf e).1 (hf e).2.1 (hf e).2.2.1 (hf e).2.2.2

theorem tends_post (kind : StepKind) : (post kind).Chains Tends :=
  .bind (.view _) fun _ => .bind (tends_change fun _ => ⟨rfl, rfl, rfl, rfl⟩) fun _ => .answer _

theorem tends_modifyActivation (x : ActivationId) (f : Activation → Activation) :
    (modifyActivation x f).Chains Tends :=
  tends_change fun _ => ⟨rfl, rfl, rfl, rfl⟩

theorem tends_dropActivation (x : ActivationId) : (dropActivation x).Chains Tends :=
  tends_change fun _ => ⟨rfl, rfl, rfl, rfl⟩

theorem tends_message (template : String) (args : List MessageArg)
    (named : List (String × MessageArg)) : (message template args named).Chains Tends :=
  .bind .look fun _ => .log _

/-- Whatever handles activations tends the engine. -/
theorem handles_tends : Handles Tends where
  board := tends_onBoard
  post _ := tends_post _
  postNext _ := .bind (.view _) fun _ =>
    .bind (tends_change fun _ => ⟨rfl, rfl, rfl, rfl⟩) fun _ => .answer _
  unqueue _ := tends_change fun _ => ⟨rfl, rfl, rfl, rfl⟩
  takeId := .bind (.view _) fun _ =>
    .bind (tends_change fun _ => ⟨rfl, rfl, rfl, rfl⟩) fun _ => .answer _
  put _ _ _ := tends_change fun _ => ⟨rfl, rfl, rfl, rfl⟩
  modify x _ _ := tends_modifyActivation x _
  drop := tends_dropActivation
  retractable _ := tends_change fun _ => ⟨rfl, rfl, rfl, rfl⟩

theorem tends_announce (data : EventData) : (announce data).Chains Tends :=
  handles_tends.raise data _

theorem tends_beginRound : beginRound.Chains Tends :=
  .bind (.change fun _ => tends_board (Board.rests_of_cards_eq rfl rfl rfl rfl rfl rfl)) fun _ =>
    .bind .look fun _ => .bind (.log _) fun _ => tends_announce _

theorem tends_clearRetractable (a : AbilityId) : (clearRetractable a).Chains Tends :=
  tends_change fun _ => ⟨rfl, rfl, rfl, rfl⟩

/-! ## Targets -/

theorem tends_promptTarget (a : Ability) (x : ActivationId) (activation : Activation)
    (slot : String) (choices : List ChosenTarget) :
    (promptTarget a x activation slot choices).Chains Tends :=
  .bind .look fun _ => .bind (tends_post _) fun _ => tends_modifyActivation _ _

theorem tends_fillSlots (a : Ability) (x : ActivationId) (activation : Activation) :
    ∀ slots : List TargetSlot, (fillSlots a x activation slots).Chains Tends
  | [] => .bind (tends_modifyActivation _ _) fun _ => .discard (tends_post _)
  | slot :: rest => by
    unfold fillSlots
    refine .ite (tends_fillSlots a x activation rest) (.bind .look fun e => ?_)
    rcases slot.choices e.board activation with _ | ⟨target, _ | ⟨other, more⟩⟩
    · exact .bind (tends_message _ _ _) fun _ => tends_modifyActivation _ _
    · exact .bind (tends_modifyActivation _ _) fun _ => tends_fillSlots a x activation rest
    · exact tends_promptTarget a x activation slot.name _

theorem tends_chooseTarget (x : ActivationId) (slot : String) (choices : List ChosenTarget)
    (n : Nat) : (chooseTarget x slot choices n).Chains Tends := by
  unfold chooseTarget
  cases choices[n]? with
  | none => exact .answer _
  | some target => exact .bind (tends_modifyActivation _ _) fun _ => .discard (tends_post _)

/-! ## Registering -/

/-- Nothing but the entry of one ability is touched. -/
structure Touches (a : AbilityId) (e e' : Engine) : Prop where
  board : e'.board = e.board
  abilities : e'.abilities = e.abilities
  others : ∀ a', a' ≠ a → e'.entry a' = e.entry a'

variable {a : AbilityId} {ability : Ability} {c : CardId}

/-- An ability that exists is registered, or an entry is made for it. -/
theorem register_touches (hability : e.ability? a = some ability) :
    ∃ e', (register a).ends e = (.ok (), e') ∧ e.Touches a e' ∧
      (e' = e ∧ e.registrar.isRegistered a ∨ (e.entry a).Enters ability (e'.entry a)) := by
  by_cases hregistered : e.registrar.isRegistered a = true
  · refine ⟨e, ?_, ⟨rfl, rfl, fun _ _ => rfl⟩, .inl ⟨rfl, hregistered⟩⟩
    unfold register
    rw [ends_bind_ok (ends_look e), if_pos hregistered]
    rfl
  · let e' : Engine := { e with
      usage := ability.limit.elim e.usage (e.usage.track a)
      registrar := e.registrar.registerAll a ability.subscriptions }
    have hends : (register a).ends e = (.ok (), e') := by
      unfold register
      rw [ends_bind_ok (ends_look e), if_neg hregistered, ends_bind_ok (getAbility_ends hability),
        ends_bind_ok (ends_change _ _)]
      simp only [e']
      cases ability.limit <;> rfl
    have hnone : e.registrar.of a = [] := by
      by_contra hne
      exact hregistered ((e.registrar.isRegistered_iff a).mpr hne)
    obtain ⟨made, hof, hmade⟩ := e.registrar.of_registerAll a ability.subscriptions
    refine ⟨e', hends, ⟨rfl, rfl, fun a' ha' => ?_⟩, .inr ⟨hnone, ?_, ?_⟩⟩
    · have hcounters : e'.usage.counters.get? a' = e.usage.counters.get? a' := by
        show (ability.limit.elim e.usage (e.usage.track a)).counters.get? a' = _
        cases ability.limit with
        | none => rfl
        | some limit => rw [Option.elim_some, UsageTracker.get?_track, if_neg ha']
      unfold entry
      rw [hcounters]
      exact congrArg (Entry.mk · _) (e.registrar.of_registerAll_other a a' (Ne.symm ha') _)
    · show ((e.registrar.registerAll a ability.subscriptions).of a).map _ = _
      rw [hof, hnone]
      exact hmade
    · show (ability.limit.elim e.usage (e.usage.track a)).counters.get? a =
        (ability.limit.map fun limit => (e.usage.counters.get? a).getD (.new limit)).or
          (e.usage.counters.get? a)
      cases ability.limit with
      | none => rfl
      | some limit =>
        rw [Option.elim_some, UsageTracker.get?_track, if_pos rfl]
        rfl

/-- The entry of an ability that is unregistered is gone. -/
theorem unregister_touches (a : AbilityId) (e : Engine) :
    ∃ e', (unregister a).ends e = (.ok (), e') ∧ e.Touches a e' ∧ e'.entry a = .empty := by
  let e' : Engine := { e with
    registrar := e.registrar.unregisterAll a
    usage := e.usage.untrack a
    retractable := e.retractable.filter (·.1 ≠ a) }
  refine ⟨e', ?_, ⟨rfl, rfl, fun a' ha' => ?_⟩, ?_⟩
  · unfold unregister
    rw [ends_bind_ok (ends_look e)]
    dsimp only
    rw [ends_bind_ok (ends_change _ _)]
    split <;> rfl
  · show Entry.mk ((e.registrar.unregisterAll a).of a') ((e.usage.counters.erase a).get? a') = _
    rw [Registrar.of_unregisterAll, if_neg ha', IdMap.get?_erase, if_neg (Ne.symm ha')]
    rfl
  · show Entry.mk ((e.registrar.unregisterAll a).of a) ((e.usage.counters.erase a).get? a) = _
    rw [Registrar.of_unregisterAll, if_pos rfl, IdMap.get?_erase, if_pos rfl]
    rfl

/-- An ability whose card is at one of its locations is registered, unless it has nothing to
subscribe to, and any other has no entry. -/
def InStep (e : Engine) (a : AbilityId) : Prop :=
  if e.inPlace a then
    e.registrar.isRegistered a ∨ ∀ ability, e.ability? a = some ability → ability.subscriptions = []
  else e.entry a = .empty

/-- An ability that an entry was made for is registered, if it has something to subscribe to. -/
theorem Entry.Enters.isRegistered {s : Entry} (h : s.Enters ability (e.entry a))
    (hsome : ability.subscriptions ≠ []) : e.registrar.isRegistered a := by
  refine (Registrar.isRegistered_iff _ _).mpr fun hnil => hsome ?_
  have hmade := h.subscriptions
  change (e.registrar.of a).map _ = _ at hmade
  rw [← hmade, hnil]
  rfl

/-- What an entry was made for is in step where its card is in place. -/
theorem Entry.Enters.inStep {s : Entry} (h : s.Enters ability (e.entry a))
    (hability : e.ability? a = some ability) (hhere : e.inPlace a) : e.InStep a := by
  unfold InStep
  rw [if_pos hhere]
  by_cases hnone : ability.subscriptions = []
  · exact .inr fun ability' hability' => Option.some.inj (hability.symm.trans hability') ▸ hnone
  · exact .inl (h.isRegistered hnone)

/-- What is in step stays in step while the ability and whether its card is in place do not change
and its entry is tended. -/
theorem inStep_of_tends (hability : e'.ability? a = e.ability? a)
    (hplace : e'.inPlace a = e.inPlace a)
    (hentry : (e.entry a).Tends (e.ability? a) (e.inPlace a) (e'.entry a)) (hstep : e.InStep a) :
    e'.InStep a := by
  generalize hs' : e'.entry a = s' at hentry
  cases hentry with
  | keeps =>
    have hof : e'.registrar.of a = e.registrar.of a := congrArg Entry.subscriptions hs'
    unfold InStep at hstep ⊢
    rwa [hplace, hability, Registrar.isRegistered_iff, hof, ← Registrar.isRegistered_iff, hs']
  | enters hfound hhere hnew =>
    subst hs'
    exact hnew.inStep (hability.trans hfound) (hplace.trans hhere)
  | leaves haway =>
    unfold InStep
    rw [hplace, haway, if_neg (by simp)]
    exact hs'

theorem Tends.inStep (h : e.Tends e') (hstep : e.InStep a) : e'.InStep a :=
  inStep_of_tends (h.ability? a) (h.inPlace a) (h.entries a) hstep

/-- To touch nothing but an entry that is tended tends the engine. -/
theorem Touches.tends (h : e.Touches a e')
    (hentry : (e.entry a).Tends (e.ability? a) (e.inPlace a) (e'.entry a)) : e.Tends e' := by
  refine ⟨h.board ▸ .refl none _, h.abilities, fun a' => ?_⟩
  by_cases ha' : a' = a
  · subst ha'
    exact hentry
  · rw [h.others a' ha']
    exact .keeps

/-- An ability whose card is in place is in step once it is registered. -/
theorem register_tends (hability : e.ability? a = some ability) (hhere : e.inPlace a) :
    ∃ e', (register a).ends e = (.ok (), e') ∧ e'.board = e.board ∧ e.Tends e' ∧ e'.InStep a := by
  obtain ⟨e', hends, htouches, ⟨rfl, hregistered⟩ | hnew⟩ := register_touches hability
  · refine ⟨e', hends, rfl, .refl e', ?_⟩
    unfold InStep
    rw [if_pos hhere]
    exact .inl hregistered
  · have htends : e.Tends e' := htouches.tends (.enters hability hhere hnew)
    exact ⟨e', hends, htouches.board, htends,
      hnew.inStep ((htends.ability? a).trans hability) ((htends.inPlace a).trans hhere)⟩

/-- An ability whose card is not in place is in step once it is unregistered. -/
theorem unregister_tends (haway : e.inPlace a = false) :
    ∃ e', (unregister a).ends e = (.ok (), e') ∧ e'.board = e.board ∧ e.Tends e' ∧ e'.InStep a := by
  obtain ⟨e', hends, htouches, hempty⟩ := unregister_touches a e
  have htends : e.Tends e' := htouches.tends (by rw [hempty]; exact .leaves haway)
  refine ⟨e', hends, htouches.board, htends, ?_⟩
  unfold InStep
  rw [htends.inPlace, haway, if_neg (by simp)]
  exact hempty

/-- Bringing abilities of a card in step tends the engine, and they are in step then. -/
theorem refreshEach_tends {card : Card} :
    ∀ (l : List AbilityId) {e : Engine}, e.board.card? c = some card →
      (∀ a ∈ l, ∃ ability, e.ability? a = some ability ∧ ability.source = c) →
      ∃ e', (refreshEach card.location l).ends e = (.ok (), e') ∧ e.Tends e' ∧
        ∀ a ∈ l, e'.InStep a
  | [], e, _, _ => ⟨e, rfl, .refl e, fun a ha => by simp at ha⟩
  | a :: rest, e, hcard, hl => by
    obtain ⟨ability, hability, hsource⟩ := hl a List.mem_cons_self
    have hplace : e.inPlace a = ability.listensIn card.location := by
      simp [Engine.inPlace, hability, hsource, Board.cardIs, hcard]
    have hfirst : ∃ e₁, (if ability.listensIn card.location then register a else unregister a).ends
        e = (.ok (), e₁) ∧ e₁.board = e.board ∧ e.Tends e₁ ∧ e₁.InStep a := by
      by_cases hlistens : ability.listensIn card.location
      · rw [if_pos hlistens]
        exact register_tends hability (hplace.trans hlistens)
      · rw [if_neg hlistens]
        exact unregister_tends (by simpa [hplace] using hlistens)
    obtain ⟨e₁, hends₁, hboard₁, htends₁, hstep₁⟩ := hfirst
    obtain ⟨e', hends', htends', hsteps'⟩ :=
      refreshEach_tends rest (e := e₁) (by rw [hboard₁, hcard]) fun a' ha' => by
        rw [htends₁.ability?]
        exact hl a' (List.mem_cons_of_mem a ha')
    refine ⟨e', ?_, htends₁.trans htends', fun a' ha' => ?_⟩
    · rw [refreshEach, ends_bind_ok (getAbility_ends hability), ← hends']
      by_cases hlistens : ability.listensIn card.location <;>
        simp only [hlistens, if_true, Bool.false_eq_true, if_false] at hends₁ ⊢ <;>
        exact ends_bind_ok hends₁ _
    · rcases List.mem_cons.mp ha' with rfl | ha'
      · exact htends'.inStep hstep₁
      · exact hsteps' a' ha'

theorem mem_abilitiesOf : a ∈ e.abilitiesOf c ↔
    ∃ ability, e.ability? a = some ability ∧ ability.source = c := by
  unfold abilitiesOf
  rw [List.mem_filter, Option.any_eq_true]
  constructor
  · rintro ⟨-, ability, hability, hsource⟩
    exact ⟨ability, hability, of_decide_eq_true hsource⟩
  · rintro ⟨ability, hability, hsource⟩
    refine ⟨List.mem_map.mpr ⟨a.number, ?_, rfl⟩, ability, hability, decide_eq_true hsource⟩
    exact List.mem_range.mpr (List.getElem?_eq_some_iff.mp hability).1

/-- To look up a card changes nothing. -/
theorem getCard_ends (c : CardId) (e : Engine) :
    (onBoard (Board.getCard c)).ends e =
      ((e.board.card? c).elim (.error (.unknownId c.number)) .ok, e) := by
  unfold Board.getCard
  cases hcard : e.board.card? c <;> simp [onBoard, ends_bind, hcard]

/-- The abilities of a card that exists are in step once its registration is refreshed. -/
theorem refresh_tends (c : CardId) (e : Engine) :
    ∃ r e', (refresh c).ends e = (r, e') ∧ e.Tends e' ∧ ((e.board.card? c).isSome → r = .ok () ∧
      ∀ a ∈ e.abilitiesOf c, e'.InStep a) := by
  have hget := getCard_ends c e
  unfold refresh
  cases hcard : e.board.card? c with
  | none =>
    rw [hcard] at hget
    rw [ends_bind_error hget]
    exact ⟨_, e, rfl, .refl e, by simp⟩
  | some card =>
    rw [hcard] at hget
    rw [ends_bind_ok hget, ends_bind_ok (ends_look e)]
    obtain ⟨e', hends, htends, hsteps⟩ := refreshEach_tends (e.abilitiesOf c) hcard
      fun a ha => mem_abilitiesOf.mp ha
    exact ⟨_, e', hends, htends, fun _ => ⟨rfl, hsteps⟩⟩

/-! ## Orders that move nothing -/

/-- No card is moved. -/
def Rests (e e' : Engine) : Prop := e.board.Rests e'.board

theorem rests_of_chain (h : Relation.ReflTransGen Rests e e') : e.Rests e' :=
  link_of_chain (fun _ => .refl none _) (fun h h' => h.trans h') h

theorem rests_of_tends {α : Type} {p : Play Engine α} (hp : p.Chains Tends) : p.Chains Rests :=
  hp.mono fun _ _ h => h.board

theorem rests_onBoard {α : Type} {p : Play Board α} (hp : p.Chains Board.Rests) :
    (onBoard p).Chains Rests :=
  rests_of_tends (tends_onBoard hp)

theorem rests_change {f : Engine → Engine} (hf : ∀ e, (f e).board = e.board) :
    (change f).Chains Rests :=
  .change fun e => by
    unfold Rests
    rw [hf]
    exact .refl none _

theorem rests_register (a : AbilityId) : (register a).Chains Rests :=
  .bind .look fun _ => .ite (.answer _) <| .bind (chains_getAbility a) fun _ =>
    .bind (rests_change fun _ => rfl) fun _ => .trace _

/-- All orders but those to move a card. -/
theorem rests_order (o : Order) (hmove : ∀ c l, o ≠ .move c l) (hshift : ∀ c l, o ≠ .shift c l) :
    o.carryOut.Chains Rests := by
  cases o with
  | gain p n => exact rests_onBoard (Board.rests_gain p n)
  | spend p n => exact rests_onBoard (Board.rests_spend p n)
  | modifyRank | setCheatin | restrict =>
    exact rests_onBoard (Board.rests_modifyPlayer _ fun _ => rfl)
  | boot c => exact rests_onBoard (Board.rests_boot c)
  | unboot c => exact rests_onBoard (Board.rests_unboot c)
  | sendHome c => exact rests_onBoard (Board.rests_sendHome c)
  | addControl | setInfluence | setBlank | setController =>
    exact rests_onBoard (Board.rests_modifyCard _ (fun _ => ⟨rfl, rfl, rfl⟩) fun _ h => h)
  | setPhase | setWindow | setActivePlayer => exact rests_onBoard (Board.rests_change_round _)
  | shift c l => exact absurd rfl (hshift c l)
  | move c l => exact absurd rfl (hmove c l)
  | message template args => exact rests_of_tends (tends_message template args [])
  | note line => exact .log _
  | register a => exact rests_register a
  | unregister a =>
    exact .bind .look fun _ => .bind (rests_change fun _ => rfl) fun _ =>
      .ite (.trace _) (.answer _)
  | activate a p => exact rests_of_tends (handles_tends.activate a p)
  | retract a p => exact rests_of_tends (handles_tends.retract a p)
  | respond p n => exact .answer _
  | resume => exact chains_resume
  | withdraw i => exact rests_of_tends (handles_tends.withdraw i)
  | beginRound => exact rests_of_tends tends_beginRound

end Engine

end Doomtown
