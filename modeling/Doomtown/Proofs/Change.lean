import Doomtown.Proofs.Moment
import Doomtown.Proofs.Scheduler
import Doomtown.Proofs.Subscription

/-!
# What plays change

The steps of an activation are told from all others by the part that they play in it
(`StepKind.part?`). `Engine.Change mine` lists the elementary changes of an engine's state. Steps
and records of an activation are changed only if it is `mine`. Every play is a chain of such
changes: most of them with no activation of their own, and those that take an activation on with
that one (`Engine.changes_order` and its kin). What every elementary change preserves, every play
preserves.
-/

namespace Doomtown

open Play

/-! ## The parts of an activation -/

/-- What a waiting step, or the running effect, is to an activation. -/
inductive Part where
  /-- Ask whether it shall start. -/
  | offer
  | pay
  /-- Fill its slots, or wait for a target. -/
  | choose
  | execute
  /-- Its effect is running. -/
  | effect
  /-- Announce that it has resolved. -/
  | announce
  | complete
deriving DecidableEq

namespace StepKind

/-- The activation that a step belongs to, and the step's part in it. -/
def part? : StepKind → Option (ActivationId × Part)
  | .resolve x .payCosts => some (x, .pay)
  | .resolve x .chooseTargets => some (x, .choose)
  | .resolve x .execute => some (x, .execute)
  | .complete x => some (x, .complete)
  | .event _ (.emitted x) => some (x, .announce)
  | .prompt ⟨_, _, .target x _ _⟩ => some (x, .choose)
  | .prompt ⟨_, _, .offer x _⟩ => some (x, .offer)
  | .task .. | .event _ (.script _) | .window _ | .prompt ⟨_, _, .script _⟩ => none

/-- A prompt for a target has a button for each choice. -/
def Apt : StepKind → Prop
  | .prompt ⟨view, _, .target _ _ choices⟩ => view.buttons.length = choices.length
  | _ => True

/-- A step that belongs to no activation but `mine`. -/
structure OnlyFor (mine : ActivationId → Bool) (kind : StepKind) : Prop where
  part : ∀ t ∈ kind.part?, mine t.1
  apt : kind.Apt

/-- A step that belongs to no activation at all. -/
theorem onlyFor_of_none {mine : ActivationId → Bool} {kind : StepKind} (h : kind.part? = none) :
    kind.OnlyFor mine := by
  refine ⟨by simp [h], ?_⟩
  unfold Apt
  split
  · simp [part?] at h
  · trivial

/-- A step of an activation that is `mine`, not being a prompt. -/
theorem onlyFor_of_some {mine : ActivationId → Bool} {kind : StepKind} {x : ActivationId}
    {p : Part} (h : kind.part? = some (x, p)) (hx : mine x) (hkind : ∀ q, kind ≠ .prompt q) :
    kind.OnlyFor mine := by
  refine ⟨by simp [h, hx], ?_⟩
  unfold Apt
  split
  · exact absurd rfl (hkind _)
  · trivial

end StepKind

/-! ## Elementary changes -/

namespace Engine

/-- A counter at zero with its ability's limit. -/
def FreshCounter (e : Engine) (a : AbilityId) (u : AbilityUsage) : Prop :=
  u.count = 0 ∧ ∃ ability, e.ability? a = some ability ∧ ability.limit = some u.limit

/-- One change of the engine's state, which changes no steps and records but of activations that are
`mine`. Only what can be retracted and has ended may be forgotten besides. -/
inductive Change (mine : ActivationId → Bool) (e : Engine) : Engine → Prop where
  | board (b : Board) : Change mine e { e with board := b }
  | push {kind : StepKind} (h : kind.OnlyFor mine) :
    Change mine e { e with queue := e.queue.push kind }
  | pushNext {kind : StepKind} (h : kind.OnlyFor mine) :
    Change mine e { e with queue := e.queue.pushNext kind }
  /-- A step is withdrawn that waits for a target. -/
  | withdraw {i : StepId} (h : ∀ s ∈ e.queue.order, s.id = i →
      ∃ x, s.kind.part? = some (x, .choose) ∧ mine x) :
    Change mine e { e with queue := e.queue.withdraw i }
  | file {activations : IdMap .activation Activation}
      (h : ∀ y, mine y = false → activations.get? y = e.activations.get? y) :
    Change mine e { e with activations := activations }
  | forget {activations : IdMap .activation Activation}
      {retractable : List (AbilityId × ActivationId)}
      (h : ∀ y, activations.get? y = e.activations.get? y ∨
        ∃ activation, e.activations.get? y = some activation ∧ activation.stage.isTerminal ∧
          activations.get? y = none ∧ ∃ t ∈ e.retractable, t.2 = y)
      (hsub : retractable.Sublist e.retractable) :
    Change mine e { e with activations := activations, retractable := retractable }
  | enrol (history : List Enrolment) {usage : UsageTracker}
      {retractable : List (AbilityId × ActivationId)}
      (h : ∀ a u', usage.counters.get? a = some u' → e.FreshCounter a u' ∨
        ∃ u, e.usage.counters.get? a = some u ∧ u'.limit = u.limit ∧ u'.count ≤ u.count)
      (hsub : retractable.Sublist e.retractable) :
    Change mine e { e with
      usage := usage
      registrar := history.foldl Registrar.enrol e.registrar
      retractable := retractable }
  | attach (ability : Ability) : Change mine e { e with abilities := e.abilities ++ [ability] }
  | number : Change mine e { e with nextActivation := e.nextActivation + 1 }
  /-- An activation is entered that can be retracted. -/
  | enter (a : AbilityId) (activation : Activation) (hx : mine ⟨e.nextActivation⟩) :
    Change mine e { e with
      nextActivation := e.nextActivation + 1
      activations := e.activations.insert ⟨e.nextActivation⟩ activation
      retractable := e.retractable ++ [(a, ⟨e.nextActivation⟩)] }

/-- A chain of changes. -/
abbrev Changes (mine : ActivationId → Bool) : Engine → Engine → Prop :=
  Relation.ReflTransGen (Change mine)

/-- What leaves more activations alone leaves fewer alone. -/
theorem Change.mono {mine mine' : ActivationId → Bool} {e e' : Engine} (h : e.Change mine e')
    (hmine : ∀ y, mine y → mine' y) : e.Change mine' e' := by
  have hnot : ∀ y, mine' y = false → mine y = false := by
    intro y hy
    cases hm : mine y with
    | false => rfl
    | true => rw [hmine y hm] at hy; exact hy
  cases h with
  | board b => exact .board b
  | push h => exact .push ⟨fun t ht => hmine _ (h.part t ht), h.apt⟩
  | pushNext h => exact .pushNext ⟨fun t ht => hmine _ (h.part t ht), h.apt⟩
  | withdraw h =>
    refine .withdraw fun s hs hsi => ?_
    obtain ⟨x, hpart, hx⟩ := h s hs hsi
    exact ⟨x, hpart, hmine x hx⟩
  | file h => exact .file fun y hy => h y (hnot y hy)
  | forget h hsub => exact .forget h hsub
  | enrol history h hsub => exact .enrol history h hsub
  | attach ability => exact .attach ability
  | number => exact .number
  | enter a activation hx => exact .enter a activation (hmine _ hx)

theorem Changes.mono {mine mine' : ActivationId → Bool} {e e' : Engine} (h : e.Changes mine e')
    (hmine : ∀ y, mine y → mine' y) : e.Changes mine' e' :=
  Relation.ReflTransGen.mono (fun _ _ hchange => hchange.mono hmine) _ _ h

section Plays

variable {mine : ActivationId → Bool}

/-! ## Elementary plays -/

theorem changes_post {kind : StepKind} (h : kind.OnlyFor mine) :
    (post kind).Chains (Change mine) :=
  .bind (.view _) fun _ => .bind (.change fun _ => .push h) fun _ => .answer _

theorem changes_postNext {kind : StepKind} (h : kind.OnlyFor mine) :
    (postNext kind).Chains (Change mine) :=
  .bind (.view _) fun _ => .bind (.change fun _ => .pushNext h) fun _ => .answer _

theorem changes_modifyActivation {x : ActivationId} (hx : mine x) (f : Activation → Activation) :
    (modifyActivation x f).Chains (Change mine) :=
  .change fun e => .file fun y hy => by
    have hne : x ≠ y := by
      rintro rfl
      simp [hx] at hy
    exact IdMap.get?_modify_of_ne _ hne f

theorem changes_dropActivation {x : ActivationId} (hx : mine x) :
    (dropActivation x).Chains (Change mine) :=
  .change fun e => .file fun y hy => by
    have hne : x ≠ y := by
      rintro rfl
      simp [hx] at hy
    rw [IdMap.get?_erase, if_neg hne]

theorem changes_putActivation {x : ActivationId} (hx : mine x) (activation : Activation) :
    (putActivation x activation).Chains (Change mine) :=
  .change fun e => .file fun y hy => by
    have hne : x ≠ y := by
      rintro rfl
      simp [hx] at hy
    rw [IdMap.get?_insert, if_neg hne]

theorem changes_onBoard {α : Type} (p : Play Board α) : (onBoard p).Chains (Change mine) :=
  .within fun _ _ => .board _

theorem changes_message (template : String) (args : List MessageArg)
    (named : List (String × MessageArg)) :
    (message template args named).Chains (Change mine) :=
  .bind .look fun _ => .log _

/-! ## Registration -/

theorem changes_register (a : AbilityId) : (register a).Chains (Change mine) := by
  refine .bind_look fun e => ?_
  by_cases hregistered : e.registrar.isRegistered a
  · simp only [hregistered, if_true]
    exact .refl
  · simp only [hregistered, Bool.false_eq_true, if_false]
    cases hability : e.ability? a with
    | none => rw [ends_bind_error (getAbility_missing hability)]
    | some ability =>
      rw [ends_bind_ok (getAbility_ends hability), ends_bind_ok (ends_change _ _), ends_trace,
        Registrar.registerAll_eq]
      refine .single (.enrol _ (fun a' u' hu' => ?_) (.refl _))
      cases hlimit : ability.limit with
      | none =>
        rw [hlimit] at hu'
        exact .inr ⟨u', hu', rfl, Nat.le_refl _⟩
      | some limit =>
        rw [hlimit] at hu'
        -- A counter that is there already is not replaced.
        simp only [UsageTracker.track] at hu'
        split at hu'
        · exact .inr ⟨u', hu', rfl, Nat.le_refl _⟩
        · rw [IdMap.get?_insert] at hu'
          split at hu'
          · rename_i heq
            obtain rfl := Option.some.inj hu'
            exact .inl ⟨rfl, ability, heq ▸ hability, hlimit⟩
          · exact .inr ⟨u', hu', rfl, Nat.le_refl _⟩

theorem changes_unregister (a : AbilityId) : (unregister a).Chains (Change mine) := by
  refine .bind .look fun _ => .bind (.change fun e => ?_) fun _ => .ite (.trace _) (.answer _)
  refine .enrol [.unregisterAll a] (fun a' u' hu' => .inr ⟨u', ?_, rfl, Nat.le_refl _⟩)
    List.filter_sublist
  simp only [UsageTracker.untrack, IdMap.get?_erase] at hu'
  split at hu'
  · simp at hu'
  · exact hu'

theorem changes_refreshEach (location : Location) :
    ∀ l : List AbilityId, (refreshEach location l).Chains (Change mine)
  | [] => .answer _
  | a :: rest => by
    refine .bind (chains_getAbility a) fun ability => ?_
    split
    · exact .bind (changes_register a) fun _ => changes_refreshEach location rest
    · exact .bind (changes_unregister a) fun _ => changes_refreshEach location rest

theorem changes_refresh (c : CardId) : (refresh c).Chains (Change mine) :=
  .bind (changes_onBoard _) fun card => .bind .look fun _ => changes_refreshEach card.location _

theorem changes_addAbility (c : CardId) (d : Design) : (addAbility c d).Chains (Change mine) := by
  refine .bind (changes_onBoard _) fun card => .bind (.ofExcept _) fun ability =>
    .bind .look fun e => .bind (.trace _) fun _ => .bind (.change fun e => .attach ability)
      fun _ => ?_
  split
  · exact .bind (changes_register _) fun _ => .answer _
  · exact .answer _

/-! ## Events and moves -/

theorem changes_raise (data : EventData) {change : EventChange}
    (h : ∀ x, change = .emitted x → mine x) : (raise data change).Chains (Change mine) := by
  refine .bind (changes_onBoard _) fun timestamp => .discard (changes_post ?_)
  cases change with
  | script body => exact StepKind.onlyFor_of_none rfl
  | emitted x => exact StepKind.onlyFor_of_some rfl (h x rfl) (by simp)

theorem changes_announce (data : EventData) : (announce data).Chains (Change mine) :=
  changes_raise data fun x hx => by simp at hx

theorem changes_afterMove (c : CardId) (origin destination : Location) :
    (afterMove c origin destination).Chains (Change mine) := by
  refine .bind (changes_refresh c) fun _ => ?_
  cases moveEvent? c origin destination with
  | some data => exact .bind (changes_announce data) fun _ => .answer _
  | none => exact .answer _

theorem changes_moveCard (c : CardId) (destination : Location) :
    (moveCard c destination).Chains (Change mine) :=
  .bind (changes_onBoard _) fun origin => changes_afterMove c origin destination

theorem changes_afterMoves :
    ∀ l : List (CardId × Location × Location), (afterMoves l).Chains (Change mine)
  | [] => .answer _
  | (c, origin, destination) :: rest =>
    .bind (.discard (changes_afterMove c origin destination)) fun _ => changes_afterMoves rest

theorem changes_beginRound : beginRound.Chains (Change mine) :=
  .bind (.change fun _ => .board _) fun _ => .bind .look fun _ =>
    .bind (.log _) fun _ => changes_announce _

theorem changes_noteHeadline (c : CardId) : (noteHeadline c).Chains (Change mine) :=
  .bind .look fun _ => .ite (changes_onBoard _) (.pure _)

theorem changes_discardPlayed (c : CardId) : (discardPlayed c).Chains (Change mine) :=
  .bind .look fun _ => .ite (.discard (changes_moveCard c _)) (.pure _)

/-! ## Listeners -/

/-- When activations of a list that have ended are forgotten, each stays filed as it was, or it had
ended and is of the list. -/
theorem get?_forgotten (y : ActivationId) :
    ∀ (l : List ActivationId) (activations : IdMap .activation Activation),
      let forgotten := l.foldl (fun activations x =>
        if (activations.get? x).any (·.stage.isTerminal) then activations.erase x
        else activations) activations
      forgotten.get? y = activations.get? y ∨
        ∃ activation, activations.get? y = some activation ∧ activation.stage.isTerminal ∧
          forgotten.get? y = none ∧ y ∈ l
  | [], _ => .inl rfl
  | x :: rest, activations => by
    rw [List.foldl_cons]
    by_cases hended : (activations.get? x).any (·.stage.isTerminal)
    · rw [if_pos hended]
      by_cases hxy : x = y
      · subst hxy
        obtain ⟨activation, hsome, hterminal⟩ := (Option.any_eq_true _ _).mp hended
        have hgone : (activations.erase x).get? x = none := by rw [IdMap.get?_erase, if_pos rfl]
        refine .inr ⟨activation, hsome, hterminal, ?_, List.mem_cons_self⟩
        -- It may be listed again, but it is gone already.
        rcases get?_forgotten x rest (activations.erase x) with heq | ⟨_, hsome', -, -⟩
        · exact heq.trans hgone
        · rw [hgone] at hsome'
          simp at hsome'
      · have hother : (activations.erase x).get? y = activations.get? y := by
          rw [IdMap.get?_erase, if_neg hxy]
        rw [← hother]
        refine (get?_forgotten y rest (activations.erase x)).imp_right ?_
        rintro ⟨activation, hsome, hterminal, hnone, hmem⟩
        exact ⟨activation, hsome, hterminal, hnone, List.mem_cons_of_mem _ hmem⟩
    · rw [if_neg hended]
      refine (get?_forgotten y rest activations).imp_right ?_
      rintro ⟨activation, hsome, hterminal, hnone, hmem⟩
      exact ⟨activation, hsome, hterminal, hnone, List.mem_cons_of_mem _ hmem⟩

theorem changes_clearRetractable (a : AbilityId) : (clearRetractable a).Chains (Change mine) :=
  .change fun e => .forget (fun y => (get?_forgotten y _ e.activations).imp_right fun
    ⟨activation, hsome, hterminal, hnone, hmem⟩ => by
      obtain ⟨t, ht, hty⟩ := List.mem_map.mp hmem
      exact ⟨activation, hsome, hterminal, hnone, t, (List.mem_filter.mp ht).1, hty⟩)
    List.filter_sublist

theorem changes_notify (s : Subscription) : (notify s).Chains (Change mine) := by
  unfold notify
  cases s.listener with
  | resetUsage =>
    refine .change fun e => .enrol [] (fun a u' hu' => .inr ?_) (.refl _)
    simp only [UsageTracker.reset, IdMap.get?_modify] at hu'
    split at hu'
    · rename_i heq
      obtain ⟨u, hu, rfl⟩ := Option.map_eq_some_iff.mp hu'
      exact ⟨u, heq ▸ hu, rfl, Nat.zero_le _⟩
    · exact ⟨u', hu', rfl, Nat.le_refl _⟩
  | clearActivations => exact changes_clearRetractable s.ability
  | trigger => exact .answer _

theorem changes_notifyEach : ∀ l : List Subscription, (notifyEach l).Chains (Change mine)
  | [] => .answer _
  | s :: rest => .bind (changes_notify s) fun _ => changes_notifyEach rest

theorem changes_openWindow (event : GameEvent) : (openWindow event).Chains (Change mine) := by
  refine .bind .look fun e => .bind (changes_notifyEach _) fun _ => .bind .look fun e' => ?_
  dsimp only
  split
  · exact .answer _
  · exact .bind (.trace _) fun _ => .discard (changes_post (StepKind.onlyFor_of_none rfl))

/-! ## Orders -/

/-- All orders but those that start an activation, retract one or withdraw a step. -/
theorem changes_order (o : Order) (hactivate : ∀ a p, o ≠ .activate a p)
    (hretract : ∀ a p, o ≠ .retract a p) (hwithdraw : ∀ i, o ≠ .withdraw i) :
    o.carryOut.Chains (Change mine) := by
  cases o with
  | activate a p => exact absurd rfl (hactivate a p)
  | retract a p => exact absurd rfl (hretract a p)
  | withdraw i => exact absurd rfl (hwithdraw i)
  | shift c l => exact .discard (changes_onBoard _)
  | move c l => exact .discard (changes_moveCard c l)
  | message template args => exact changes_message template args []
  | note line => exact .log _
  | register a => exact changes_register a
  | unregister a => exact changes_unregister a
  | respond p n => exact .answer _
  | resume => exact chains_resume
  | beginRound => exact changes_beginRound
  | _ => exact changes_onBoard _

/-! ## Plays that take an activation on -/

theorem changes_payCosts (a : Ability) {x : ActivationId} (hx : mine x) (activation : Activation) :
    (payCosts a x activation).Chains (Change mine) := by
  refine .bind (.attempt (changes_onBoard _)) fun r => ?_
  rcases r with err | receipts
  · cases err with
    | paymentFailed => exact .bind (changes_modifyActivation hx _) fun _ => .fail _
    | _ => exact .bind (.trace _) fun _ => changes_modifyActivation hx _
  · exact .bind (changes_modifyActivation hx _) fun _ => .bind (changes_afterMoves _) fun _ =>
      .discard (changes_post (StepKind.onlyFor_of_some rfl hx (by simp)))

theorem changes_promptTarget (a : Ability) {x : ActivationId} (hx : mine x)
    (activation : Activation) (slot : String) (choices : List ChosenTarget) :
    (promptTarget a x activation slot choices).Chains (Change mine) := by
  refine .bind .look fun _ => .bind (changes_post ⟨?_, ?_⟩) fun _ => changes_modifyActivation hx _
  · simp [StepKind.part?, hx]
  · exact List.length_map _

theorem changes_fillSlots (a : Ability) {x : ActivationId} (hx : mine x) (activation : Activation) :
    ∀ slots : List TargetSlot, (fillSlots a x activation slots).Chains (Change mine)
  | [] => .bind (changes_modifyActivation hx _) fun _ =>
      .discard (changes_post (StepKind.onlyFor_of_some rfl hx (by simp)))
  | slot :: rest => by
    unfold fillSlots
    refine .ite (changes_fillSlots a hx activation rest) (.bind .look fun e => ?_)
    rcases slot.choices e.board activation with _ | ⟨target, _ | ⟨other, more⟩⟩
    · exact .bind (changes_message _ _ _) fun _ => changes_modifyActivation hx _
    · exact .bind (changes_modifyActivation hx _) fun _ => changes_fillSlots a hx activation rest
    · exact changes_promptTarget a hx activation slot.name _

theorem changes_chooseTarget {x : ActivationId} (hx : mine x) (slot : String)
    (choices : List ChosenTarget) (n : Nat) :
    (chooseTarget x slot choices n).Chains (Change mine) := by
  unfold chooseTarget
  cases choices[n]? with
  | none => exact .answer _
  | some target =>
    exact .bind (changes_modifyActivation hx _) fun _ =>
      .discard (changes_post (StepKind.onlyFor_of_some rfl hx (by simp)))

theorem changes_accept {x : ActivationId} (hx : mine x) (choice : Option Nat) :
    (accept x choice).Chains (Change mine) := by
  refine .bind .look fun e => ?_
  cases e.activations.get? x with
  | none => exact .answer _
  | some activation =>
    refine .bind (chains_getAbility _) fun a => .ite ?_ (changes_dropActivation hx)
    exact .bind (changes_modifyActivation hx _) fun _ =>
      .discard (changes_post (StepKind.onlyFor_of_some rfl hx (by simp)))

/-- Whoever starts an action enters an activation under the next number. -/
theorem changes_activate {e : Engine} (hx : mine ⟨e.nextActivation⟩) (a : AbilityId)
    (p : PlayerId) : e.Changes mine ((activate a p).ends e).2 := by
  unfold activate
  cases hability : e.ability? a with
  | none => rw [ends_bind_error (getAbility_missing hability)]
  | some ability =>
    rw [ends_bind_ok (getAbility_ends hability)]
    by_cases haction : ability.isAction
    · simp only [haction, Bool.not_true, Bool.false_eq_true, if_false]
      have htake : (takeActivationId).ends e =
          (.ok ⟨e.nextActivation⟩, { e with nextActivation := e.nextActivation + 1 }) := rfl
      rw [ends_bind_ok htake, ends_bind_ok (ends_look _)]
      dsimp only
      split
      · exact .single .number
      · refine .head (.enter a _ hx) (Play.Chains.bind (.discard ?_) (fun _ => .answer _) _)
        exact changes_postNext (StepKind.onlyFor_of_some rfl hx (by simp))
    · simp only [haction, Bool.not_false, if_true]
      exact .refl

/-- What is offered is entered under the next number. -/
theorem changes_offer {e : Engine} (hx : mine ⟨e.nextActivation⟩) (event : GameEvent)
    (c : TriggerCandidate) : e.Changes mine ((offer event c).ends e).2 := by
  unfold offer
  rw [ends_bind_ok (ends_look e)]
  cases e.ability? c.ability with
  | none => exact .refl
  | some a =>
    dsimp only
    have htake : (takeActivationId).ends e =
        (.ok ⟨e.nextActivation⟩, { e with nextActivation := e.nextActivation + 1 }) := rfl
    rw [ends_bind_ok htake, ends_bind_ok (ends_look _)]
    dsimp only
    refine .head .number ?_
    split
    · exact .refl
    · refine Play.Chains.ite ?_ ?_ _
      · exact .bind (changes_putActivation hx _) fun _ =>
          .discard (changes_post (StepKind.onlyFor_of_some rfl hx (by simp)))
      · refine .bind .look fun _ => .bind (changes_putActivation hx _) fun _ =>
          .discard (changes_post ⟨?_, trivial⟩)
        simp [StepKind.part?, hx]

theorem changes_advance {e : Engine} (hx : mine ⟨e.nextActivation⟩) (w : TriggerWindow) :
    e.Changes mine ((advance w).ends e).2 := by
  unfold advance
  dsimp only
  split
  · exact .refl
  · rename_i c rest _
    have hoffer := changes_offer hx w.event c
    rw [ends_bind]
    rcases hend : (offer w.event c).ends e with ⟨err | _, e'⟩
    · rw [hend] at hoffer
      exact hoffer
    · rw [hend] at hoffer
      refine hoffer.trans (Play.Chains.ite (.trace _) (.discard ?_) e')
      exact changes_post (StepKind.onlyFor_of_none rfl)

/-- What concludes a resolution once the use is counted and a headline noted. -/
theorem changes_concluded {x : ActivationId} (hx : mine x) (c : CardId) (activation : Activation) :
    (do
      discardPlayed c
      raise (.abilityResolved activation.ability c activation.player) (.emitted x)
      discard (post (.complete x)) : Play Engine Unit).Chains (Change mine) := by
  refine .bind (changes_discardPlayed c) fun _ => .bind (changes_raise _ fun y hy => ?_) fun _ =>
    .discard (changes_post (StepKind.onlyFor_of_some rfl hx (by simp)))
  obtain rfl : x = y := EventChange.emitted.inj hy
  exact hx

end Plays

end Engine

end Doomtown
