import Doomtown.Proofs.Agreement
import Doomtown.Proofs.Moment
import Doomtown.Proofs.StepQueue
import Mathlib.Logic.Embedding.Basic

/-!
# Step numbers

The numbers of steps tell steps apart and say nothing else. `Engine.Alike` relates two engines that
are the same but for the numbers of their steps and for one ability, which the first engine has as a
forced trigger. As long as no script refers to step numbers and the ability is not offered, whatever
is done on two such engines ends alike: each play of the engine agrees with itself on
`Engine.Mirrors`, up to the plays of whole scripts (`Engine.uniform_run`).
-/

namespace Doomtown

open Play

/-! ## The same but for numbers -/

/-- The step with its number changed. -/
def Step.renumbered (ρ : StepId ↪ StepId) (s : Step) : Step := ⟨ρ s.id, s.kind⟩

/-- The record with the number of its prompt changed. -/
def Activation.renumbered (ρ : StepId ↪ StepId) (x : Activation) : Activation :=
  { x with prompt := x.prompt.map ρ }

/-- A record stays as it is if the number of its prompt does. -/
theorem Activation.renumbered_same {ρ : StepId ↪ StepId} {x : Activation}
    (h : ∀ i, x.prompt = some i → ρ i = i) : x.renumbered ρ = x := by
  have hprompt : x.prompt.map ρ = x.prompt := by
    cases hi : x.prompt with
    | none => rfl
    | some i => exact congrArg some (h i hi)
  unfold Activation.renumbered
  rw [hprompt]

/-- A record that notes no prompt has no number to be changed. -/
theorem Activation.renumbered_eq {ρ : StepId ↪ StepId} {x : Activation} (h : x.prompt = none) :
    x.renumbered ρ = x := renumbered_same (by simp [h])

/-- Two views are the same but for the numbers of prompts. -/
structure View.Renumbers (ρ : StepId ↪ StepId) (v v' : View) : Prop where
  board : v'.board = v.board
  activations : ∀ x, v'.activations.get? x = (v.activations.get? x).map (·.renumbered ρ)
  registrar : v'.registrar = v.registrar
  usage : v'.usage = v.usage

/-- Two queues are the same but for the numbers of steps, also of those to come. -/
structure StepQueue.Renumbers (ρ : StepId ↪ StepId) (q q' : StepQueue) : Prop where
  steps : q'.steps = q.steps.map (·.renumbered ρ)
  running : q'.running = q.running.map (·.map (·.renumbered ρ))
  next : ∀ k, ρ ⟨q.nextId + k⟩ = ⟨q'.nextId + k⟩

/-- A script does not refer to step numbers: it withdraws no step, what it queues next does not
depend on the number of what it has queued, and what it does next does not depend on the numbers
that it sees. What it leaves to be done for an answer is not asked for here. -/
def Script.Numberless : Script → Prop
  | .done | .fail _ => True
  | .look next =>
    (∀ (ρ : StepId ↪ StepId) (v v' : View), v.Renumbers ρ v' → next v' = next v) ∧
      ∀ v, (next v).Numberless
  | .order o next => (∀ i, o ≠ .withdraw i) ∧ ∀ r, (next r).Numberless
  | .raise _ change next => change.Numberless ∧ next.Numberless
  | .queue _ body next =>
    body.Numberless ∧ (∀ i j, next i = next j) ∧ ∀ i, (next i).Numberless
  | .prompt _ _ _ _ _ next => (∀ i j, next i = next j) ∧ ∀ i, (next i).Numberless

/-- What a step does by itself refers to no step numbers. -/
def StepKind.Numberless : StepKind → Prop
  | .task _ body | .event _ (.script body) => body.Numberless
  | .resolve .. | .complete _ | .event _ (.emitted _) | .window _ | .prompt _ => True

/-- The handlers of an ability refer to no step numbers. -/
def Ability.Numberless (a : Ability) : Prop :=
  ∀ effect : Effect, a.handler = some effect ∨ effect ∈ a.alternatives.map (·.2) →
    ∀ x, (effect x).Numberless

/-- No handler, and no step that waits, refers to step numbers. -/
structure Engine.Numberless (e : Engine) : Prop where
  abilities : ∀ a ability, e.ability? a = some ability → ability.Numberless
  steps : ∀ s ∈ e.queue.order, s.kind.Numberless

/-! ## The same but for a kind -/

/-- The ability declared as a forced trigger. -/
def Ability.forced (a : Ability) : Ability := { a with kind := .forced }

/-- The engine with an ability declared as a forced trigger. -/
def Engine.forcing (e : Engine) (t : AbilityId) : Engine :=
  { e with abilities := e.abilities.modify t.number Ability.forced }

/-- Two engines are the same but for the numbers of steps and the declared kind of an ability, which
is a forced trigger in the first. -/
structure Engine.Alike (ρ : StepId ↪ StepId) (t : AbilityId) (e e' : Engine) : Prop where
  board : e'.board = e.board
  abilities : e.abilities = (e'.forcing t).abilities
  registrar : e'.registrar = e.registrar
  usage : e'.usage = e.usage
  activations : ∀ x, e'.activations.get? x = (e.activations.get? x).map (·.renumbered ρ)
  retractable : e'.retractable = e.retractable
  queue : e.queue.Renumbers ρ e'.queue
  nextActivation : e'.nextActivation = e.nextActivation

/-- Two engines are alike, the ability is a prompted trigger in the second, and no script refers to
step numbers. -/
structure Engine.Mirrors (ρ : StepId ↪ StepId) (t : AbilityId) (e e' : Engine) : Prop
    extends e.Alike ρ t e' where
  prompted : ∀ a, e'.ability? t = some a → a.kind = .prompted
  handlers : ∀ a ability, e'.ability? a = some ability → ability.Numberless
  scripts : ∀ s ∈ e'.queue.order, s.kind.Numberless

/-! ## Queues -/

namespace StepQueue.Renumbers

variable {ρ : StepId ↪ StepId} {q q' : StepQueue}

theorem nextStep (h : q.Renumbers ρ q') : ρ q.nextStep = q'.nextStep := h.next 0

theorem next_succ (h : q.Renumbers ρ q') (k : Nat) :
    ρ ⟨q.nextId + 1 + k⟩ = ⟨q'.nextId + 1 + k⟩ := by
  rw [Nat.add_assoc, Nat.add_assoc]
  exact h.next (1 + k)

theorem push (h : q.Renumbers ρ q') (kind : StepKind) :
    (q.push kind).Renumbers ρ (q'.push kind) := by
  have hstep : Step.renumbered ρ ⟨q.nextStep, kind⟩ = ⟨q'.nextStep, kind⟩ := by
    rw [← h.nextStep]
    rfl
  unfold StepQueue.push
  cases hr : q.running with
  | none =>
    rw [h.running, hr]
    exact ⟨by simp [h.steps, hstep], by rfl, h.next_succ⟩
  | some own =>
    rw [h.running, hr]
    exact ⟨h.steps, by simp [hstep], h.next_succ⟩

theorem pushNext (h : q.Renumbers ρ q') (kind : StepKind) :
    (q.pushNext kind).Renumbers ρ (q'.pushNext kind) := by
  have hstep : Step.renumbered ρ ⟨q.nextStep, kind⟩ = ⟨q'.nextStep, kind⟩ := by
    rw [← h.nextStep]
    rfl
  unfold StepQueue.pushNext
  cases hr : q.running with
  | none =>
    rw [h.running, hr]
    exact ⟨by simp [h.steps, hstep], by rfl, h.next_succ⟩
  | some own =>
    rw [h.running, hr]
    exact ⟨h.steps, by simp [hstep], h.next_succ⟩

/-- A step is found by its number, whichever it is. -/
theorem eraseP_map (ρ : StepId ↪ StepId) (i : StepId) (l : List Step) :
    (l.map (·.renumbered ρ)).eraseP (·.id = ρ i) =
      (l.eraseP (·.id = i)).map (·.renumbered ρ) := by
  rw [List.eraseP_map]
  congr 2
  funext s
  simp [Step.renumbered, ρ.injective.eq_iff]

theorem withdraw (h : q.Renumbers ρ q') (i : StepId) :
    (q.withdraw i).Renumbers ρ (q'.withdraw (ρ i)) := by
  have hany : (q'.steps.any fun s => s.id = ρ i) = q.steps.any fun s => s.id = i := by
    rw [h.steps, List.any_map]
    congr 1
    funext s
    simp [Step.renumbered, ρ.injective.eq_iff]
  unfold StepQueue.withdraw
  rw [hany]
  split
  · exact ⟨by rw [h.steps, eraseP_map], h.running, h.next⟩
  · refine ⟨h.steps, ?_, h.next⟩
    rw [h.running]
    cases q.running with
    | none => rfl
    | some own => exact congrArg some (eraseP_map ρ i own)

theorem children (h : q.Renumbers ρ q') :
    q'.children = q.children.map (·.renumbered ρ) := by
  unfold StepQueue.children
  rw [h.running]
  cases q.running <;> rfl

theorem finish (h : q.Renumbers ρ q') : q.finish.Renumbers ρ q'.finish :=
  ⟨by simp [StepQueue.finish, h.children, h.steps], rfl, h.next⟩

theorem frontPrompt? (h : q.Renumbers ρ q') : q'.frontPrompt? = q.frontPrompt? := by
  unfold StepQueue.frontPrompt?
  rw [h.steps]
  rcases q.steps with _ | ⟨⟨i, kind⟩, rest⟩
  · rfl
  · cases kind <;> rfl

/-- Where a step starts, the step of the number that corresponds does. -/
theorem begin? (h : q.Renumbers ρ q') : q.begin? = none ∧ q'.begin? = none ∨
    ∃ s q₁ q₁', q.begin? = some (s, q₁) ∧ q'.begin? = some (s.renumbered ρ, q₁') ∧
      q₁.Renumbers ρ q₁' := by
  unfold StepQueue.begin?
  rw [h.running, h.steps]
  cases q.running with
  | some own => exact .inl ⟨rfl, rfl⟩
  | none =>
    rcases q.steps with _ | ⟨⟨i, kind⟩, rest⟩
    · exact .inl ⟨rfl, rfl⟩
    · cases kind with
      | prompt p => exact .inl ⟨rfl, rfl⟩
      | _ => exact .inr ⟨_, _, _, rfl, rfl, rfl, rfl, h.next⟩

end StepQueue.Renumbers

/-! ## Abilities -/

/-- An ability and itself, or an ability declared as a forced trigger and itself declared as a
prompted one. -/
inductive Ability.Twin : Ability → Ability → Prop where
  | same (a : Ability) : Twin a a
  | forced (a : Ability) (hkind : a.kind = .prompted) : Twin a.forced a

namespace Ability.Twin

variable {a a' : Ability}

theorem isAction (h : a.Twin a') : a.isAction = a'.isAction := by
  cases h with
  | same => rfl
  | forced _ hkind => simp [Ability.isAction, Ability.forced, hkind]

theorem isTriggered (h : a.Twin a') : a.kind.isTriggered = a'.kind.isTriggered := by
  cases h with
  | same => rfl
  | forced _ hkind => simp [Ability.forced, hkind, AbilityKind.isTriggered]

theorem subscriptions (h : a.Twin a') : a.subscriptions = a'.subscriptions := by
  have haction := h.isAction
  cases h with
  | same => rfl
  | forced _ hkind =>
    unfold Ability.subscriptions
    rw [haction]
    rfl

/-- No restriction tells the kinds apart, so the same is legal. -/
theorem check (h : a.Twin a') (b : Board) (usage : UsageTracker) (x : Activation) :
    Legality.check b usage a x = Legality.check b usage a' x := by
  have haction := h.isAction
  cases h with
  | same => rfl
  | forced _ hkind =>
    have hrestricted : ∀ player : Player, player.canTrigger .forced a'.source =
        player.canTrigger a'.kind a'.source := fun player => by
      unfold Player.canTrigger
      congr 2
      funext r
      cases r <;> simp [Restriction.forbids, hkind]
    unfold Legality.check Legality.fitsWindow Legality.isAllowed Legality.meetsDefault
    rw [haction]
    simp only [Ability.forced, hrestricted]
    rfl

theorem isLegal (h : a.Twin a') (b : Board) (usage : UsageTracker) (x : Activation) :
    Legality.isLegal b usage a x = Legality.isLegal b usage a' x := by
  unfold Legality.isLegal
  rw [h.check]

end Ability.Twin

namespace Engine

variable {ρ : StepId ↪ StepId} {t : AbilityId} {e e' : Engine}

theorem ability?_forcing (e : Engine) (t a : AbilityId) :
    (e.forcing t).ability? a = (e.ability? a).map fun b => if a = t then b.forced else b := by
  show (e.abilities.modify t.number Ability.forced)[a.number]? = e.abilities[a.number]?.map _
  rw [List.getElem?_modify]
  by_cases ha : a = t
  · subst ha
    simp
  · have hne : t.number ≠ a.number := fun heq => ha (Id.number_injective heq).symm
    simp [ha, hne]

theorem Alike.ability? (h : e.Alike ρ t e') (a : AbilityId) :
    e.ability? a = (e'.ability? a).map fun b => if a = t then b.forced else b := by
  rw [← ability?_forcing]
  unfold Engine.ability?
  rw [h.abilities]

/-- An ability is unknown to both, or known to both as twins. -/
theorem Mirrors.lookup (h : e.Mirrors ρ t e') (a : AbilityId) :
    e.ability? a = none ∧ e'.ability? a = none ∨
      ∃ b b', e.ability? a = some b ∧ e'.ability? a = some b' ∧ b.Twin b' ∧ b'.Numberless := by
  rw [h.ability? a]
  cases hability : e'.ability? a with
  | none => exact .inl ⟨rfl, rfl⟩
  | some b' =>
    refine .inr ⟨_, b', rfl, rfl, ?_, h.handlers a b' hability⟩
    dsimp only
    by_cases ha : a = t
    · subst ha
      rw [if_pos rfl]
      exact .forced b' (h.prompted b' hability)
    · rw [if_neg ha]
      exact .same b'

theorem Mirrors.abilitiesOf (h : e.Mirrors ρ t e') (c : CardId) :
    e'.abilitiesOf c = e.abilitiesOf c := by
  unfold Engine.abilitiesOf
  have hlength : e'.abilities.length = e.abilities.length := by
    rw [h.abilities, forcing, List.length_modify]
  rw [hlength]
  congr 1
  funext a
  rcases h.lookup a with ⟨hnone, hnone'⟩ | ⟨b, b', hability, hability', htwin, -⟩
  · rw [hnone, hnone']
  · rw [hability, hability']
    cases htwin <;> rfl

/-! ## Elementary plays -/

/-- A play ends alike on engines that mirror each other. -/
abbrev Uniform {β : Type} (ρ : StepId ↪ StepId) (t : AbilityId) (p : Play Engine β) : Prop :=
  Agree (Mirrors ρ t) Eq p p

theorem uniform_onBoard {β : Type} (p : Play Board β) : Uniform ρ t (onBoard p) := fun _ _ h => by
  rw [onBoard, ends_within, ends_within, h.board]
  exact .of_eq rfl { h with board := rfl }

/-- An ability that is looked up is a twin, and refers to no step numbers. -/
theorem agree_getAbility (a : AbilityId) :
    Agree (Mirrors ρ t) (fun b b' => b.Twin b' ∧ b'.Numberless) (getAbility a) (getAbility a) :=
  .bind_look fun {s s'} h => by
    rcases h.lookup a with ⟨hnone, hnone'⟩ | ⟨b, b', hability, hability', htwin, hplain⟩
    · rw [hnone, hnone']
      exact .error _ h
    · rw [hability, hability']
      exact .ok ⟨htwin, hplain⟩ h

/-- Changes of a record that go together but for the number of its prompt. -/
theorem agree_modifyActivation (x : ActivationId) {f f' : Activation → Activation}
    (hf : ∀ activation, f' (activation.renumbered ρ) = (f activation).renumbered ρ) :
    Agree (Mirrors ρ t) Eq (modifyActivation x f) (modifyActivation x f') :=
  .change fun {s s'} h => { h with
    activations := fun y => by
      show (s'.activations.modify x f').get? y = ((s.activations.modify x f).get? y).map _
      rw [IdMap.get?_modify, IdMap.get?_modify, h.activations]
      split
      · rw [Option.map_map, Option.map_map]
        exact congrArg (fun g => (s.activations.get? y).map g) (funext hf)
      · rfl }

/-- A change of a record that has nothing to do with the number of its prompt. -/
theorem uniform_modifyActivation (x : ActivationId) {f : Activation → Activation}
    (hf : ∀ activation, f (activation.renumbered ρ) = (f activation).renumbered ρ) :
    Uniform ρ t (modifyActivation x f) := agree_modifyActivation x hf

/-- A record that is entered notes no prompt. -/
theorem uniform_putActivation (x : ActivationId) {activation : Activation}
    (h : activation.prompt = none) : Uniform ρ t (putActivation x activation) :=
  .change fun {s s'} hs => { hs with
    activations := fun y => by
      show (s'.activations.insert x activation).get? y =
        ((s.activations.insert x activation).get? y).map _
      rw [IdMap.get?_insert, IdMap.get?_insert, hs.activations]
      split
      · exact congrArg some (Activation.renumbered_eq h).symm
      · rfl }

theorem uniform_takeActivationId : Uniform ρ t takeActivationId :=
  .bind_eq (.view fun h => h.nextActivation.symm) fun _ =>
    .bind_eq (.change fun h => { h with nextActivation := rfl }) fun _ => .answer rfl

/-- A queue in place of the other, with steps that refer to no step numbers. -/
theorem Mirrors.withQueue (h : e.Mirrors ρ t e') {q q' : StepQueue} (hq : q.Renumbers ρ q')
    (hsteps : ∀ s ∈ q'.order, s.kind.Numberless) :
    Mirrors ρ t { e with queue := q } { e' with queue := q' } :=
  { h with queue := hq, scripts := hsteps }

theorem Mirrors.finished (h : e.Mirrors ρ t e') : Mirrors ρ t e.finished e'.finished :=
  h.withQueue h.queue.finish h.scripts

/-- The numbers of what is queued correspond. -/
theorem agree_post {kind : StepKind} (hkind : kind.Numberless) :
    Agree (Mirrors ρ t) (fun i j => ρ i = j) (post kind) (post kind) :=
  .bind (.view fun h => h.queue.nextStep) fun hi => .bind_eq (.change fun h =>
    h.withQueue (h.queue.push kind) fun s hs => by
      rcases StepQueue.mem_order_push.mp hs with hs | rfl
      · exact h.scripts s hs
      · exact hkind) fun _ => .answer hi

theorem agree_postNext {kind : StepKind} (hkind : kind.Numberless) :
    Agree (Mirrors ρ t) (fun i j => ρ i = j) (postNext kind) (postNext kind) :=
  .bind (.view fun h => h.queue.nextStep) fun hi => .bind_eq (.change fun h =>
    h.withQueue (h.queue.pushNext kind) fun s hs => by
      rw [StepQueue.order_pushNext] at hs
      rcases List.mem_cons.mp hs with rfl | hs
      · exact hkind
      · exact h.scripts s hs) fun _ => .answer hi

theorem uniform_message (template : String) (args : List MessageArg)
    (named : List (String × MessageArg)) : Uniform ρ t (message template args named) :=
  .bind_look fun h => .ok rfl h

/-! ## Registration -/

theorem uniform_register (a : AbilityId) : Uniform ρ t (register a) := .bind_seen fun {s s'} h => by
  rw [h.registrar]
  split
  · exact .answer rfl
  · have htwins : ∀ {b b' : Ability}, b.Twin b' ∧ b'.Numberless →
        b.limit = b'.limit ∧ b.subscriptions = b'.subscriptions := fun ⟨htwin, _⟩ =>
      ⟨by cases htwin <;> rfl, htwin.subscriptions⟩
    refine .bind (agree_getAbility a) fun hb => ?_
    obtain ⟨hlimit, hsubscriptions⟩ := htwins hb
    rw [hlimit, hsubscriptions]
    refine .bind_eq (.change fun h => ?_) fun _ => .trace _ _
    exact { h with
      usage := by rw [h.usage]
      registrar := by rw [h.registrar] }

theorem uniform_unregister (a : AbilityId) : Uniform ρ t (unregister a) := by
  refine .bind_seen fun {s s'} h => ?_
  rw [h.registrar]
  refine .bind_eq (.change fun h => ?_) fun _ => .ite (.trace _ _) (.answer rfl)
  exact { h with
    registrar := by rw [h.registrar]
    usage := by rw [h.usage]
    retractable := by rw [h.retractable] }

theorem uniform_refreshEach (location : Location) :
    ∀ l : List AbilityId, Uniform ρ t (refreshEach location l)
  | [] => .answer rfl
  | a :: rest => by
    refine (agree_getAbility a).bind fun {b b'} hb => ?_
    have hlistens : b.listensIn location = b'.listensIn location := by cases hb.1 <;> rfl
    rw [hlistens]
    split
    · exact (uniform_register a).bind_eq fun _ => uniform_refreshEach location rest
    · exact (uniform_unregister a).bind_eq fun _ => uniform_refreshEach location rest

theorem uniform_refresh (c : CardId) : Uniform ρ t (refresh c) :=
  (uniform_onBoard _).bind_eq fun card => .bind_seen fun h => by
    rw [h.abilitiesOf]
    exact uniform_refreshEach card.location _

/-- To forget what has ended forgets the same records, for their stages are the same. -/
theorem get?_forgotten_renumbered (y : ActivationId) :
    ∀ (l : List ActivationId) (records records' : IdMap .activation Activation),
      (∀ x, records'.get? x = (records.get? x).map (·.renumbered ρ)) →
      let ended := fun (records : IdMap .activation Activation) x =>
        if (records.get? x).any (·.stage.isTerminal) then records.erase x else records
      (l.foldl ended records').get? y = ((l.foldl ended records).get? y).map (·.renumbered ρ)
  | [], _, _, h => h y
  | x :: rest, records, records', h => by
    refine get?_forgotten_renumbered y rest _ _ fun z => ?_
    have hended : (records'.get? x).any (·.stage.isTerminal) =
        (records.get? x).any (·.stage.isTerminal) := by
      rw [h, Option.any_map]
      rfl
    dsimp only
    rw [hended]
    split
    · rw [IdMap.get?_erase, IdMap.get?_erase, h]
      split <;> rfl
    · exact h z

theorem uniform_clearRetractable (a : AbilityId) : Uniform ρ t (clearRetractable a) :=
  .change fun {s s'} h => { h with
    retractable := by rw [h.retractable]
    activations := fun y => by
      rw [h.retractable]
      exact get?_forgotten_renumbered y _ s.activations s'.activations h.activations }

/-! ## Events and moves -/

theorem uniform_raise (data : EventData) {change : EventChange}
    (h : ∀ event, (StepKind.event event change).Numberless) : Uniform ρ t (raise data change) :=
  (uniform_onBoard _).bind_eq fun _ => (agree_post (h _)).discard

theorem uniform_announce (data : EventData) : Uniform ρ t (announce data) :=
  uniform_raise data fun _ => trivial

theorem uniform_afterMove (c : CardId) (origin destination : Location) :
    Uniform ρ t (afterMove c origin destination) := by
  refine (uniform_refresh c).bind_eq fun _ => ?_
  cases moveEvent? c origin destination with
  | some data => exact (uniform_announce data).bind_eq fun _ => .answer rfl
  | none => exact .answer rfl

theorem uniform_moveCard (c : CardId) (destination : Location) :
    Uniform ρ t (moveCard c destination) :=
  (uniform_onBoard _).bind_eq fun origin => uniform_afterMove c origin destination

theorem uniform_beginRound : Uniform ρ t beginRound :=
  .bind_eq (.change fun h => { h with board := by rw [h.board] }) fun _ =>
    .bind_seen fun {s s'} h => by
      rw [h.board]
      exact .bind_eq (.log _ _) fun _ => uniform_announce _

/-! ## Activating and retracting -/

theorem uniform_activate (a : AbilityId) (p : PlayerId) : Uniform ρ t (activate a p) := by
  refine (agree_getAbility a).bind fun {b b'} hb => ?_
  obtain ⟨htwin, -⟩ := hb
  have hrefused : ∀ line line' : String, Agree (Mirrors ρ t) Eq
      (do trace line; answer false : Play Engine Bool) (do trace line'; answer false) :=
    fun _ _ => .bind_eq (.trace _ _) fun _ => .answer rfl
  have haction := htwin.isAction
  cases htwin with
  | forced _ hkind =>
    -- A trigger is no action, whichever it is declared as.
    have hnot : (!b'.isAction) = true := by simp [Ability.isAction, hkind]
    rw [haction, if_pos hnot, if_pos hnot]
    exact hrefused _ _
  | same =>
    refine .ite (hrefused _ _) (uniform_takeActivationId.bind_eq fun x => .bind_seen fun h => ?_)
    rw [h.board, h.usage]
    split
    · exact hrefused _ _
    · refine .bind_eq (uniform_putActivation x rfl) fun _ => ?_
      refine .bind_eq (.change fun h => { h with retractable := by rw [h.retractable] }) fun _ => ?_
      exact .bind_eq (.discard (agree_postNext trivial)) fun _ => .answer rfl

theorem uniform_retract (a : AbilityId) (p : PlayerId) : Uniform ρ t (retract a p) := by
  refine .bind_seen fun {s s'} h => ?_
  have hlatest : s'.latestRetractable? a = s.latestRetractable? a := by
    unfold latestRetractable?
    rw [h.retractable]
  rw [hlatest]
  cases s.latestRetractable? a with
  | none => exact .answer rfl
  | some x =>
    dsimp only
    rw [h.activations]
    cases s.activations.get? x with
    | none => exact .answer rfl
    | some activation =>
      have hcan : canRetract s'.board p (activation.renumbered ρ) =
          canRetract s.board p activation := by
        rw [h.board]
        rfl
      simp only [Option.map_some, hcan]
      split
      · refine .bind_eq ?_ fun _ => .answer rfl
        refine .bind_eq (uniform_onBoard _) fun _ =>
          .bind_eq (uniform_modifyActivation x fun _ => rfl) fun _ => ?_
        have hrest : Uniform ρ t (do
            change fun e => { e with retractable := dropLatest a e.retractable }
            trace s!"context {x.text} of ability {a.text} deactivated" : Play Engine Unit) :=
          .bind_eq (.change fun h => { h with retractable := by rw [h.retractable] })
            fun _ => .trace _ _
        unfold Activation.renumbered
        cases activation.prompt with
        | none => exact .bind_eq (.answer rfl) fun _ => hrest
        | some i =>
          -- The prompt that is withdrawn has the number that corresponds.
          refine .bind_eq (.change fun h => h.withQueue (h.queue.withdraw i) fun s hs => ?_)
            fun _ => hrest
          exact h.scripts s ((StepQueue.order_withdraw_sublist _ _).subset hs)
      · exact .answer rfl

/-! ## Scripts -/

/-- Scripts see the same but for the numbers of prompts. -/
theorem Mirrors.sight (h : e.Mirrors ρ t e') : e.sight.Renumbers ρ e'.sight :=
  ⟨h.board, h.activations, h.registrar, h.usage⟩

theorem uniform_awaitPrompt (p : Prompt) : Uniform ρ t (awaitPrompt p) :=
  .bind_eq (.trace _ _) fun _ => .answer rfl

/-- An order that withdraws no step is carried out alike. -/
theorem uniform_order (o : Order) (h : ∀ i, o ≠ .withdraw i) : Uniform ρ t o.carryOut := by
  cases o with
  | withdraw i => exact absurd rfl (h i)
  | activate a p => exact uniform_activate a p
  | retract a p => exact uniform_retract a p
  | shift c l => exact (uniform_onBoard _).discard
  | move c l => exact (uniform_moveCard c l).discard
  | message template args => exact uniform_message template args []
  | note line => exact .log _ _
  | register a => exact uniform_register a
  | unregister a => exact uniform_unregister a
  | respond p n => exact .answer rfl
  | resume =>
    refine .bind_seen fun {s s'} h => ?_
    rw [h.queue.frontPrompt?]
    cases s.queue.frontPrompt? with
    | some p => exact uniform_awaitPrompt p
    | none => exact .answer rfl
  | beginRound => exact uniform_beginRound
  | _ => exact uniform_onBoard _

/-- A script that refers to no step numbers runs alike. -/
theorem uniform_run : ∀ {script : Script}, script.Numberless → Uniform ρ t script.run
  | .done, _ => .answer rfl
  | .fail e, _ => .fail e
  | .look next, ⟨hsees, hnext⟩ =>
    .bind (.view fun h => h.sight) fun {v v'} hv => by
      rw [hsees ρ v v' hv]
      exact uniform_run (hnext v)
  | .order o next, ⟨ho, hnext⟩ =>
    (uniform_order o ho).attempt.bind_eq fun r => uniform_run (hnext r)
  | .raise event change next, ⟨hchange, hnext⟩ =>
    .bind_eq (uniform_raise event fun _ => hchange) fun _ => uniform_run hnext
  | .queue label body next, ⟨hbody, hsame, hnext⟩ =>
    .bind (agree_post hbody) fun {i j} _ => by
      rw [hsame j i]
      exact uniform_run (hnext i)
  | .prompt player title buttons source answers next, ⟨hsame, hnext⟩ =>
    .bind (agree_post trivial) fun {i j} _ => by
      rw [hsame j i]
      exact uniform_run (hnext i)

end Engine

end Doomtown
