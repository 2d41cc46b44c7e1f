import Doomtown.Proofs.Passage

/-!
# Plays that take an activation on

For each play that takes an activation on: that it spares all others, and which of the steps that
`Advance` lists it is. A play that is part of an activation takes on that one (`Engine.Takes`); one
that may enter or retract an activation takes on one at most (`Engine.Passes`).
-/

namespace Doomtown

open Play

namespace Legality

/-- Where a sequence of checks holds, its first one does, and so do the others. -/
theorem holds_of_require {holds : Bool} {reason : Illegal} {next : Except Illegal Unit}
    (h : (do require holds reason; next) = .ok ()) : holds = true ∧ next = .ok () := by
  cases holds with
  | false => simp [require, bind, Except.bind] at h
  | true => exact ⟨rfl, h⟩

/-- The card of what is legal is where the ability is used. -/
theorem isInPlace_of_check {b : Board} {usage : UsageTracker} {a : Ability} {x : Activation}
    (h : check b usage a x = .ok ()) :
    ∃ card, b.card? a.source = some card ∧ isInPlace b a card x := by
  unfold check at h
  split at h
  · simp at h
  · rename_i card hcard
    obtain ⟨-, h⟩ := holds_of_require h
    exact ⟨card, hcard, (holds_of_require h).1⟩

/-- An activation that is legal is of an ability that has not reached its limit, or may be used
though it has. -/
theorem usable_of_check {b : Board} {usage : UsageTracker} {a : Ability} {x : Activation}
    (h : check b usage a x = .ok ()) : a.allowUsed ∨ usage.isUsed x.ability = false := by
  unfold check at h
  split at h
  · simp at h
  · obtain ⟨-, h⟩ := holds_of_require h
    obtain ⟨-, h⟩ := holds_of_require h
    obtain ⟨-, h⟩ := holds_of_require h
    split at h
    · simp at h
    · obtain ⟨-, h⟩ := holds_of_require h
      simpa using (holds_of_require h).1

theorem check_of_isLegal {b : Board} {usage : UsageTracker} {a : Ability} {x : Activation}
    (h : isLegal b usage a x) : check b usage a x = .ok () := by
  unfold isLegal at h
  cases hcheck : check b usage a x with
  | ok => rfl
  | error => simp [hcheck, Except.isOk, Except.toBool] at h

end Legality

namespace Engine

/-- A play takes an activation a step on from where it stands, and spares all others. The part that
the play acts has been taken from the queue already. -/
structure Takes (admits : AbilityId → Prop) (x : ActivationId) (e : Engine) (a : Option Activation)
    (ps : List Part) (o : Option Occurrence) (e' : Engine) : Prop where
  spares : ∀ kept, e.Spares (· = x) kept e'
  advance : Advance admits a ps o (e'.activations.get? x) (e'.queue.partsOf x)
  prompt : ∀ activation' i, e'.activations.get? x = some activation' →
    activation'.prompt = some i → e'.AsksTarget x i ∨
      ∃ activation, a = some activation ∧ activation.prompt = some i

variable {admits : AbilityId → Prop} {e : Engine} {x : ActivationId} {activation : Activation}
  {a : Ability}

theorem admits_of_check (hability : e.ability? activation.ability = some a)
    (h : Legality.check e.board e.usage a activation = .ok ()) : e.Admits activation.ability :=
  ⟨a, hability, Legality.usable_of_check h⟩

/-- An activation is taken on to what is filed then. -/
theorem takes_of_filed {e' : Engine} {ps ps' : List Part} {o : Option Occurrence}
    {activation' : Activation} (hspares : ∀ kept, e.Spares (· = x) kept e')
    (hget' : e'.activations.get? x = some activation') (hparts' : e'.queue.partsOf x = ps')
    (hadvance : Advance admits (some activation) ps o (some activation') ps')
    (hprompt : ∀ i, activation'.prompt = some i → e'.AsksTarget x i ∨ activation.prompt = some i) :
    Takes admits x e (some activation) ps o e' := by
  refine ⟨hspares, ?_, fun activation'' i ho hi => ?_⟩
  · rw [hget', hparts']
    exact hadvance
  · obtain rfl := Option.some.inj (hget'.symm.trans ho)
    exact (hprompt i hi).imp_right fun hold => ⟨activation, rfl, hold⟩

/-! ## Payment -/

/-- What is spared is as it was, if it has not ended and nothing waits for it. -/
theorem spared_alone {e e' : Engine} (h : e.Spares (fun _ => false) True e')
    (hget : e.activations.get? x = some activation) (hlive : activation.stage.isTerminal = false)
    (hnone : e.queue.partsOf x = []) :
    e'.activations.get? x = some activation ∧ e'.queue.partsOf x = [] := by
  have hsub := h.partsOf_sublist (x := x) rfl
  rw [hnone] at hsub
  exact ⟨h.get?_eq rfl hget hlive, List.sublist_nil.mp hsub⟩

/-- A play that spares the activation, and then queues a part of it if it succeeds. -/
theorem spared_then_post {p : Play Engine Unit} (hp : p.Chains (Change fun _ => false))
    (kind : StepKind) {part : Part} (hkind : kind.part? = some (x, part))
    (hget : e.activations.get? x = some activation) (hlive : activation.stage.isTerminal = false)
    (hnone : e.queue.partsOf x = []) :
    ((do p; discard (post kind) : Play Engine Unit).ends e).2.activations.get? x =
        some activation ∧
      (((do p; discard (post kind) : Play Engine Unit).ends e).2.queue.partsOf x).Sublist
        [part] := by
  obtain ⟨hget', hnone'⟩ := spared_alone (spares_of_changes hp e) hget hlive hnone
  rw [ends_bind]
  rcases hend : p.ends e with ⟨_ | _, e'⟩
  · rw [hend] at hget' hnone'
    exact ⟨hget', hnone' ▸ List.nil_sublist _⟩
  · rw [hend] at hget' hnone'
    dsimp only
    rw [ends_discard]
    exact ⟨hget', StepQueue.partsOf_push hkind hnone' ▸ .refl _⟩

theorem payCosts_paid {receipts : List CostReceipt} {b : Board}
    (h : (Payment.payAll a.title activation a.costs).ends e.board = (.ok receipts, b)) :
    (payCosts a x activation).ends e =
      (do
        afterMoves (receipts.filterMap movedBy?)
        discard (post (.resolve x .chooseTargets)) : Play Engine Unit).ends
        { e with
          board := b
          activations := e.activations.modify x
            ({ · with receipts := receipts, stage := .costsPaid }) } := by
  have hattempt : (attempt (onBoard (Payment.payAll a.title activation a.costs))).ends e =
      (.ok (.ok receipts), { e with board := b }) := by
    rw [ends_attempt, onBoard, ends_within, h]
  unfold payCosts
  rw [ends_bind_ok hattempt]
  rfl

/-- What was paid is noted, whatever follows from the payment. -/
theorem payCosts_filed {receipts : List CostReceipt} {b : Board}
    (hget : e.activations.get? x = some activation) (hnone : e.queue.partsOf x = [])
    (hpay : (Payment.payAll a.title activation a.costs).ends e.board = (.ok receipts, b)) :
    ((payCosts a x activation).ends e).2.activations.get? x =
      some { activation with receipts := receipts, stage := .costsPaid } := by
  let f : Activation → Activation := ({ · with receipts := receipts, stage := .costsPaid })
  have hget' : ({ e with board := b, activations := e.activations.modify x f } :
      Engine).activations.get? x = some (f activation) := IdMap.get?_modify_self hget f
  rw [payCosts_paid hpay]
  exact (spared_then_post (changes_afterMoves (receipts.filterMap movedBy?))
    (.resolve x .chooseTargets) rfl hget' rfl hnone).1

theorem payCosts_refused {err : RulesError} {b : Board}
    (h : (Payment.payAll a.title activation a.costs).ends e.board = (.error err, b)) :
    ((payCosts a x activation).ends e).2 =
      { e with
        board := b
        activations := e.activations.modify x ({ · with cancelled := true }) } := by
  have hattempt : (attempt (onBoard (Payment.payAll a.title activation a.costs))).ends e =
      (.ok (.error err), { e with board := b }) := by
    rw [ends_attempt, onBoard, ends_within, h]
  unfold payCosts
  rw [ends_bind_ok hattempt]
  cases err <;> rfl

/-- Costs are paid and the choice of targets is queued, or the activation is cancelled. -/
theorem payCosts_takes (hget : e.activations.get? x = some activation)
    (hstage : activation.stage = .legalityChecked) (hnone : e.queue.partsOf x = []) :
    Takes admits x e (some activation) [.pay]
      (if ((Payment.payAll a.title activation a.costs).ends e.board).1.isOk then some .paid
        else none)
      ((payCosts a x activation).ends e).2 := by
  have hspares : ∀ kept, e.Spares (· = x) kept ((payCosts a x activation).ends e).2 := fun _ =>
    spares_of_changes (changes_payCosts a (by simp) activation) e
  rcases hpay : (Payment.payAll a.title activation a.costs).ends e.board with ⟨err | receipts, b⟩
  · rw [payCosts_refused hpay] at hspares ⊢
    exact takes_of_filed hspares (IdMap.get?_modify_self hget _) hnone (.refuse hstage)
      fun _ => .inr
  · rw [payCosts_paid hpay] at hspares ⊢
    let f : Activation → Activation := ({ · with receipts := receipts, stage := .costsPaid })
    have hget₁ : ({ e with board := b, activations := e.activations.modify x f } :
        Engine).activations.get? x = some (f activation) := IdMap.get?_modify_self hget f
    -- What follows the moves of the payment leaves the activation alone.
    obtain ⟨hget', hsub⟩ := spared_then_post (changes_afterMoves (receipts.filterMap movedBy?))
      (.resolve x .chooseTargets) rfl hget₁ rfl hnone
    exact takes_of_filed hspares hget' rfl (.pay hstage receipts hsub) fun _ => .inr

/-! ## Targets -/

/-- A step that is queued to wait for a target waits for no more. -/
theorem asksTarget_push (hids : ∀ s ∈ e.queue.order, s.id.number < e.queue.nextId)
    {kind : StepKind} (hkind : kind.part? = some (x, .choose)) {e' : Engine}
    (hqueue : e'.queue = e.queue.push kind) : e'.AsksTarget x e.queue.nextStep := by
  unfold AsksTarget
  rw [hqueue, StepQueue.nextId_push]
  refine ⟨Nat.lt_succ_self _, fun s hs hsi => ?_⟩
  -- The number is new, so the step that has it is the one that was queued.
  rcases StepQueue.mem_order_push.mp hs with hs | rfl
  · have := hids s hs
    rw [hsi] at this
    exact absurd this (Nat.lt_irrefl _)
  · exact hkind

/-- The prompt for a target. -/
def targetPrompt (a : Ability) (b : Board) (x : ActivationId) (activation : Activation)
    (slot : String) (choices : List ChosenTarget) : Prompt :=
  ⟨⟨s!"Select {slot} for {a.title}", choices.map (targetLabel b), some a.source⟩,
    activation.player, .target x slot choices⟩

/-- The first slot that stops the filling of slots: it has no target yet, and there is not just one
to choose. -/
def openSlot? (b : Board) (activation : Activation) (slots : List TargetSlot) :
    Option TargetSlot :=
  slots.find? fun slot =>
    !activation.hasTarget slot.name && (slot.choices b activation).length ≠ 1

/-- Targets of an activation were noted. -/
def noted (e : Engine) (x : ActivationId) (chosen : List (String × ChosenTarget)) : Engine :=
  { e with activations := e.activations.modify x fun y => { y with targets := y.targets ++ chosen } }

/-- What the filling of slots leads to. A slot for which there is just one target has it noted. -/
inductive Fills (e : Engine) (a : Ability) (x : ActivationId) (activation : Activation)
    (slots : List TargetSlot) : Engine → Prop where
  | resolved (chosen : List (String × ChosenTarget))
      (hopen : openSlot? e.board activation slots = none) :
    Fills e a x activation slots { e.noted x chosen with
      queue := e.queue.push (.resolve x .execute)
      activations := (e.noted x chosen).activations.modify x ({ · with stage := .targetsResolved }) }
  | missed (chosen : List (String × ChosenTarget)) {slot : TargetSlot}
      (hopen : openSlot? e.board activation slots = some slot)
      (hnone : slot.choices e.board activation = []) :
    Fills e a x activation slots { e.noted x chosen with
      activations := (e.noted x chosen).activations.modify x ({ · with cancelled := true }) }
  | asked (chosen : List (String × ChosenTarget)) {slot : TargetSlot}
      (hopen : openSlot? e.board activation slots = some slot)
      (hsome : slot.choices e.board activation ≠ []) :
    Fills e a x activation slots { e.noted x chosen with
      queue := e.queue.push (.prompt (targetPrompt a e.board x activation slot.name
        (slot.choices e.board activation)))
      activations := (e.noted x chosen).activations.modify x
        ({ · with prompt := some e.queue.nextStep }) }

/-- Slots that stop at the same slot are filled alike. -/
theorem Fills.congr {slots slots' : List TargetSlot} {e' : Engine}
    (h : Fills e a x activation slots e')
    (hopen : openSlot? e.board activation slots' = openSlot? e.board activation slots) :
    Fills e a x activation slots' e' := by
  cases h with
  | resolved chosen h => exact .resolved chosen (hopen.trans h)
  | missed chosen h hnone => exact .missed chosen (hopen.trans h) hnone
  | asked chosen h hsome => exact .asked chosen (hopen.trans h) hsome

section FillSlots

variable {slot : TargetSlot} {rest : List TargetSlot}

theorem fillSlots_filled (hhas : activation.hasTarget slot.name) :
    fillSlots a x activation (slot :: rest) = fillSlots a x activation rest := by
  rw [fillSlots, if_pos hhas]

theorem fillSlots_missed (hhas : ¬activation.hasTarget slot.name)
    (hchoices : slot.choices e.board activation = []) :
    (fillSlots a x activation (slot :: rest)).ends e =
      (.ok (), { e with
        activations := e.activations.modify x ({ · with cancelled := true }) }) := by
  rw [fillSlots, if_neg hhas, ends_bind_ok (ends_look e), hchoices]
  rfl

theorem fillSlots_chosen {target : ChosenTarget} (hhas : ¬activation.hasTarget slot.name)
    (hchoices : slot.choices e.board activation = [target]) :
    (fillSlots a x activation (slot :: rest)).ends e =
      (fillSlots a x activation rest).ends
        { e with activations := e.activations.modify x (·.choose slot.name target) } := by
  rw [fillSlots, if_neg hhas, ends_bind_ok (ends_look e), hchoices]
  rfl

theorem fillSlots_asked {first second : ChosenTarget} {more : List ChosenTarget}
    (hhas : ¬activation.hasTarget slot.name)
    (hchoices : slot.choices e.board activation = first :: second :: more) :
    (fillSlots a x activation (slot :: rest)).ends e =
      (promptTarget a x activation slot.name (first :: second :: more)).ends e := by
  rw [fillSlots, if_neg hhas, ends_bind_ok (ends_look e), hchoices]

end FillSlots

/-- Slots are filled as far as they can be. Some targets may have been noted in this stage
already. -/
theorem fillSlots_noted (e : Engine) (a : Ability) (x : ActivationId) (activation : Activation) :
    ∀ (slots : List TargetSlot) (chosen : List (String × ChosenTarget)),
      ∃ e', (fillSlots a x activation slots).ends (e.noted x chosen) = (.ok (), e') ∧
        Fills e a x activation slots e'
  | [], chosen => ⟨_, rfl, .resolved chosen rfl⟩
  | slot :: rest, chosen => by
    by_cases hhas : activation.hasTarget slot.name
    · obtain ⟨e', hend, hfills⟩ := fillSlots_noted e a x activation rest chosen
      refine ⟨e', ?_, hfills.congr (List.find?_cons_of_neg (by simp [hhas]))⟩
      rw [fillSlots_filled hhas, hend]
    · have hpasses : (slot.choices e.board activation).length ≠ 1 →
          openSlot? e.board activation (slot :: rest) = some slot := fun hopen =>
        List.find?_cons_of_pos (by simp [hhas, hopen])
      -- Noting targets changes no choices.
      rcases hchoices : slot.choices e.board activation with _ | ⟨target, _ | ⟨other, more⟩⟩
      · refine ⟨_, fillSlots_missed (e := e.noted x chosen) hhas hchoices, ?_⟩
        exact .missed chosen (hpasses (by simp [hchoices])) hchoices
      · have hnoted : ({ e.noted x chosen with
            activations := (e.noted x chosen).activations.modify x (·.choose slot.name target) } :
              Engine) = e.noted x (chosen ++ [(slot.name, target)]) := by
          unfold noted
          dsimp only
          rw [IdMap.modify_modify]
          congr 2
          funext y
          simp [Activation.choose, Function.comp, List.append_assoc]
        obtain ⟨e', hend, hfills⟩ :=
          fillSlots_noted e a x activation rest (chosen ++ [(slot.name, target)])
        refine ⟨e', ?_, hfills.congr (List.find?_cons_of_neg (by simp [hchoices]))⟩
        rw [fillSlots_chosen (e := e.noted x chosen) hhas hchoices, hnoted, hend]
      · have hasked := Fills.asked (a := a) (x := x) chosen (hpasses (by simp [hchoices]))
          (by simp [hchoices])
        rw [hchoices] at hasked
        exact ⟨_, fillSlots_asked (e := e.noted x chosen) hhas hchoices, hasked⟩

/-- Slots are filled as far as they can be. -/
theorem fillSlots_ends (e : Engine) (a : Ability) (x : ActivationId) (activation : Activation)
    (slots : List TargetSlot) :
    ∃ e', (fillSlots a x activation slots).ends e = (.ok (), e') ∧
      Fills e a x activation slots e' := by
  have hself : e.noted x [] = e := by
    unfold noted
    rw [IdMap.modify_eq_self fun y _ => by rw [List.append_nil]]
  obtain ⟨e', hend, hfills⟩ := fillSlots_noted e a x activation slots []
  rw [hself] at hend
  exact ⟨e', hend, hfills⟩

/-- The effect is queued, or a prompt for a target, or the activation is cancelled. -/
theorem fillSlots_takes (hget : e.activations.get? x = some activation)
    (hstage : activation.stage = .costsPaid)
    (hids : ∀ s ∈ e.queue.order, s.id.number < e.queue.nextId) (hnone : e.queue.partsOf x = [])
    (slots : List TargetSlot) :
    Takes admits x e (some activation) [.choose] none
      ((fillSlots a x activation slots).ends e).2 := by
  have hspares : ∀ kept, e.Spares (· = x) kept ((fillSlots a x activation slots).ends e).2 :=
    fun _ => spares_of_changes (changes_fillSlots a (by simp) activation slots) e
  obtain ⟨e', hend, hfills⟩ := fillSlots_ends e a x activation slots
  rw [hend] at hspares ⊢
  have hnoted : ∀ chosen, (e.noted x chosen).activations.get? x =
      some { activation with targets := activation.targets ++ chosen } := fun chosen =>
    IdMap.get?_modify_self hget _
  cases hfills with
  | resolved chosen _ =>
    exact takes_of_filed hspares (IdMap.get?_modify_self (hnoted chosen) _)
      (StepQueue.partsOf_push rfl hnone) (.resolve hstage _) fun _ => .inr
  | missed chosen _ _ =>
    exact takes_of_filed hspares (IdMap.get?_modify_self (hnoted chosen) _) hnone
      (.miss hstage _) fun _ => .inr
  | asked chosen _ _ =>
    refine takes_of_filed hspares (IdMap.get?_modify_self (hnoted chosen) _)
      (StepQueue.partsOf_push rfl hnone) (.ask hstage _ _) fun i hi => .inl ?_
    obtain rfl : e.queue.nextStep = i := Option.some.inj hi
    exact asksTarget_push hids rfl rfl

/-- A target is noted and the choice goes on; a button without a target does nothing. -/
theorem chooseTarget_takes (slot : String) (choices : List ChosenTarget) (n : Nat)
    (hnone : e.queue.partsOf x = []) :
    Takes admits x e (e.activations.get? x) [.choose] none
      ((chooseTarget x slot choices n).ends e).2 := by
  unfold chooseTarget
  cases choices[n]? with
  | none =>
    refine ⟨fun _ => .refl e, ?_, fun activation' i ho hi => .inr ⟨activation', ho, hi⟩⟩
    dsimp only
    rw [ends_answer, hnone]
    exact .skip _ (by decide)
  | some target =>
    have hfiled : (e.activations.modify x
        fun a => { a.choose slot target with prompt := none }).get? x =
        (e.activations.get? x).map fun a => { a.choose slot target with prompt := none } := by
      rw [IdMap.get?_modify, if_pos rfl]
    have hparts : (e.queue.push (.resolve x .chooseTargets)).partsOf x = [.choose] :=
      StepQueue.partsOf_push rfl hnone
    refine ⟨fun kept => ?_, ?_, fun activation' i ho hi => ?_⟩
    · refine spares_of_changes (.bind (changes_modifyActivation (by simp) _) fun _ => ?_) e
      exact .discard (changes_post (StepKind.onlyFor_of_some rfl (by simp) (by simp)))
    · show Advance admits _ _ _ ((e.activations.modify x _).get? x) ((e.queue.push _).partsOf x)
      rw [hfiled, hparts]
      exact .answer _ slot target
    · obtain ⟨activation, -, rfl⟩ := Option.map_eq_some_iff.mp (hfiled.symm.trans ho)
      simp at hi

/-! ## Offers -/

/-- A declined activation is forgotten. -/
theorem dropActivation_takes (hstage : activation.stage = .idle) (hnone : e.queue.partsOf x = []) :
    Takes admits x e (some activation) [.offer] none ((dropActivation x).ends e).2 := by
  have hgone : (e.activations.erase x).get? x = none := by rw [IdMap.get?_erase, if_pos rfl]
  refine ⟨fun kept => spares_of_changes (changes_dropActivation (by simp)) e, ?_, fun _ i ho _ => ?_⟩
  · show Advance admits _ _ _ ((e.activations.erase x).get? x) (e.queue.partsOf x)
    rw [hgone, hnone]
    exact .decline hstage
  · have ho' : (e.activations.erase x).get? x = some _ := ho
    rw [hgone] at ho'
    simp at ho'

/-- An accepted activation starts if it is still legal. -/
theorem accept_takes (hget : e.activations.get? x = some activation)
    (hstage : activation.stage = .idle) (hnone : e.queue.partsOf x = []) (choice : Option Nat) :
    Takes e.Admits x e (some activation) [.offer] none ((accept x choice).ends e).2 := by
  unfold accept
  rw [ends_bind_ok (ends_look e)]
  simp only [hget]
  cases hability : e.ability? activation.ability with
  | none =>
    rw [ends_bind_error (getAbility_missing hability)]
    exact takes_of_filed (fun _ => .refl e) hget hnone (.skip _ (by decide)) fun _ => .inr
  | some a =>
    rw [ends_bind_ok (getAbility_ends hability)]
    by_cases hlegal : Legality.isLegal e.board e.usage a activation
    · rw [if_pos hlegal]
      have hadmits := admits_of_check hability (Legality.check_of_isLegal hlegal)
      have hparts : (e.queue.push (.resolve x .payCosts)).partsOf x = [.pay] :=
        StepQueue.partsOf_push rfl hnone
      refine takes_of_filed (fun kept => spares_of_changes ?_ e) (IdMap.get?_modify_self hget _)
        hparts (.accept hstage choice hadmits) fun _ => .inr
      exact .bind (changes_modifyActivation (by simp) _) fun _ =>
        .discard (changes_post (StepKind.onlyFor_of_some rfl (by simp) (by simp)))
    · rw [if_neg hlegal]
      exact dropActivation_takes hstage hnone

/-! ## Effect and end -/

/-- Noting a headline changes the board at most. -/
theorem noteHeadline_ends (e : Engine) (c : CardId) :
    ∃ b, (noteHeadline c).ends e = (.ok (), { e with board := b }) := by
  unfold noteHeadline
  rw [ends_bind_ok (ends_look e)]
  split
  · exact ⟨_, rfl⟩
  · exact ⟨e.board, rfl⟩

/-- The use is counted, and announcement and end are queued unless the card cannot be discarded. -/
theorem conclude_takes (hget : e.activations.get? x = some activation)
    (hstage : activation.stage = .targetsResolved) (hnone : e.queue.partsOf x = []) :
    Takes admits x { e with usage := e.usage.increment activation.ability } (some activation)
      [.effect] (some .counted) ((conclude a x activation).ends e).2 := by
  let e₀ : Engine := { e with usage := e.usage.increment activation.ability }
  obtain ⟨b, hheadline⟩ := noteHeadline_ends e₀ a.source
  let e₁ : Engine := { e₀ with
    board := b
    activations := e.activations.modify x ({ · with stage := .executed }) }
  have hget₁ : e₁.activations.get? x = some { activation with stage := .executed } :=
    IdMap.get?_modify_self hget _
  have hend : (conclude a x activation).ends e =
      (do
        discardPlayed a.source
        raise (.abilityResolved activation.ability a.source activation.player) (.emitted x)
        discard (post (.complete x)) : Play Engine Unit).ends e₁ := by
    unfold conclude
    rw [ends_bind_ok (ends_change _ e), ends_bind_ok hheadline]
    rfl
  have hspares : ∀ kept, e₀.Spares (· = x) kept ((conclude a x activation).ends e).2 := by
    intro kept
    have hboard : e₀.Spares (· = x) kept { e₀ with board := b } := .of_frame rfl rfl rfl rfl rfl
    have hexecuted : ({ e₀ with board := b } : Engine).Spares (· = x) kept e₁ :=
      Change.spares (.file fun y hy => IdMap.get?_modify_of_ne _ (fun h => by simp [h] at hy) _)
    rw [hend]
    exact (hboard.trans hexecuted).trans
      (spares_of_changes (changes_concluded (by simp) a.source activation) e₁)
  -- The card of the ability is discarded or not: the activation stays as it is.
  obtain ⟨hget₂, hnone₂⟩ := spared_alone (spares_of_changes (changes_discardPlayed a.source) e₁)
    hget₁ rfl hnone
  rw [hend, ends_bind] at hspares ⊢
  rcases hdiscard : (discardPlayed a.source).ends e₁ with ⟨_ | _, e₂⟩
  all_goals
    rw [hdiscard] at hget₂ hnone₂ hspares
    dsimp only at hget₂ hnone₂ hspares ⊢
  · exact takes_of_filed hspares hget₂ hnone₂ (.conclude hstage (.inl rfl)) fun _ => .inr
  · have hparts : ((e₂.queue.push (.event ⟨e₂.board.clock + 1, .abilityResolved activation.ability
        a.source activation.player⟩ (.emitted x))).push (.complete x)).partsOf x =
        [.announce, .complete] :=
      StepQueue.partsOf_push_push rfl rfl hnone₂
    exact takes_of_filed hspares hget₂ hparts (.conclude hstage (.inr rfl)) fun _ => .inr

/-- The window that an announcement opens leaves an activation that still has its end before it. -/
theorem spared_complete {e' : Engine} (h : e.Spares (fun _ => false) True e')
    (hparts : (e.queue.partsOf x).Sublist [.complete]) :
    e'.queue.partsOf x = e.queue.partsOf x := by
  have hsub : (e'.queue.partsOf x).Sublist (e.queue.partsOf x) := h.partsOf_sublist rfl
  rcases List.sublist_singleton.mp hparts with hnil | hone
  · rw [hnil] at hsub ⊢
    exact List.sublist_nil.mp hsub
  · rw [hone] at hsub ⊢
    have hmem : Part.complete ∈ e'.queue.partsOf x :=
      h.mem_partsOf trivial rfl (show _ ∈ e.queue.partsOf x by simp [hone]) (by decide)
    rcases List.sublist_singleton.mp hsub with hnil | hone'
    · rw [hnil] at hmem
      simp at hmem
    · exact hone'

/-- The announcement fires. -/
theorem announce_takes (event : GameEvent) (hget : e.activations.get? x = some activation)
    (hstage : activation.stage = .executed) (hparts : (e.queue.partsOf x).Sublist [.complete]) :
    Takes admits x e (some activation) (.announce :: e.queue.partsOf x) (some .announced)
      ((fire event (.emitted x)).ends e).2 := by
  let e₁ := ((markEmitted x).ends e).2
  have hend : (fire event (.emitted x)).ends e = (openWindow event).ends e₁ := rfl
  have hget₁ : e₁.activations.get? x = some { activation with stage := .eventEmitted } :=
    IdMap.get?_modify_self hget _
  have hspared : e₁.Spares (fun _ => false) True ((openWindow event).ends e₁).2 :=
    spares_of_changes (changes_openWindow event) e₁
  have hget₂ := hspared.get?_eq (x := x) rfl hget₁ rfl
  have hkept : ((openWindow event).ends e₁).2.queue.partsOf x = e.queue.partsOf x :=
    spared_complete (e := e₁) hspared hparts
  -- The stage changes before the window opens, and what the window does spares the activation.
  rw [hend]
  refine takes_of_filed (fun kept => ?_) hget₂ hkept (.announce hstage hparts) fun _ => .inr
  exact (spares_of_changes (changes_modifyActivation (by simp) _) e).trans
    (spares_of_changes (changes_openWindow event) e₁)

theorem complete_takes (hget : e.activations.get? x = some activation)
    (hstage : activation.stage = .executed ∨ activation.stage = .eventEmitted)
    (hnone : e.queue.partsOf x = []) :
    Takes admits x e (some activation) [.complete] none ((complete x).ends e).2 :=
  takes_of_filed (fun _ => spares_of_changes (changes_modifyActivation (by simp) _) e)
    (IdMap.get?_modify_self hget _) hnone (.complete hstage) fun _ => .inr

/-! ## Stages of a resolution -/

/-- A part of an activation passes without effect. -/
theorem skip_takes {p : Part} (hp : p ≠ .announce ∧ p ≠ .complete)
    (hnone : e.queue.partsOf x = []) :
    Takes admits x e (e.activations.get? x) [p] none e := by
  refine ⟨fun _ => .refl e, ?_, fun activation' i ho hi => .inr ⟨activation', ho, hi⟩⟩
  rw [hnone]
  exact .skip _ hp

/-- A stage that comes too late, or whose ability does not exist, changes nothing. -/
theorem resolve_idle (stage : ResolutionStage)
    (h : ∀ activation a, e.activations.get? x = some activation → activation.isLive →
      e.ability? activation.ability ≠ some a) :
    ((resolve x stage).ends e).2 = e := by
  unfold resolve
  rw [ends_bind_ok (ends_look e)]
  cases hget : e.activations.get? x with
  | none => rfl
  | some activation =>
    dsimp only
    by_cases hlive : activation.isLive
    · simp only [hlive, Bool.not_true, Bool.false_eq_true, if_false]
      cases hability : e.ability? activation.ability with
      | none => rw [ends_bind_error (getAbility_missing hability)]
      | some a => exact absurd hability (h activation a hget hlive)
    · simp only [hlive, Bool.not_false, if_true]
      rfl

theorem resolve_pay_takes (hnone : e.queue.partsOf x = [])
    (hfits : Fits (e.activations.get? x) [.pay]) :
    Takes admits x e (e.activations.get? x) [.pay] (if e.pays x then some .paid else none)
      ((resolve x .payCosts).ends e).2 := by
  obtain ⟨activation, hget, hlive, hstage, -⟩ := follows_of_fits hfits (by decide)
  cases hability : e.ability? activation.ability with
  | none =>
    have hpays : e.pays x = false := by simp [pays, hget, hability]
    rw [resolve_idle, hpays]
    · exact skip_takes (by decide) hnone
    · intro activation' a hget' _
      obtain rfl := Option.some.inj (hget.symm.trans hget')
      simp [hability]
  | some a =>
    have hpays : e.pays x =
        ((Payment.payAll a.title activation a.costs).ends e.board).1.isOk := by
      simp [pays, hget, hability, hlive]
    rw [resolve_live _ hget hlive hability, hpays, hget]
    exact payCosts_takes hget hstage hnone

theorem resolve_choose_takes (hids : ∀ s ∈ e.queue.order, s.id.number < e.queue.nextId)
    (hnone : e.queue.partsOf x = []) (hfits : Fits (e.activations.get? x) [.choose]) :
    Takes admits x e (e.activations.get? x) [.choose] none
      ((resolve x .chooseTargets).ends e).2 := by
  by_cases hlive : ∃ activation a, e.activations.get? x = some activation ∧ activation.isLive ∧
      e.ability? activation.ability = some a
  · obtain ⟨activation, a, hget, hlive, hability⟩ := hlive
    have hstage : activation.stage = .costsPaid := by
      rw [hget] at hfits
      rcases hfits.ahead with hahead | ⟨-, hparts⟩
      · rcases (follows_of_ahead hahead).1 with hstage | hstage
        · exact hstage
        · simp [Activation.isLive, hstage, ActivationStage.isTerminal] at hlive
      · simp at hparts
    rw [resolve_live _ hget hlive hability, hget]
    exact fillSlots_takes hget hstage hids hnone a.targets
  · rw [resolve_idle _ fun activation a hget hl hability =>
      hlive ⟨activation, a, hget, hl, hability⟩]
    exact skip_takes (by decide) hnone

/-! ## New activations and retracted ones -/

/-- A play spares all activations, or takes one on from where it stands. One that is not filed yet
has a number that was not given before. -/
def Passes (e : Engine) (kept : Prop) (e' : Engine) : Prop :=
  e.Spares (fun _ => false) kept e' ∨
    ∃ x, Takes e.Admits x e (e.activations.get? x) (e.queue.partsOf x) none e' ∧
      x.number < e'.nextActivation ∧
      (e.activations.get? x = none → e.nextActivation ≤ x.number)

theorem isLive_new (a : AbilityId) (source : CardId) (p : PlayerId) (event : Option GameEvent)
    {stage : ActivationStage} (h : stage.isTerminal = false) :
    ({ Activation.new a source p event with stage := stage } : Activation).isLive := by
  simp [Activation.isLive, Activation.new, h]

/-- A new activation is entered and a part of it queued. -/
theorem takes_new {q : StepQueue} {retractable : List (AbilityId × ActivationId)}
    (hfresh : e.activations.get? ⟨e.nextActivation⟩ = none) {part : Part}
    (hadvance : Advance admits none [] none (some activation) [part])
    (hnone : e.queue.partsOf ⟨e.nextActivation⟩ = []) (hprompt : activation.prompt = none)
    (hq : ∀ kept, e.Spares (· = ⟨e.nextActivation⟩) kept { e with queue := q })
    (hparts : q.partsOf ⟨e.nextActivation⟩ = [part]) :
    Takes admits ⟨e.nextActivation⟩ e (e.activations.get? ⟨e.nextActivation⟩)
      (e.queue.partsOf ⟨e.nextActivation⟩) none
      { e with
        nextActivation := e.nextActivation + 1
        activations := e.activations.insert ⟨e.nextActivation⟩ activation
        retractable := retractable
        queue := q } := by
  have hfiled : (e.activations.insert ⟨e.nextActivation⟩ activation).get? ⟨e.nextActivation⟩ =
      some activation := by rw [IdMap.get?_insert, if_pos rfl]
  refine ⟨fun kept => { hq kept with
    activations := fun y hy => .inl ?_
    numbers := Nat.le_succ e.nextActivation }, ?_, fun activation' i ho hi => ?_⟩
  · have hne : (⟨e.nextActivation⟩ : ActivationId) ≠ y := fun h => by simp [h] at hy
    show (e.activations.insert _ _).get? y = _
    rw [IdMap.get?_insert, if_neg hne]
  · show Advance admits _ _ _ ((e.activations.insert _ _).get? _) (q.partsOf _)
    rw [hfiled, hparts, hfresh, hnone]
    exact hadvance
  · obtain rfl := Option.some.inj (hfiled.symm.trans ho)
    rw [hprompt] at hi
    simp at hi

/-- Starting an action enters a new activation, or does nothing but use up its number. -/
theorem activate_passes (hfresh : e.activations.get? ⟨e.nextActivation⟩ = none)
    (hnone : e.queue.partsOf ⟨e.nextActivation⟩ = []) (a : AbilityId) (p : PlayerId) (kept : Prop) :
    e.Passes kept ((activate a p).ends e).2 := by
  unfold activate
  cases hability : e.ability? a with
  | none =>
    rw [ends_bind_error (getAbility_missing hability)]
    exact .inl (.refl e)
  | some ability =>
    rw [ends_bind_ok (getAbility_ends hability)]
    by_cases haction : ability.isAction
    · simp only [haction, Bool.not_true, Bool.false_eq_true, if_false]
      have htake : (takeActivationId).ends e =
          (.ok ⟨e.nextActivation⟩, { e with nextActivation := e.nextActivation + 1 }) := rfl
      rw [ends_bind_ok htake, ends_bind_ok (ends_look _)]
      dsimp only
      split
      · exact .inl { Spares.refl e with numbers := Nat.le_succ e.nextActivation }
      · rename_i hcheck
        let kind : StepKind := .resolve ⟨e.nextActivation⟩ .payCosts
        have hpart : kind.part? = some (⟨e.nextActivation⟩, .pay) := rfl
        have hparts : (e.queue.pushNext kind).partsOf ⟨e.nextActivation⟩ = [.pay] := by
          rw [StepQueue.partsOf_pushNext hpart, hnone]
        have hq : ∀ kept, e.Spares (· = ⟨e.nextActivation⟩) kept
            { e with queue := e.queue.pushNext kind } := fun _ =>
          spares_of_changes
            (changes_postNext (StepKind.onlyFor_of_some hpart (by simp) (by simp [kind]))) e
        have hadmits : e.Admits a := admits_of_check (a := ability) hability hcheck
        have hstart := Advance.start rfl (isLive_new a ability.source p none rfl) hadmits
        exact .inr ⟨_, takes_new hfresh hstart hnone rfl hq hparts, Nat.lt_succ_self _,
          fun _ => Nat.le_refl _⟩
    · simp only [haction, Bool.not_false, if_true]
      exact .inl (.refl e)

/-- An ability exists and is legal for a player who is offered it for an event now. -/
def CanOffer (e : Engine) (event : GameEvent) (c : TriggerCandidate) : Prop :=
  ∃ a, e.ability? c.ability = some a ∧
    Legality.check e.board e.usage a (.new c.ability a.source c.player (some event)) = .ok ()

/-- The first step of an activation that was offered: a forced one pays its costs, of any other the
player is asked whether it shall start. -/
inductive Offered (x : ActivationId) : Activation → StepKind → Prop where
  | forced {activation : Activation} (hstage : activation.stage = .legalityChecked) :
    Offered x activation (.resolve x .payCosts)
  | prompted {activation : Activation} (hstage : activation.stage = .idle) (view : PromptView)
      (p : PlayerId) (alternatives : Nat) :
    Offered x activation (.prompt ⟨view, p, .offer x alternatives⟩)

/-- What an offer leads to. -/
inductive Offers (e : Engine) (event : GameEvent) (c : TriggerCandidate) : Engine → Prop where
  | unknown (hability : e.ability? c.ability = none) : Offers e event c e
  | skipped {a : Ability} (hability : e.ability? c.ability = some a)
      (hillegal : ¬e.CanOffer event c) :
    Offers e event c { e with nextActivation := e.nextActivation + 1 }
  | entered {activation : Activation} {kind : StepKind} (hlegal : e.CanOffer event c)
      (hof : activation.ability = c.ability) (hby : activation.player = c.player)
      (hlive : activation.isLive) (hprompt : activation.prompt = none)
      (hkind : Offered ⟨e.nextActivation⟩ activation kind) :
    Offers e event c { e with
      nextActivation := e.nextActivation + 1
      activations := e.activations.insert ⟨e.nextActivation⟩ activation
      queue := e.queue.push kind }

/-- An offer never fails. -/
theorem offer_ends (e : Engine) (event : GameEvent) (c : TriggerCandidate) :
    ∃ e', (offer event c).ends e = (.ok (), e') ∧ e.Offers event c e' := by
  unfold offer
  rw [ends_bind_ok (ends_look e)]
  cases hability : e.ability? c.ability with
  | none => exact ⟨e, rfl, .unknown hability⟩
  | some a =>
    dsimp only
    have htake : (takeActivationId).ends e =
        (.ok ⟨e.nextActivation⟩, { e with nextActivation := e.nextActivation + 1 }) := rfl
    rw [ends_bind_ok htake, ends_bind_ok (ends_look _)]
    dsimp only
    split
    · rename_i hcheck
      refine ⟨_, rfl, .skipped hability ?_⟩
      rintro ⟨a', hability', hlegal⟩
      obtain rfl := Option.some.inj (hability.symm.trans hability')
      rw [hcheck] at hlegal
      simp at hlegal
    · rename_i hcheck
      have hlegal : e.CanOffer event c := ⟨a, hability, hcheck⟩
      by_cases hforced : a.kind.isForced
      · rw [if_pos hforced]
        exact ⟨_, rfl, .entered hlegal rfl rfl
          (isLive_new c.ability a.source c.player (some event) rfl) rfl (.forced rfl)⟩
      · rw [if_neg hforced]
        exact ⟨_, rfl, .entered hlegal rfl rfl rfl rfl (.prompted rfl _ _ _)⟩

/-- Offering an ability enters a new activation, or spares all. -/
theorem Offers.passes {e' : Engine} {event : GameEvent} {c : TriggerCandidate}
    (h : e.Offers event c e') (hfresh : e.activations.get? ⟨e.nextActivation⟩ = none)
    (hnone : e.queue.partsOf ⟨e.nextActivation⟩ = []) (kept : Prop) : e.Passes kept e' := by
  cases h with
  | unknown => exact .inl (.refl e)
  | skipped => exact .inl { Spares.refl e with numbers := Nat.le_succ e.nextActivation }
  | @entered activation kind hlegal hof hby hlive hprompt hkind =>
    have hq : ∀ {part : Part}, kind.part? = some (⟨e.nextActivation⟩, part) → kind.Apt →
        ∀ kept, e.Spares (· = ⟨e.nextActivation⟩) kept { e with queue := e.queue.push kind } :=
      fun hpart hapt _ => (Change.push ⟨by simp [hpart], hapt⟩).spares
    obtain ⟨a, hability, hcheck⟩ := hlegal
    cases hkind with
    | forced hstage =>
      have hadmits : e.Admits c.ability := admits_of_check hability hcheck
      rw [← hof] at hadmits
      exact .inr ⟨_, takes_new hfresh (.start hstage hlive hadmits) hnone hprompt
        (hq rfl trivial) (StepQueue.partsOf_push rfl hnone), Nat.lt_succ_self _,
        fun _ => Nat.le_refl _⟩
    | prompted hstage view p alternatives =>
      exact .inr ⟨_, takes_new hfresh (.offer hstage hlive) hnone hprompt
        (hq rfl trivial) (StepQueue.partsOf_push rfl hnone), Nat.lt_succ_self _,
        fun _ => Nat.le_refl _⟩

/-- A change after which all activations stand as they stood goes unnoticed. -/
theorem Passes.spared {e' e'' : Engine} {kept : Prop} (h : e.Passes kept e')
    (hspares : ∀ kept, e'.Spares (fun _ => false) kept e'')
    (hactivations : e''.activations = e'.activations)
    (hparts : ∀ x, e''.queue.partsOf x = e'.queue.partsOf x) : e.Passes kept e'' := by
  rcases h with hspared | ⟨x, htakes, hnumber, hentry⟩
  · exact .inl (hspared.trans (hspares kept))
  · refine .inr ⟨x, ⟨fun kept => (htakes.spares kept).trans ?_, ?_, fun activation' i ho hi => ?_⟩,
      Nat.lt_of_lt_of_le hnumber (hspares True).numbers, hentry⟩
    · exact (hspares kept).mono (fun _ _ => rfl) id
    · rw [hactivations, hparts]
      exact htakes.advance
    · rw [hactivations] at ho
      rcases htakes.prompt activation' i ho hi with ⟨hlt, hchoose⟩ | hold
      · -- The step for the target was queued before the change, so nothing new has its number.
        have hids := (hspares True).ids
        refine .inl ⟨by omega, fun s hs hsi => ?_⟩
        rcases (hspares True).steps s hs with hs | ⟨hnew, -⟩
        · exact hchoose s hs hsi
        · rw [hsi] at hnew
          omega
      · exact .inr hold

/-- A window offers its next ability and is queued with the rest. -/
theorem advance_passes (hfresh : e.activations.get? ⟨e.nextActivation⟩ = none)
    (hnone : e.queue.partsOf ⟨e.nextActivation⟩ = []) (w : TriggerWindow) (kept : Prop) :
    e.Passes kept ((advance w).ends e).2 := by
  unfold advance
  dsimp only
  split
  · exact .inl (.refl e)
  · rename_i c rest _
    obtain ⟨e', hoffer, hoffers⟩ := offer_ends e w.event c
    have hpasses := hoffers.passes hfresh hnone kept
    rw [ends_bind_ok hoffer]
    split
    · exact hpasses
    · have hpart : ∀ t ∈ (StepKind.window { w with pending := rest }).part?, False := by
        simp [StepKind.part?]
      refine hpasses.spared (fun kept => spares_of_changes (.discard (changes_post
        (StepKind.onlyFor_of_none rfl))) e') rfl fun x => ?_
      exact StepQueue.partsOf_push_other fun t ht => (hpart t ht).elim

/-- What is withdrawn with a retracted activation: its prompt, if it has one. -/
def withdrawPrompt (q : StepQueue) (prompt : Option StepId) : StepQueue :=
  match prompt with
  | some step => q.withdraw step
  | none => q

theorem order_withdrawPrompt_sublist (q : StepQueue) (prompt : Option StepId) :
    (withdrawPrompt q prompt).order.Sublist q.order := by
  cases prompt with
  | none => exact .refl _
  | some step => exact q.order_withdraw_sublist step

/-- An activation is retracted with its payments taken back. -/
def retracted (e : Engine) (a : AbilityId) (x : ActivationId) (activation : Activation)
    (b : Board) : Engine :=
  { e with
    board := b
    activations := e.activations.modify x
      ({ · with stage := .deactivated, deactivated := true, prompt := none })
    queue := withdrawPrompt e.queue activation.prompt
    retractable := dropLatest a e.retractable }

/-- How an attempt to retract the latest activation of an ability ends. -/
inductive Retracts (e : Engine) (a : AbilityId) (p : PlayerId) :
    Except RulesError Bool × Engine → Prop where
  | refused : Retracts e a p (.ok false, e)
  | failed {x : ActivationId} {activation : Activation} {err : RulesError} {b : Board}
      (hlatest : e.latestRetractable? a = some x) (hget : e.activations.get? x = some activation)
      (hcan : canRetract e.board p activation)
      (hpay : (Payment.unpayAll activation.receipts).ends e.board = (.error err, b)) :
    Retracts e a p (.error err, { e with board := b })
  | retracted {x : ActivationId} {activation : Activation} {b : Board}
      (hlatest : e.latestRetractable? a = some x) (hget : e.activations.get? x = some activation)
      (hcan : canRetract e.board p activation)
      (hpay : (Payment.unpayAll activation.receipts).ends e.board = (.ok (), b)) :
    Retracts e a p (.ok true, e.retracted a x activation b)

theorem retract_ends (e : Engine) (a : AbilityId) (p : PlayerId) :
    e.Retracts a p ((retract a p).ends e) := by
  unfold retract
  rw [ends_bind_ok (ends_look e)]
  cases hlatest : e.latestRetractable? a with
  | none => exact .refused
  | some x =>
    dsimp only
    cases hget : e.activations.get? x with
    | none => exact .refused
    | some activation =>
      dsimp only
      by_cases hcan : canRetract e.board p activation
      · rw [if_pos hcan]
        unfold retractActivation
        rcases hpay : (Payment.unpayAll activation.receipts).ends e.board with ⟨err | _, b⟩
        · have hboard : (onBoard (Payment.unpayAll activation.receipts)).ends e =
              (.error err, { e with board := b }) := by
            rw [onBoard, ends_within, hpay]
          rw [bind_assoc, ends_bind_error hboard]
          exact .failed hlatest hget hcan hpay
        · have hboard : (onBoard (Payment.unpayAll activation.receipts)).ends e =
              (.ok (), { e with board := b }) := by
            rw [onBoard, ends_within, hpay]
          rw [bind_assoc, ends_bind_ok hboard]
          have hretracted := Retracts.retracted hlatest hget hcan hpay
          unfold Engine.retracted at hretracted
          cases hprompt : activation.prompt <;> rw [hprompt] at hretracted <;> exact hretracted
      · rw [if_neg hcan]
        exact .refused

/-- The activation that is retracted is deactivated, and its prompt is withdrawn. -/
theorem retracted_takes
    (hprompts : ∀ i, activation.prompt = some i → e.AsksTarget x i)
    (hget : e.activations.get? x = some activation) (hstage : activation.stage = .costsPaid)
    (b : Board) (retractable : List (AbilityId × ActivationId)) :
    Takes admits x e (some activation) (e.queue.partsOf x) none
      { e with
        board := b
        activations := e.activations.modify x
          ({ · with stage := .deactivated, deactivated := true, prompt := none })
        queue := withdrawPrompt e.queue activation.prompt
        retractable := retractable } := by
  have hsub : ((withdrawPrompt e.queue activation.prompt).partsOf x).Sublist
      (e.queue.partsOf x) := by
    unfold withdrawPrompt
    cases activation.prompt with
    | none => exact .refl _
    | some i => exact ((e.queue.parts_withdraw_sublist i).filter _).map _
  -- Only a choice of targets of this activation is withdrawn, so no other part is lost.
  have hwithdraw : ∀ kept, e.Spares (· = x) kept
      { e with queue := withdrawPrompt e.queue activation.prompt } := by
    intro kept
    unfold withdrawPrompt
    cases hprompt : activation.prompt with
    | none => exact .refl e
    | some i =>
      refine spares_withdraw fun _ s hs hsi t ht => .inr ?_
      rw [(hprompts i hprompt).2 s hs hsi] at ht
      obtain rfl := Option.some.inj ht
      rfl
  refine takes_of_filed (fun kept => { hwithdraw kept with activations := fun y hy => .inl ?_ })
    (IdMap.get?_modify_self hget _) rfl (.retract hstage hsub) fun i hi => ?_
  · exact IdMap.get?_modify_of_ne _ (fun h => by simp [h] at hy) _
  · simp at hi

theorem canRetract_iff {b : Board} {p : PlayerId} : canRetract b p activation ↔
    activation.player = p ∧ activation.stage = .costsPaid ∧
      Payment.canUnpayAll b activation.receipts := by
  simp [canRetract, and_assoc]

/-- What can be retracted has its costs paid. -/
theorem stage_of_canRetract {b : Board} {p : PlayerId} (h : canRetract b p activation) :
    activation.stage = .costsPaid := (canRetract_iff.mp h).2.1

/-- Retracting takes back an activation whose costs are paid, or changes none. -/
theorem retract_passes
    (hprompts : ∀ x activation i, e.activations.get? x = some activation →
      activation.prompt = some i → e.AsksTarget x i)
    (hfresh : ∀ x : ActivationId, e.nextActivation ≤ x.number → e.activations.get? x = none)
    (a : AbilityId) (p : PlayerId) (kept : Prop) : e.Passes kept ((retract a p).ends e).2 := by
  have hends := retract_ends e a p
  generalize (retract a p).ends e = ending at hends
  cases hends with
  | refused => exact .inl (.refl e)
  | failed => exact .inl (.of_frame rfl rfl rfl rfl rfl)
  | @retracted x activation b hlatest hget hcan hpay =>
    -- What is filed was given its number before.
    have hnumber : x.number < e.nextActivation := by
      by_contra hge
      have hnone := hfresh x (Nat.le_of_not_lt hge)
      rw [hget] at hnone
      simp at hnone
    refine .inr ⟨x, ?_, hnumber, fun hnone => by simp [hget] at hnone⟩
    rw [hget]
    exact retracted_takes (hprompts x activation · hget) hget (stage_of_canRetract hcan) b _

/-- An order takes one activation on at most. Parts other than of a choice of targets are only lost
if they are withdrawn by it. -/
theorem order_passes
    (hprompts : ∀ x activation i, e.activations.get? x = some activation →
      activation.prompt = some i → e.AsksTarget x i)
    (hfresh : ∀ x : ActivationId, e.nextActivation ≤ x.number →
      e.activations.get? x = none ∧ e.queue.partsOf x = []) (o : Order) (kept : Prop)
    (hkept : kept → ∀ i, o = .withdraw i → ∀ s ∈ e.queue.pending, s.id = i → s.kind.part? = none) :
    e.Passes kept (o.carryOut.ends e).2 := by
  by_cases hactivate : ∃ a p, o = .activate a p
  · obtain ⟨a, p, rfl⟩ := hactivate
    obtain ⟨hget, hnone⟩ := hfresh ⟨e.nextActivation⟩ (Nat.le_refl _)
    exact activate_passes hget hnone a p kept
  by_cases hretract : ∃ a p, o = .retract a p
  · obtain ⟨a, p, rfl⟩ := hretract
    exact retract_passes hprompts (fun x hx => (hfresh x hx).1) a p kept
  by_cases hwithdraw : ∃ i, o = .withdraw i
  · obtain ⟨i, rfl⟩ := hwithdraw
    show e.Passes kept ((withdraw i).ends e).2
    unfold withdraw
    rw [ends_bind_ok (ends_look e)]
    by_cases hcontains : e.queue.contains i
    · rw [if_pos hcontains]
      refine .inl (spares_withdraw fun hk s hs hsi t ht => ?_)
      rw [hkept hk i rfl s (StepQueue.mem_pending_iff.mpr hs) hsi] at ht
      simp at ht
    · rw [if_neg hcontains]
      exact .inl (.refl e)
  · refine .inl (spares_of_changes (changes_order o (fun a p h => hactivate ⟨a, p, h⟩)
      (fun a p h => hretract ⟨a, p, h⟩) fun i h => hwithdraw ⟨i, h⟩) e)

end Engine

end Doomtown
