import Doomtown.Proofs.Aiming
import Doomtown.Proofs.Filings
import Doomtown.Proofs.FollowUps

/-!
# The filling of target slots

The slots of an ability are filled one after the other. A slot with one choice takes it, a slot with
several waits for an answer, and the filling then begins anew on the board as it is by then; a slot
with none cancels the activation. Through all this the targets of an activation are those of its
first slots, in order, and at most the next slot is being asked for (`Moment.Reached.inOrder`).
-/

namespace Doomtown

open Play

/-! ## Slots that are filled by themselves -/

theorem Activation.hasTarget_iff {x : Activation} {slot : String} :
    x.hasTarget slot ↔ slot ∈ x.targets.map (·.1) := by
  unfold hasTarget target?
  rw [Option.isSome_map, List.find?_isSome, List.mem_map]
  simp

/-- What can be chosen for a slot is of the kind that the slot is for. -/
def TargetSlot.Takes (s : TargetSlot) : ChosenTarget → Prop
  | .player _ => ∃ filter, s.pool = .players filter
  | .card _ => ∃ location filter, s.pool = .cards location filter

theorem TargetSlot.takes_of_mem {s : TargetSlot} {b : Board} {x : Activation} {t : ChosenTarget}
    (h : t ∈ s.choices b x) : s.Takes t := by
  unfold choices at h
  cases hpool : s.pool with
  | players filter =>
    rw [hpool] at h
    obtain ⟨p, -, rfl⟩ := List.mem_map.mp h
    exact ⟨filter, hpool⟩
  | cards location filter =>
    rw [hpool] at h
    obtain ⟨c, -, rfl⟩ := List.mem_map.mp h
    exact ⟨location, filter, hpool⟩

namespace Engine

variable {e : Engine} {a : Ability} {x y : ActivationId} {before : Activation}
  {slot : String} {choices : List ChosenTarget}

/-- The targets that the slots without one take by themselves, up to the first that does not. -/
def autoFilled (b : Board) (before : Activation) : List TargetSlot → List (String × ChosenTarget)
  | [] => []
  | slot :: rest =>
    if before.hasTarget slot.name then autoFilled b before rest
    else match slot.choices b before with
      | [target] => (slot.name, target) :: autoFilled b before rest
      | _ => []

/-- The filling of slots notes the targets that are taken by themselves. -/
theorem targets_fillSlots (a : Ability) (x : ActivationId) (before : Activation) :
    ∀ (slots : List TargetSlot) (e : Engine),
      (((fillSlots a x before slots).ends e).2.activations.get? x).map (·.targets) =
        (e.activations.get? x).map fun y => y.targets ++ autoFilled e.board before slots
  | [], e => by
    show ((e.activations.modify x _).get? x).map _ = _
    rw [IdMap.get?_modify, if_pos rfl, Option.map_map]
    simp [autoFilled, Function.comp_def]
  | slot :: rest, e => by
    rw [autoFilled]
    by_cases hhas : before.hasTarget slot.name
    · rw [fillSlots_filled hhas, if_pos hhas]
      exact targets_fillSlots a x before rest e
    · rw [if_neg hhas]
      rcases hchoices : slot.choices e.board before with _ | ⟨target, _ | ⟨other, more⟩⟩
      · rw [fillSlots_missed hhas hchoices]
        dsimp only
        rw [IdMap.get?_modify, if_pos rfl, Option.map_map]
        simp [Function.comp_def]
      · rw [fillSlots_chosen hhas hchoices, targets_fillSlots a x before rest]
        dsimp only
        rw [IdMap.get?_modify, if_pos rfl, Option.map_map]
        simp [Function.comp_def, Activation.choose]
      · rw [fillSlots_asked hhas hchoices]
        show ((e.activations.modify x _).get? x).map _ = _
        rw [IdMap.get?_modify, if_pos rfl, Option.map_map]
        simp [Function.comp_def]

/-- The slots that fill themselves are the first ones, and the next is the one at which the filling
stops. -/
theorem autoFilled_split (b : Board) :
    ∀ {slots : List TargetSlot}, (∀ s ∈ slots, ¬before.hasTarget s.name) →
      ∃ filled left, slots = filled ++ left ∧
        (autoFilled b before slots).map (·.1) = filled.map (·.name) ∧
        left.head? = openSlot? b before slots
  | [], _ => ⟨[], [], rfl, rfl, rfl⟩
  | slot :: rest, hnone => by
    have hhas : ¬before.hasTarget slot.name := hnone slot List.mem_cons_self
    have hstops : (slot.choices b before).length ≠ 1 →
        openSlot? b before (slot :: rest) = some slot := fun hlength =>
      List.find?_cons_of_pos (by simp [hhas, hlength])
    rw [autoFilled, if_neg hhas]
    rcases hchoices : slot.choices b before with _ | ⟨target, _ | ⟨other, more⟩⟩
    · exact ⟨[], slot :: rest, rfl, rfl, (hstops (by simp [hchoices])).symm⟩
    · obtain ⟨filled, left, rfl, hfilled, hleft⟩ :=
        autoFilled_split b fun s (hs : s ∈ rest) => hnone s (List.mem_cons_of_mem _ hs)
      refine ⟨slot :: filled, left, rfl, by simp [hfilled], hleft.trans ?_⟩
      exact (List.find?_cons_of_neg (by simp [hchoices])).symm
    · exact ⟨[], slot :: rest, rfl, rfl, (hstops (by simp [hchoices])).symm⟩

/-- Slots that have their targets are passed over. -/
theorem autoFilled_append {b : Board} {filled left : List TargetSlot}
    (h : ∀ s ∈ filled, before.hasTarget s.name) :
    autoFilled b before (filled ++ left) = autoFilled b before left := by
  induction filled with
  | nil => rfl
  | cons s rest ih =>
    rw [List.cons_append, autoFilled, if_pos (h s List.mem_cons_self)]
    exact ih fun s hs => h s (List.mem_cons_of_mem _ hs)

theorem openSlot?_append {b : Board} {filled left : List TargetSlot}
    (h : ∀ s ∈ filled, before.hasTarget s.name) :
    openSlot? b before (filled ++ left) = openSlot? b before left := by
  unfold openSlot?
  rw [List.find?_append, List.find?_eq_none.mpr fun s hs => by simp [h s hs], Option.none_or]

/-! ## Slots that are asked for -/

/-- A prompt for a slot of an activation waits, with some choices. -/
def Asks (e : Engine) (x : ActivationId) (slot : String) (choices : List ChosenTarget) : Prop :=
  ∃ s ∈ e.queue.order, ∃ view p, s.kind = .prompt ⟨view, p, .target x slot choices⟩

/-- A prompt for a slot is a part of the activation that waits. -/
theorem Asks.choose_mem (h : e.Asks x slot choices) : .choose ∈ e.queue.partsOf x := by
  obtain ⟨s, hs, view, p, hkind⟩ := h
  exact StepQueue.mem_partsOf_iff.mpr ⟨s, hs, by rw [hkind]; rfl⟩

theorem not_asks_of_partsOf (h : e.queue.partsOf x = []) : ¬e.Asks x slot choices := fun hasks => by
  simpa [h] using hasks.choose_mem

/-- No prompt for a slot waits that did not wait before. -/
def AsksNoMore (e e' : Engine) : Prop :=
  ∀ s ∈ e'.queue.order, s.kind.asksTarget → s ∈ e.queue.order

theorem AsksNoMore.refl (e : Engine) : e.AsksNoMore e := fun _ hs _ => hs

theorem asksNoMore_of_chain {e' : Engine} (h : Relation.ReflTransGen AsksNoMore e e') :
    e.AsksNoMore e' :=
  link_of_chain .refl (fun h h' s hs hasks => h s (h' s hs hasks) hasks) h

theorem AsksNoMore.asks {e' : Engine} (h : e.AsksNoMore e') (hasks : e'.Asks x slot choices) :
    e.Asks x slot choices := by
  obtain ⟨s, hs, view, p, hkind⟩ := hasks
  exact ⟨s, h s hs (by rw [hkind]; rfl), view, p, hkind⟩

theorem asksNoMore_push {kind : StepKind} (hkind : kind.asksTarget = false) {e' : Engine}
    (hqueue : e'.queue = e.queue.push kind) : e.AsksNoMore e' := by
  intro s hs hasks
  rw [hqueue] at hs
  rcases StepQueue.mem_order_push.mp hs with hs | rfl
  · exact hs
  · simp [hkind] at hasks

theorem asksNoMore_of_order {e' : Engine} (h : e'.queue.order ⊆ e.queue.order) :
    e.AsksNoMore e' := fun _ hs _ => h hs

/-- Only deeds that choose targets let prompts for slots wait. -/
theorem spectates_asksNoMore : Spectates AsksNoMore where
  handles := {
    board := fun _ => .within fun _ _ => asksNoMore_of_order fun _ hs => hs
    post := fun hkind => .bind (.view _) fun _ =>
      .bind (.change fun _ => asksNoMore_push hkind rfl) fun _ => .answer _
    postNext := fun hkind => by
      refine .bind (.view _) fun _ => .bind (.change fun e s hs hasks => ?_) fun _ => .answer _
      rw [StepQueue.order_pushNext] at hs
      rcases List.mem_cons.mp hs with rfl | hs
      · simp [hkind] at hasks
      · exact hs
    unqueue := fun i => .change fun e =>
      asksNoMore_of_order (e.queue.order_withdraw_sublist i).subset
    takeId := .bind (.view _) fun _ => .bind (.change fun _ => .refl _) fun _ => .answer _
    put := fun _ _ _ => .change fun _ => .refl _
    modify := fun _ _ _ => .change fun _ => .refl _
    drop := fun _ => .change fun _ => .refl _
    retractable := fun _ => .change fun _ => .refl _ }
  changes h s hs hasks := by
    rcases h.keeps.steps s hs with hs | ⟨-, honly⟩
    · exact hs
    · -- A prompt for a slot belongs to an activation, and the change is about none.
      obtain ⟨i, kind⟩ := s
      unfold StepKind.asksTarget at hasks
      dsimp only at hasks honly
      split at hasks
      · have hpart := honly.part _ rfl
        simp at hpart
      · simp at hasks
  frame _ horder := asksNoMore_of_order horder

/-- The filling of slots lets a prompt wait at most for the slot at which it stops. -/
theorem asks_fillSlots {slots : List TargetSlot}
    (h : ((fillSlots a y before slots).ends e).2.Asks x slot choices) :
    e.Asks x slot choices ∨
      y = x ∧ ∃ s, openSlot? e.board before slots = some s ∧ s.name = slot ∧
        s.choices e.board before = choices := by
  obtain ⟨e', hend, hfills⟩ := fillSlots_ends e a y before slots
  rw [hend] at h
  cases hfills with
  | resolved chosen _ => exact .inl ((asksNoMore_push (e := e) rfl rfl).asks h)
  | missed chosen _ _ => exact .inl h
  | @asked chosen s hopen _ =>
    obtain ⟨t, ht, view, p, hkind⟩ := h
    rcases StepQueue.mem_order_push.mp ht with ht | rfl
    · exact .inl ⟨t, ht, view, p, hkind⟩
    · simp only [targetPrompt, StepKind.prompt.injEq, Prompt.mk.injEq, Answer.target.injEq] at hkind
      obtain ⟨-, -, rfl, rfl, rfl⟩ := hkind
      exact .inr ⟨rfl, s, hopen, rfl, rfl⟩

/-- An answer lets no further prompt wait. -/
theorem asks_chooseTarget {name : String} {picks : List ChosenTarget} {n : Nat}
    (h : ((chooseTarget y name picks n).ends e).2.Asks x slot choices) : e.Asks x slot choices := by
  unfold chooseTarget at h
  cases hpick : picks[n]? with
  | none =>
    rw [hpick] at h
    exact h
  | some target =>
    rw [hpick] at h
    exact (asksNoMore_push (e := e) rfl rfl).asks h

/-! ## Targets in order -/

/-- The targets of an activation are those of the first slots, in order; no more are asked for than
that of the next slot, and all are there once the stage of their choice is past. -/
structure InOrder (e : Engine) (x : ActivationId) (activation : Activation)
    (slots : List TargetSlot) : Prop where
  split : ∃ filled left, slots = filled ++ left ∧
    activation.targets.map (·.1) = filled.map (·.name) ∧
    (4 ≤ activation.stage.rank → left = []) ∧
    ∀ slot choices, e.Asks x slot choices → left.head?.map (·.name) = some slot

/-- An activation without targets of which nothing waits. -/
theorem inOrder_of_new {activation : Activation} (slots : List TargetSlot)
    (htargets : activation.targets = []) (hstage : activation.stage.rank < 4)
    (hasks : ∀ slot choices, ¬e.Asks x slot choices) : e.InOrder x activation slots :=
  ⟨[], slots, rfl, by simp [htargets], fun hrank => by omega, fun slot choices h =>
    absurd h (hasks slot choices)⟩

/-- What keeps the targets and lets no further prompt wait. -/
theorem InOrder.of_same {e' : Engine} {activation activation' : Activation}
    {slots : List TargetSlot} (h : e.InOrder x activation slots)
    (htargets : activation'.targets = activation.targets)
    (hstage : 4 ≤ activation'.stage.rank → 4 ≤ activation.stage.rank)
    (hasks : ∀ slot choices, e'.Asks x slot choices → e.Asks x slot choices) :
    e'.InOrder x activation' slots := by
  obtain ⟨filled, left, hslots, hfilled, hdone, hnext⟩ := h.split
  exact ⟨filled, left, hslots, by rw [htargets, hfilled], fun hrank => hdone (hstage hrank),
    fun slot choices h => hnext slot choices (hasks slot choices h)⟩

theorem InOrder.finished {activation : Activation} {slots : List TargetSlot}
    (h : e.InOrder x activation slots) : e.finished.InOrder x activation slots := ⟨h.split⟩

/-- The slots that have no target yet are those behind the filled ones. -/
theorem hasTarget_of_split {filled left : List TargetSlot}
    (hnodup : ((filled ++ left).map (·.name)).Nodup)
    (hfilled : before.targets.map (·.1) = filled.map (·.name)) :
    (∀ s ∈ filled, before.hasTarget s.name) ∧ ∀ s ∈ left, ¬before.hasTarget s.name := by
  rw [List.map_append] at hnodup
  refine ⟨fun s hs => ?_, fun s hs hhas => ?_⟩
  · rw [Activation.hasTarget_iff, hfilled]
    exact List.mem_map_of_mem hs
  · rw [Activation.hasTarget_iff, hfilled] at hhas
    exact (List.nodup_append.mp hnodup).2.2 s.name hhas s.name (List.mem_map_of_mem hs) rfl

/-- The filling of slots goes on in order. -/
theorem InOrder.after_fill {after : Activation} (h : e.InOrder x before a.targets)
    (hnodup : (a.targets.map (·.name)).Nodup) (hget : e.activations.get? x = some before)
    (hstage : before.stage = .costsPaid) (hnone : e.queue.partsOf x = [])
    (hget' : ((fillSlots a x before a.targets).ends e).2.activations.get? x = some after) :
    ((fillSlots a x before a.targets).ends e).2.InOrder x after a.targets := by
  obtain ⟨filled, left, hslots, hfilled, -, -⟩ := h.split
  rw [hslots] at hnodup
  obtain ⟨hhas, hhasnot⟩ := hasTarget_of_split hnodup hfilled
  obtain ⟨filled', left', rfl, hfilled', hleft'⟩ := autoFilled_split e.board hhasnot
  -- What is noted now are the names of the slots that follow.
  have htargets := targets_fillSlots a x before a.targets e
  rw [hget, hget', hslots, autoFilled_append hhas] at htargets
  have htargets' : after.targets = before.targets ++ _ := Option.some.inj htargets
  have hopen : openSlot? e.board before a.targets = left'.head? := by
    rw [hslots, openSlot?_append hhas, hleft']
  refine ⟨filled ++ filled', left', by rw [hslots, List.append_assoc], ?_, fun hrank => ?_,
    fun slot choices hasks => ?_⟩
  · rw [htargets', List.map_append, hfilled, hfilled', List.map_append]
  · -- Only where the filling did not stop is the stage past.
    obtain ⟨e', hend, hfills⟩ := fillSlots_ends e a x before a.targets
    rw [hend] at hget'
    have hnoted : ∀ chosen, (e.noted x chosen).activations.get? x =
        some { before with targets := before.targets ++ chosen } := fun chosen =>
      IdMap.get?_modify_self hget _
    cases hfills with
    | resolved chosen hnone =>
      rw [hopen] at hnone
      exact List.head?_eq_none_iff.mp hnone
    | missed chosen _ _ =>
      obtain rfl := Option.some.inj ((IdMap.get?_modify_self (hnoted chosen) _).symm.trans hget')
      simp [hstage, ActivationStage.rank] at hrank
    | asked chosen _ _ =>
      obtain rfl := Option.some.inj ((IdMap.get?_modify_self (hnoted chosen) _).symm.trans hget')
      simp [hstage, ActivationStage.rank] at hrank
  · rcases asks_fillSlots hasks with hold | ⟨-, s, hs, rfl, -⟩
    · exact absurd hold (not_asks_of_partsOf hnone)
    · rw [← hopen, hs]
      rfl

/-- The target that is told is that of the slot that was asked for, which is the next. -/
theorem InOrder.after_pick {n : Nat} {slots : List TargetSlot} {e₀ : Engine}
    (h : e₀.InOrder x before slots) (hasks : e₀.Asks x slot choices)
    (hget : e.activations.get? x = some before)
    (hnone : e.queue.partsOf x = []) {after : Activation}
    (hget' : ((chooseTarget x slot choices n).ends e).2.activations.get? x = some after) :
    ((chooseTarget x slot choices n).ends e).2.InOrder x after slots := by
  have hasked : ∀ slot' choices',
      ¬((chooseTarget x slot choices n).ends e).2.Asks x slot' choices' :=
    fun _ _ h => not_asks_of_partsOf hnone (asks_chooseTarget h)
  unfold Engine.chooseTarget at hget' hasked ⊢
  cases hpick : choices[n]? with
  | none =>
    rw [hpick] at hget' hasked
    obtain rfl := Option.some.inj (hget.symm.trans hget')
    exact h.of_same rfl id fun slot' choices' h => absurd h (hasked slot' choices')
  | some target =>
    rw [hpick] at hget' hasked
    obtain rfl := Option.some.inj ((IdMap.get?_modify_self hget _).symm.trans hget')
    obtain ⟨filled, left, hslots, hfilled, hdone, hnext⟩ := h.split
    obtain ⟨s, hs, rfl⟩ := Option.map_eq_some_iff.mp (hnext slot choices hasks)
    obtain ⟨left', rfl⟩ := List.head?_eq_some_iff.mp hs
    refine ⟨filled ++ [s], left', by simp [hslots], ?_, fun hrank => ?_, fun slot' choices' h =>
      absurd h (hasked slot' choices')⟩
    · simp [Activation.choose, hfilled]
    · simp at hdone
      exact absurd hrank (by simpa [Activation.choose] using hdone)

end Engine

/-! ## Records and their targets -/

/-- What happens to an activation leaves its targets as they are, unless they are being chosen. -/
theorem Advance.targets {admits : AbilityId → Prop} {x x' : Activation} {ps ps' : List Part}
    {o : Option Occurrence} (h : Advance admits (some x) ps o (some x') ps') :
    x'.targets = x.targets ∧ (4 ≤ x'.stage.rank → 4 ≤ x.stage.rank) ∨
      ps = [.choose] ∧ x'.deactivated = x.deactivated := by
  generalize hx : some x = before at h
  generalize hx' : some x' = after at h
  cases h with
  | start | offer | decline => simp at hx hx'
  | skip =>
    obtain rfl := Option.some.inj (hx'.trans hx.symm)
    exact .inl ⟨rfl, id⟩
  | answer b slot t =>
    subst hx
    obtain rfl := Option.some.inj hx'
    exact .inr ⟨rfl, rfl⟩
  | miss | ask | resolve =>
    obtain rfl := Option.some.inj hx
    obtain rfl := Option.some.inj hx'
    exact .inr ⟨rfl, rfl⟩
  | complete hstage =>
    obtain rfl := Option.some.inj hx
    obtain rfl := Option.some.inj hx'
    refine .inl ⟨rfl, fun _ => ?_⟩
    rcases hstage with hstage | hstage <;> simp [hstage, ActivationStage.rank]
  | accept hstage | refuse hstage | pay hstage | retract hstage | execute hstage | conclude hstage
  | announce hstage =>
    obtain rfl := Option.some.inj hx
    obtain rfl := Option.some.inj hx'
    exact .inl ⟨rfl, by simp [hstage, ActivationStage.rank]⟩

namespace Moment

variable {m : Moment} {d : Deed} {x : ActivationId} {activation activation' : Activation}

/-- A deed starts no step that chooses targets of an activation. -/
def Untargeted (m : Moment) (d : Deed) (x : ActivationId) : Prop :=
  ∀ s, m.starts? d = some s → s.kind.part? ≠ some (x, .choose)

/-- A record that a deed enters has no targets, and nothing of it waited. -/
theorem Sound.targets_entered (h : m.Sound) (hready : m.Ready)
    (hnone : m.engine.activations.get? x = none)
    (hget' : (m.after d).engine.activations.get? x = some activation') :
    m.partsOf x = [] ∧ activation'.targets = [] ∧ activation'.stage.rank < 4 := by
  rcases (Moment.passage h d).spared_or_taken x with ⟨usage, mine, hspares, hmine, -, -⟩ |
    ⟨o, hadvance, hentry, -, -⟩
  · have hget := get?_spared (e := { m.engine with usage := usage }) rfl hspares hmine hget'
    simp [hnone] at hget
  · rw [hget', hnone] at hadvance
    have hnil := hadvance.entered
    refine ⟨hnil, ?_⟩
    cases h.files_entered hready hnone hnil (hentry hnone hnil) hget' with
    | played => exact ⟨rfl, by simp [Engine.begun, ActivationStage.rank]⟩
    | @offered _ _ _ _ a =>
      refine ⟨rfl, ?_⟩
      unfold Engine.proposed
      cases a.kind.isForced <;> simp [ActivationStage.rank]
    | accepted _ _ _ _ hget => simp [hnone] at hget
    | paid _ hget => simp [hnone] at hget
    | goes hget => simp [hnone] at hget

/-- Where no targets are chosen a record keeps its targets. -/
theorem Sound.targets_after (h : m.Sound) (hx : m.Untargeted d x)
    (hget : m.engine.activations.get? x = some activation)
    (hget' : (m.after d).engine.activations.get? x = some activation') :
    activation'.targets = activation.targets ∧
      (4 ≤ activation'.stage.rank → 4 ≤ activation.stage.rank) := by
  rcases (Moment.passage h d).spared_or_taken x with ⟨usage, mine, hspares, hmine, -, -⟩ |
    ⟨o, hadvance, -, -, -⟩
  · have hsame := get?_spared (e := { m.engine with usage := usage }) rfl hspares hmine hget'
    obtain rfl := Option.some.inj (hget.symm.trans hsame)
    exact ⟨rfl, id⟩
  · rw [hget', hget] at hadvance
    rcases hadvance.targets with hsame | ⟨hparts, hkept⟩
    · exact hsame
    · -- The step of its choice would be what changes it.
      by_cases hchanged : activation = activation'
      · exact hchanged ▸ ⟨rfl, id⟩
      · obtain ⟨s, hstarts, hpart⟩ := h.starts_of_changed hget hparts (by decide) hget' hchanged
          hkept
        exact absurd hpart (hx s hstarts)

/-- A turn that comes to the choice of targets fills slots, or comes too late for it. -/
theorem fillsSlots_of_starts {i : StepId}
    (hstarts : m.starts? d = some ⟨i, .resolve x .chooseTargets⟩) :
    (∃ before a, m.FillsSlots d x before a) ∨
      ∃ q, m.engine.queue.FrontTaken ⟨i, .resolve x .chooseTargets⟩ q ∧
        (m.after d).engine = ({ m.engine with queue := q } : Engine).finished := by
  cases d with
  | turn =>
    obtain ⟨q, hrunning, hbegin, hafter⟩ := begin?_of_starts hstarts
    have htaken := StepQueue.frontTaken_begin hbegin
    simp only [turn, hbegin, Engine.opening] at hafter
    rw [Engine.asStep_ends, Engine.runStep_kind] at hafter
    by_cases hfound : ∃ before a, m.engine.activations.get? x = some before ∧
        before.isLive ∧ m.engine.ability? before.ability = some a
    · obtain ⟨before, a, hget, hlive, hability⟩ := hfound
      rw [Engine.resolve_live (e := { m.engine with queue := q }) _ hget hlive hability] at hafter
      exact .inl ⟨before, a, hget, hlive, hability, i, q, hstarts, htaken, hafter⟩
    · rw [Engine.resolve_idle (e := { m.engine with queue := q }) _
        fun before a hget hlive hability => hfound ⟨before, a, hget, hlive, hability⟩] at hafter
      exact .inr ⟨q, htaken, by rw [hafter]⟩
  | answer =>
    obtain ⟨_, _, _, -, -, hstep, -⟩ := beginAnswer?_of_starts hstarts
    simp at hstep
  | _ => cases hr : m.running <;> simp [starts?, hr] at hstarts

/-- Where the prompt for a slot starts, a target is told. -/
theorem tellsTarget_of_starts {i : StepId} {view : PromptView} {p : PlayerId} {slot : String}
    {choices : List ChosenTarget}
    (hstarts : m.starts? d = some ⟨i, .prompt ⟨view, p, .target x slot choices⟩⟩) :
    ∃ n, m.TellsTarget d x slot choices n := by
  cases d with
  | answer p' n =>
    obtain ⟨_, prompt, q, hrunning, hbegin, hstep, hn, hafter⟩ := beginAnswer?_of_starts hstarts
    obtain ⟨rfl, hprompt⟩ := Step.mk.inj hstep
    obtain rfl := StepKind.prompt.inj hprompt
    dsimp only at hafter
    rw [Engine.asStep_ends] at hafter
    exact ⟨n, ⟨p', rfl⟩, i, view, p, q, hstarts, hn, StepQueue.frontTaken_beginAnswer hbegin,
      hafter⟩
  | turn =>
    obtain ⟨q, -, hbegin, -⟩ := begin?_of_starts hstarts
    exact absurd hbegin StepQueue.begin?_ne_prompt
  | _ => cases hr : m.running <;> simp [starts?, hr] at hstarts

/-! ## Every deed -/

/-- At every moment the targets that are chosen are those of the first slots, if the names of these
differ. -/
def ChoosesInOrder (m : Moment) : Prop :=
  ∀ x activation a, m.engine.activations.get? x = some activation →
    m.engine.ability? activation.ability = some a → (a.targets.map (·.name)).Nodup →
    m.engine.InOrder x activation a.targets

/-- The step at the front is all that waits to choose targets of its activation. -/
theorem Sound.partsOf_front (h : m.Sound) {s : Step} {q : StepQueue} (hrunning : m.running = none)
    (hpart : s.kind.part? = some (x, .choose)) (htaken : m.engine.queue.FrontTaken s q) :
    q.partsOf x = [] :=
  alone_of_fits_choose (h.fits_front hrunning hpart htaken).2

/-- A deed that chooses no targets of an activation lets no prompt for them wait. -/
theorem Untargeted.asks_after (hx : m.Untargeted d x) {slot : String}
    {choices : List ChosenTarget} (h : (m.after d).engine.Asks x slot choices) :
    m.engine.Asks x slot choices := by
  have hfront : ∀ {s : Step} {q : StepQueue}, m.engine.queue.FrontTaken s q →
      m.engine.AsksNoMore { m.engine with queue := q } := fun htaken =>
    Engine.spectates_asksNoMore.front htaken
  rcases after_spectates Engine.spectates_asksNoMore m d with hchain |
    ⟨y, before, a, hfills⟩ | ⟨y, name, picks, n, htells⟩
  · exact (Engine.asksNoMore_of_chain hchain).asks h
  · obtain ⟨i, q, hstarts, htaken, hafter⟩ := hfills.fills
    rw [hafter] at h
    rcases Engine.asks_fillSlots (e := { m.engine with queue := q }) h with hold | ⟨rfl, -⟩
    · exact (hfront htaken).asks hold
    · exact absurd rfl (hx _ hstarts)
  · obtain ⟨_, _, _, q, -, -, htaken, hafter⟩ := htells.tells
    rw [hafter] at h
    exact (hfront htaken).asks (Engine.asks_chooseTarget (e := { m.engine with queue := q }) h)

/-- What fills slots has its costs paid. -/
theorem FillsSlots.costsPaid {before : Activation} {a : Ability} (h : m.FillsSlots d x before a)
    (hsound : m.Sound) : before.stage = .costsPaid := by
  obtain ⟨i, q, hstarts, htaken, -⟩ := h.fills
  obtain ⟨_, hrunning, -⟩ := frontTaken_of_starts hstarts
  obtain ⟨-, hfits⟩ := hsound.fits_front (x := x) (p := .choose) hrunning rfl htaken
  rw [h.filed] at hfits
  rcases hfits.ahead with hahead | ⟨-, hparts⟩
  · exact costsPaid_of_live h.live (follows_of_ahead hahead).1
  · simp at hparts

/-- The filling of slots goes on in order. -/
theorem FillsSlots.inOrder {before after : Activation} {a : Ability}
    (h : m.FillsSlots d x before a) (hsound : m.Sound)
    (horder : m.engine.InOrder x before a.targets) (hnodup : (a.targets.map (·.name)).Nodup)
    (hget' : (m.after d).engine.activations.get? x = some after) :
    (m.after d).engine.InOrder x after a.targets := by
  obtain ⟨i, q, hstarts, htaken, hafter⟩ := h.fills
  obtain ⟨_, hrunning, -⟩ := frontTaken_of_starts hstarts
  have hnone := hsound.partsOf_front (x := x) hrunning rfl htaken
  have hbefore : ({ m.engine with queue := q } : Engine).InOrder x before a.targets :=
    horder.of_same rfl id fun _ _ hasks => absurd hasks (Engine.not_asks_of_partsOf hnone)
  rw [hafter] at hget' ⊢
  exact (hbefore.after_fill hnodup h.filed (h.costsPaid hsound) hnone hget').finished

/-- A target that is told is noted in order. -/
theorem TellsTarget.inOrder {slot : String} {choices : List ChosenTarget} {n : Nat}
    {slots : List TargetSlot} (h : m.TellsTarget d x slot choices n) (hsound : m.Sound)
    (hget : m.engine.activations.get? x = some activation)
    (horder : m.engine.InOrder x activation slots)
    (hget' : (m.after d).engine.activations.get? x = some activation') :
    (m.after d).engine.InOrder x activation' slots := by
  obtain ⟨i, view, p, q, hstarts, -, htaken, hafter⟩ := h.tells
  obtain ⟨_, hrunning, -⟩ := frontTaken_of_starts hstarts
  have hnone := hsound.partsOf_front (x := x) hrunning rfl htaken
  have hasks : m.engine.Asks x slot choices :=
    ⟨_, mem_order_of_starts hstarts, view, p, rfl⟩
  rw [hafter] at hget' ⊢
  exact (horder.after_pick (e := { m.engine with queue := q }) hasks hget hnone hget').finished

/-- A step of the choice of targets is one that fills slots, or a prompt for a slot. -/
theorem choose_forms {kind : StepKind} (h : kind.part? = some (x, .choose)) :
    kind = .resolve x .chooseTargets ∨
      ∃ view p slot choices, kind = .prompt ⟨view, p, .target x slot choices⟩ := by
  unfold StepKind.part? at h
  split at h <;> simp at h
  · exact .inl (by rw [h])
  · exact .inr ⟨_, _, _, _, by rw [h]⟩

/-- Every deed keeps to the order of the slots. -/
theorem ChoosesInOrder.after (h : m.ChoosesInOrder) (hreached : m.Reached) (d : Deed) :
    (m.after d).ChoosesInOrder := by
  intro x activation' a hget' hability' hnodup
  have hsound := hreached.sound
  cases hget : m.engine.activations.get? x with
  | none =>
    obtain ⟨hnil, htargets, hstage⟩ := hsound.targets_entered hreached.ready hget hget'
    have hx : m.Untargeted d x := fun s hstarts => part?_of_starts hstarts hnil _
    refine Engine.inOrder_of_new _ htargets hstage fun slot choices hasks => ?_
    obtain ⟨s, hs, view, p, hkind⟩ := hx.asks_after hasks
    have hpart := mem_partsOf_of_order (p := .choose) (x := x) hs (by rw [hkind]; rfl)
    simp [hnil] at hpart
  | some activation =>
    have hfiles := hsound.files hreached.ready hget'
    obtain ⟨hsame, -, -⟩ := hsound.files_of_filed hget hfiles
    have hability : m.engine.ability? activation.ability = some a :=
      hreached.sourced.ability_after hsound hget (hsame ▸ hability')
    have horder := h x activation a hget hability hnodup
    by_cases hx : m.Untargeted d x
    · obtain ⟨htargets, hstage⟩ := hsound.targets_after hx hget hget'
      exact horder.of_same htargets hstage fun _ _ => hx.asks_after
    · unfold Untargeted at hx
      push Not at hx
      obtain ⟨⟨i, kind⟩, hstarts, hpart⟩ := hx
      rcases choose_forms hpart with rfl | ⟨view, p, slot, choices, rfl⟩
      · rcases fillsSlots_of_starts hstarts with ⟨before, a', hfills⟩ | ⟨q, htaken, hafter⟩
        · obtain rfl := Option.some.inj (hget.symm.trans hfills.filed)
          obtain rfl := Option.some.inj (hability.symm.trans hfills.ability)
          exact hfills.inOrder hsound horder hnodup hget'
        · -- It comes too late, and only the step is gone.
          rw [hafter] at hget' ⊢
          obtain rfl := Option.some.inj (hget.symm.trans hget')
          refine (horder.of_same rfl id fun slot choices hasks => ?_).finished
          exact (Engine.spectates_asksNoMore.front htaken).asks hasks
      · obtain ⟨n, htells⟩ := tellsTarget_of_starts hstarts
        exact htells.inOrder hsound hget horder hget'

theorem Reached.inOrder {a : Ability} (h : m.Reached)
    (hget : m.engine.activations.get? x = some activation)
    (hability : m.engine.ability? activation.ability = some a)
    (hnodup : (a.targets.map (·.name)).Nodup) : m.engine.InOrder x activation a.targets := by
  have hall : m.ChoosesInOrder := by
    refine h.invariant (fun b => ?_) fun hreached hall d => hall.after hreached d
    intro x activation a hget
    simp [start, Engine.new, IdMap.get?_empty] at hget
  exact hall x activation a hget hability hnodup

end Moment

end Doomtown
