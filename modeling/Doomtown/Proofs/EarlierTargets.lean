import Doomtown.Proofs.FilledSlots

/-!
# What later slots see of earlier targets

The filters of all slots that one step fills get the record as it was when the step began. The
targets that were noted by then are in it, those that the player picked among them. A target that
the step itself notes is not, though it is that of an earlier slot. So a filter sees the target of
an earlier slot if and only if another deed noted it (`Moment.earlier_target_seen_iff`).
-/

namespace Doomtown

open Play

namespace Moment

variable {m : Moment} {d : Deed} {x : ActivationId} {activation activation' : Activation}

/-! ## Targets are kept -/

/-- What a deed fills by itself is added to the targets. -/
theorem FillsSlots.targets {before : Activation} {a : Ability} (h : m.FillsSlots d x before a) :
    ∃ after, (m.after d).engine.activations.get? x = some after ∧
      after.targets = before.targets ++ Engine.autoFilled m.engine.board before a.targets := by
  obtain ⟨_, q, -, -, hafter⟩ := h.fills
  have htargets := Engine.targets_fillSlots a x before a.targets { m.engine with queue := q }
  rw [show ({ m.engine with queue := q } : Engine).activations.get? x = some before from h.filed,
    Option.map_some] at htargets
  obtain ⟨after, hget', hafter'⟩ := Option.map_eq_some_iff.mp htargets
  exact ⟨after, by rw [hafter]; exact hget', hafter'⟩

/-- What is told is added to the targets. -/
theorem TellsTarget.targets {slot : String} {choices : List ChosenTarget} {n : Nat}
    {t : ChosenTarget} (h : m.TellsTarget d x slot choices n) (hpick : choices[n]? = some t)
    (hget : m.engine.activations.get? x = some activation)
    (hget' : (m.after d).engine.activations.get? x = some activation') :
    activation'.targets = activation.targets ++ [(slot, t)] := by
  obtain ⟨_, _, _, q, -, -, -, hafter⟩ := h.tells
  rw [hafter] at hget'
  unfold Engine.chooseTarget at hget'
  rw [hpick] at hget'
  obtain rfl := Option.some.inj ((IdMap.get?_modify_self hget _).symm.trans hget')
  rfl

/-- No target of a record is lost by a deed. -/
theorem Sound.targets_grow (h : m.Sound) (hget : m.engine.activations.get? x = some activation)
    (hget' : (m.after d).engine.activations.get? x = some activation') :
    activation.targets <+: activation'.targets := by
  by_cases hx : m.Untargeted d x
  · have hsame : activation'.targets = activation.targets := (h.targets_after hx hget hget').1
    exact hsame ▸ List.prefix_rfl
  · unfold Untargeted at hx
    push Not at hx
    obtain ⟨⟨i, kind⟩, hstarts, hpart⟩ := hx
    rcases choose_forms hpart with rfl | ⟨view, p, slot, choices, rfl⟩
    · rcases fillsSlots_of_starts hstarts with ⟨before, a, hfills⟩ | ⟨q, -, hafter⟩
      · obtain ⟨after, hafter, htargets⟩ := hfills.targets
        obtain rfl := Option.some.inj (hget.symm.trans hfills.filed)
        obtain rfl := Option.some.inj (hget'.symm.trans hafter)
        rw [htargets]
        exact List.prefix_append _ _
      · rw [hafter] at hget'
        obtain rfl := Option.some.inj (hget.symm.trans hget')
        exact List.prefix_rfl
    · obtain ⟨n, htells⟩ := tellsTarget_of_starts hstarts
      cases hpick : choices[n]? with
      | some t =>
        rw [htells.targets hpick hget hget']
        exact List.prefix_append _ _
      | none =>
        obtain ⟨_, _, _, q, -, -, -, hafter⟩ := htells.tells
        rw [hafter] at hget'
        unfold Engine.chooseTarget at hget'
        rw [hpick] at hget'
        obtain rfl := Option.some.inj (hget.symm.trans hget')
        exact List.prefix_rfl

/-- What is filed after some deeds was filed before them, if its number was given by then. -/
theorem Sound.filed_before (h : m.Sound) (hnumber : x.number < m.engine.nextActivation)
    {ds : List Deed} (hget' : (m.run ds).engine.activations.get? x = some activation') :
    ∃ activation, m.engine.activations.get? x = some activation := by
  cases hget : m.engine.activations.get? x with
  | some activation => exact ⟨activation, rfl⟩
  | none =>
    exact (h.filed_run (P := fun _ => False) (fun _ => id) hnumber
      (fun activation hfiled => by simp [hget] at hfiled) ds activation' hget').elim

/-- No target of a record is lost in a run. -/
theorem Sound.targets_grow_run (h : m.Sound) (hget : m.engine.activations.get? x = some activation)
    {ds : List Deed} (hget' : (m.run ds).engine.activations.get? x = some activation') :
    activation.targets <+: activation'.targets := by
  induction ds generalizing m activation with
  | nil =>
    obtain rfl := Option.some.inj (hget.symm.trans hget')
    exact List.prefix_rfl
  | cons d ds ih =>
    have hnumber : x.number < (m.after d).engine.nextActivation := by
      refine Nat.lt_of_lt_of_le ?_ (Moment.passage h d).numbers
      by_contra hge
      simp [(h.fresh x (Nat.le_of_not_lt hge)).1] at hget
    obtain ⟨middle, hmiddle⟩ := (h.after d).filed_before hnumber hget'
    exact (h.targets_grow hget hmiddle).trans (ih (h.after d) hmiddle hget')

/-! ## What a deed notes -/

/-- A deed notes a target of an activation, that was not noted before. -/
def Notes (m : Moment) (d : Deed) (x : ActivationId) (t : String × ChosenTarget) : Prop :=
  (∃ after, (m.after d).engine.activations.get? x = some after ∧ t ∈ after.targets) ∧
    ∀ before, m.engine.activations.get? x = some before → t ∉ before.targets

/-- What a record has was noted by a deed of the run. -/
theorem noted_of_mem {b : Board} {ds : List Deed} {t : String × ChosenTarget}
    (hget : ((start b).run ds).engine.activations.get? x = some activation)
    (ht : t ∈ activation.targets) :
    ∃ past d rest, ds = past ++ d :: rest ∧ ((start b).run past).Notes d x t := by
  induction ds using List.reverseRecOn generalizing activation with
  | nil => simp [run, start, Engine.new, IdMap.get?_empty] at hget
  | append_singleton ds d ih =>
    rw [run_append] at hget
    by_cases hold : ∃ before, ((start b).run ds).engine.activations.get? x = some before ∧
        t ∈ before.targets
    · obtain ⟨before, hbefore, ht'⟩ := hold
      obtain ⟨past, d', rest, rfl, hnotes⟩ := ih hbefore ht'
      exact ⟨past, d', rest ++ [d], by simp, hnotes⟩
    · exact ⟨ds, d, [], rfl, ⟨activation, hget, ht⟩, fun before hbefore ht' =>
        hold ⟨before, hbefore, ht'⟩⟩

/-- What a deed of a run has noted stays in the record. -/
theorem Notes.mem {ds : List Deed} {t : String × ChosenTarget} (h : m.Notes d x t)
    (hsound : m.Sound) (hget : (m.run (d :: ds)).engine.activations.get? x = some activation) :
    t ∈ activation.targets := by
  obtain ⟨⟨after, hafter, ht⟩, -⟩ := h
  exact ((hsound.after d).targets_grow_run hafter hget).subset ht

/-- A target that is told stays in the record. -/
theorem TellsTarget.mem {slot : String} {choices : List ChosenTarget} {n : Nat}
    {t : ChosenTarget} (h : m.TellsTarget d x slot choices n) (hpick : choices[n]? = some t)
    (hsound : m.Sound) {ds : List Deed}
    (hget : (m.run (d :: ds)).engine.activations.get? x = some activation) :
    (slot, t) ∈ activation.targets := by
  -- The prompt that is answered belongs to what has a number already.
  have hnumber : x.number < m.engine.nextActivation := by
    by_contra hge
    obtain ⟨_, _, _, _, hstarts, -⟩ := h.tells
    exact part?_of_starts hstarts (hsound.fresh x (Nat.le_of_not_lt hge)).2 .choose rfl
  obtain ⟨before, hbefore⟩ := hsound.filed_before hnumber hget
  obtain ⟨after, hafter⟩ := (hsound.after d).filed_before
    (Nat.lt_of_lt_of_le hnumber (Moment.passage hsound d).numbers) hget
  refine ((hsound.after d).targets_grow_run hafter hget).subset ?_
  rw [h.targets hpick hbefore hafter]
  simp

/-! ## What the filter of a slot gets -/

/-- What a deed does about a slot is settled by the choices that the slot has with a record. -/
structure GoesBy (m : Moment) (d : Deed) (x : ActivationId) (slot : TargetSlot)
    (record : Activation) : Prop where
  none : slot.choices m.engine.board record = [] →
    ∃ after, (m.after d).engine.activations.get? x = some after ∧ after.cancelled
  one : ∀ t, slot.choices m.engine.board record = [t] → m.Notes d x (slot.name, t)
  several : 1 < (slot.choices m.engine.board record).length →
    (m.after d).engine.Asks x slot.name (slot.choices m.engine.board record)

end Moment

/-- What slots take by themselves is taken up to the first that does not. -/
theorem Engine.mem_autoFilled_of_passes {b : Board} {before : Activation} {slot : TargetSlot}
    {t : ChosenTarget} :
    ∀ {slots later : List TargetSlot},
      (∀ s ∈ slots, before.hasTarget s.name ∨ (s.choices b before).length = 1) → slot ∈ slots →
      ¬before.hasTarget slot.name → slot.choices b before = [t] →
      (slot.name, t) ∈ autoFilled b before (slots ++ later)
  | s :: rest, later, hpasses, hslot, hhas, hchoices => by
    have hlater : slot ∈ rest → (slot.name, t) ∈ autoFilled b before (rest ++ later) := fun hrest =>
      mem_autoFilled_of_passes (fun s hs => hpasses s (List.mem_cons_of_mem _ hs)) hrest hhas
        hchoices
    rw [List.cons_append, autoFilled]
    rcases List.mem_cons.mp hslot with rfl | hrest
    · rw [if_neg hhas, hchoices]
      exact List.mem_cons_self
    · split
      · exact hlater hrest
      · rename_i hnot
        obtain ⟨target, hone⟩ :=
          List.length_eq_one_iff.mp ((hpasses s List.mem_cons_self).resolve_left hnot)
        rw [hone]
        exact List.mem_cons_of_mem _ (hlater hrest)

namespace Moment

variable {m : Moment} {d : Deed} {x : ActivationId}

section Slots

variable {before : Activation} {a : Ability} {earlier : List TargetSlot} {slot : TargetSlot}

theorem not_mem_targets {name : String} {t : ChosenTarget} (h : ¬before.hasTarget name) :
    (name, t) ∉ before.targets := fun ht =>
  h (Activation.hasTarget_iff.mpr (List.mem_map_of_mem (f := (·.1)) ht))

/-- A slot that gets its target as a deed fills slots gets it by its only choice. -/
theorem FillsSlots.notes_of_passes {slots later : List TargetSlot} {s : TargetSlot}
    {t : ChosenTarget} (h : m.FillsSlots d x before a) (hslots : a.targets = slots ++ later)
    (hpasses : ∀ s ∈ slots, before.hasTarget s.name ∨
      (s.choices m.engine.board before).length = 1)
    (hs : s ∈ slots) (hhas : ¬before.hasTarget s.name)
    (hchoices : s.choices m.engine.board before = [t]) : m.Notes d x (s.name, t) := by
  obtain ⟨after, hafter, htargets⟩ := h.targets
  refine ⟨⟨after, hafter, ?_⟩, fun before' hbefore' => ?_⟩
  · rw [htargets, hslots]
    exact List.mem_append_right _ (Engine.mem_autoFilled_of_passes hpasses hs hhas hchoices)
  · obtain rfl := Option.some.inj (h.filed.symm.trans hbefore')
    exact not_mem_targets hhas

/-- The filter of a slot that a deed comes to gets the record as it was before the deed. -/
theorem ComesTo.goesBy (h : m.ComesTo d x before a earlier slot) : m.GoesBy d x slot before where
  none hnone := h.cancelled hnone
  one t hone := by
    obtain ⟨later, hslots⟩ := h.slots
    have hsplit : a.targets = (earlier ++ [slot]) ++ later := by simp [hslots]
    refine h.fills.notes_of_passes hsplit (fun s hs => ?_) (by simp) h.unfilled hone
    rcases List.mem_append.mp hs with hs | hs
    · exact h.passes s hs
    · obtain rfl := List.mem_singleton.mp hs
      exact .inr (by simp [hone])
  several hmore := by
    obtain ⟨later, hslots⟩ := h.slots
    obtain ⟨_, q, -, -, hafter⟩ := h.fills.fills
    have hopen := h.openSlot (by omega)
    obtain ⟨e', hend, hfills⟩ :=
      Engine.fillSlots_ends { m.engine with queue := q } a x before a.targets
    rw [hafter, hend]
    cases hfills with
    | resolved _ hresolved => exact absurd (hopen.symm.trans hresolved) (by simp)
    | missed _ hmissed hnone =>
      obtain rfl := Option.some.inj (hopen.symm.trans hmissed)
      simp [hnone] at hmore
    | asked _ hasked _ =>
      obtain rfl := Option.some.inj (hopen.symm.trans hasked)
      exact ⟨_, StepQueue.mem_order_push.mpr (.inr rfl), _, _, rfl⟩

/-- A deed that fills slots notes a target for one of a name only if no target had that name. -/
theorem FillsSlots.not_hasTarget_of_notes {name : String} {t : ChosenTarget}
    (h : m.FillsSlots d x before a) (hnotes : m.Notes d x (name, t)) : ¬before.hasTarget name := by
  obtain ⟨after, hafter, htargets⟩ := h.targets
  obtain ⟨⟨after', hafter', ht⟩, hnew⟩ := hnotes
  obtain rfl := Option.some.inj (hafter.symm.trans hafter')
  rw [htargets] at ht
  rcases List.mem_append.mp ht with ht | ht
  · exact absurd ht (hnew before h.filed)
  · obtain ⟨s, -, hname, hhas, -⟩ := mem_autoFilled ht
    obtain rfl : s.name = name := hname
    exact hhas

end Slots

/-- When a deed that fills slots comes to a slot, the filter of the slot gets the record as it was
before the deed. All targets that were told before are in it. The target of an earlier slot is in it
if and only if a deed of the past noted it; if it is not in it, then the deed itself notes it. -/
theorem earlier_target_seen_iff (b : Board) (ds : List Deed) (d : Deed) (x : ActivationId)
    (before : Activation) (a : Ability) (earlier : List TargetSlot) (slot : TargetSlot)
    (h : ((start b).run ds).ComesTo d x before a earlier slot) :
    ((start b).run ds).GoesBy d x slot before ∧
      (∀ past d' rest name choices n t, ds = past ++ d' :: rest →
        ((start b).run past).TellsTarget d' x name choices n → choices[n]? = some t →
        (name, t) ∈ before.targets) ∧
      ∀ s ∈ earlier,
        (before.hasTarget s.name ↔ ∃ past d' rest t, ds = past ++ d' :: rest ∧
          ((start b).run past).Notes d' x (s.name, t)) ∧
        (¬before.hasTarget s.name ↔ ∃ t, ((start b).run ds).Notes d x (s.name, t)) := by
  have hpast : ∀ past d' rest, ds = past ++ d' :: rest →
      (((start b).run past).run (d' :: rest)).engine.activations.get? x = some before := by
    rintro past d' rest rfl
    rw [← run_append]
    exact h.fills.filed
  refine ⟨h.goesBy, fun past d' rest name choices n t hds htells hpick => ?_, fun s hs => ⟨?_, ?_⟩⟩
  · exact htells.mem hpick ((sound_start b).run past) (hpast past d' rest hds)
  · refine ⟨fun hhas => ?_, fun ⟨past, d', rest, t, hds, hnotes⟩ => ?_⟩
    · obtain ⟨t, ht, hname⟩ := List.mem_map.mp (Activation.hasTarget_iff.mp hhas)
      obtain ⟨past, d', rest, hds, hnotes⟩ := noted_of_mem h.fills.filed ht
      exact ⟨past, d', rest, t.2, hds, by rwa [← hname]⟩
    · have ht := hnotes.mem ((sound_start b).run past) (hpast past d' rest hds)
      exact Activation.hasTarget_iff.mpr (List.mem_map_of_mem (f := (·.1)) ht)
  · refine ⟨fun hhas => ?_, fun ⟨t, hnotes⟩ => h.fills.not_hasTarget_of_notes hnotes⟩
    obtain ⟨later, hslots⟩ := h.slots
    obtain ⟨t, hone⟩ := List.length_eq_one_iff.mp ((h.passes s hs).resolve_left hhas)
    exact ⟨t, h.fills.notes_of_passes hslots h.passes hs hhas hone⟩

/-- The deed has an action that is aimed at two cards in play, the second not the first. There is
one card, and it is taken for both. -/
def sameCardTwice : List Deed :=
  [.call (.attach ⟨3⟩ {
      kind := .action
      targets := [⟨"first", .cards .playArea fun _ _ _ => true⟩,
        ⟨"second", .cards .playArea fun _ record card =>
          record.targetCard? "first" ≠ some card.id⟩]
      handler := some fun _ => .done }),
    .call (.order (.activate ⟨0⟩ ⟨0⟩)), .turn]

/-- The second slot is come to with a record that has no target for the first. -/
theorem comesTo_sameCardTwice :
    ∃ before a first second,
      ((start deedInPlay).run sameCardTwice).ComesTo .turn ⟨0⟩ before a [first] second ∧
        ¬before.hasTarget first.name := by
  let m := (start deedInPlay).run sameCardTwice
  have hstarts : m.starts? .turn = some ⟨⟨1⟩, .resolve ⟨0⟩ .chooseTargets⟩ := rfl
  have hlive : ¬∃ q, m.engine.queue.FrontTaken ⟨⟨1⟩, .resolve ⟨0⟩ .chooseTargets⟩ q ∧
      (m.after .turn).engine = ({ m.engine with queue := q } : Engine).finished := by
    rintro ⟨q, -, hafter⟩
    have hsame := congrArg (fun e => (e.activations.get? ⟨0⟩).map (·.stage)) hafter
    revert hsame
    show ((m.after .turn).engine.activations.get? ⟨0⟩).map (·.stage) ≠
      (m.engine.activations.get? ⟨0⟩).map (·.stage)
    decide +kernel
  obtain ⟨before, a, hfills⟩ := (fillsSlots_of_starts hstarts).resolve_right hlive
  have hslots : (m.engine.activations.get? ⟨0⟩).any (fun before =>
      (m.engine.ability? before.ability).any fun a => a.targets.length = 2 &&
        a.targets.all fun slot => !before.hasTarget slot.name &&
          slot.choices m.engine.board before = [.card ⟨3⟩]) = true := by
    decide +kernel
  rw [hfills.filed, Option.any_some, hfills.ability, Option.any_some, Bool.and_eq_true,
    decide_eq_true_eq, List.all_eq_true] at hslots
  obtain ⟨htwo, hall⟩ := hslots
  obtain ⟨first, second, htargets⟩ := List.length_eq_two.mp htwo
  have hslot : ∀ slot ∈ a.targets, ¬before.hasTarget slot.name ∧
      slot.choices m.engine.board before = [.card ⟨3⟩] := fun slot hslot => by
    simpa using hall slot hslot
  refine ⟨before, a, first, second, ⟨hfills, ?_, ⟨[], htargets⟩, fun s hs => .inr ?_⟩, ?_⟩
  · exact (hslot second (by simp [htargets])).1
  · obtain rfl := List.mem_singleton.mp hs
    rw [show s.choices _ before = [.card ⟨3⟩] from (hslot s (by simp [htargets])).2]
    simp
  · exact (hslot first (by simp [htargets])).1

theorem earlier_target_seen_iff_sameCardTwice :
    ∃ before a first second,
      ((start deedInPlay).run sameCardTwice).ComesTo .turn ⟨0⟩ before a [first] second ∧
      ((start deedInPlay).run sameCardTwice).GoesBy .turn ⟨0⟩ second before ∧
      (∃ t, ((start deedInPlay).run sameCardTwice).Notes .turn ⟨0⟩ (first.name, t)) ∧
      (((start deedInPlay).run (sameCardTwice ++ [.turn])).engine.activations.get? ⟨0⟩).map
        (·.targets) = some [("first", .card ⟨3⟩), ("second", .card ⟨3⟩)] := by
  obtain ⟨before, a, first, second, hcomes, hunseen⟩ := comesTo_sameCardTwice
  obtain ⟨hgoes, -, hearlier⟩ :=
    earlier_target_seen_iff deedInPlay sameCardTwice .turn ⟨0⟩ before a [first] second hcomes
  exact ⟨before, a, first, second, hcomes, hgoes,
    (hearlier first List.mem_cons_self).2.mp hunseen, by decide +kernel⟩

/-- The filter of a slot need not see the targets of all earlier slots. -/
theorem earlier_target_not_seen_sameCardTwice :
    ¬∀ (b : Board) (ds : List Deed) (d : Deed) (x : ActivationId) (before : Activation)
      (a : Ability) (earlier : List TargetSlot) (slot : TargetSlot),
      ((start b).run ds).ComesTo d x before a earlier slot →
      ∀ s ∈ earlier, before.hasTarget s.name := by
  intro h
  obtain ⟨before, a, first, second, hcomes, hunseen⟩ := comesTo_sameCardTwice
  exact hunseen (h deedInPlay sameCardTwice .turn ⟨0⟩ before a [first] second hcomes first
    List.mem_cons_self)

end Moment

end Doomtown
