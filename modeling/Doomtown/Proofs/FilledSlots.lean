import Doomtown.Proofs.SlotFilling
import Doomtown.Proofs.TargetChoice

/-!
# Every slot has its target

When the effect of an activation starts, all slots of its ability have got their targets, one each
and in order, and each was legal when its slot was filled by itself or asked for. An activation that
comes to a slot without a choice ends there (`Moment.slots_filled`).
-/

namespace Doomtown

open Play

namespace Moment

variable {m : Moment} {d : Deed} {x : ActivationId} {activation activation' : Activation}

/-! ## What an effect starts with -/

/-- A record that is filed goes on with its ability. -/
theorem Sound.ability_run (h : m.Sound) (hget : m.engine.activations.get? x = some activation)
    (ds : List Deed) (hget' : (m.run ds).engine.activations.get? x = some activation') :
    activation'.ability = activation.ability := by
  have hnumber : x.number < m.engine.nextActivation := by
    by_contra hge
    simp [(h.fresh x (Nat.le_of_not_lt hge)).1] at hget
  refine h.filed_run (P := (·.ability = activation.ability)) (fun hadvance hsame => ?_) hnumber
    (fun before hfiled => ?_) ds activation' hget'
  · rcases hadvance.carries with hcarries | ⟨_, -, -, rfl⟩ | ⟨_, -, -, rfl⟩
    · exact hcarries.ability.trans hsame
    · exact hsame
    · exact hsame
  · rw [Option.some.inj (hget.symm.trans hfiled)]

/-- An effect starts for an activation whose targets are all chosen. -/
theorem resolved_of_advance {admits : AbilityId → Prop} {a a' : Option Activation}
    {ps ps' : List Part} (h : Advance admits a ps (some .effect) a' ps') :
    ∃ activation, a = some activation ∧ activation.stage = .targetsResolved := by
  cases h with
  | execute hstage => exact ⟨_, rfl, hstage⟩

/-- The ability of an effect that starts exists. -/
theorem ability_of_effect (hd : m.occurrence .turn = some (x, .effect)) :
    ∃ activation a, m.engine.activations.get? x = some activation ∧
      m.engine.ability? activation.ability = some a := by
  unfold occurrence at hd
  split at hd
  · obtain ⟨⟨⟨i, kind⟩, q⟩, -, hkind⟩ := Option.bind_eq_some_iff.mp hd
    unfold Engine.occurrence at hkind
    dsimp only at hkind
    split at hkind
    · split at hkind <;> simp at hkind
    · rename_i y
      obtain ⟨r, hopening, hx⟩ := Option.map_eq_some_iff.mp hkind
      obtain ⟨rfl, -⟩ := Prod.mk.inj hx
      rcases Engine.opening_cases hopening with ⟨_, _, hkind, -⟩ | ⟨_, _, hkind, -⟩ |
        ⟨y', activation, a, hkind, hget, hability, -⟩
      · simp at hkind
      · simp at hkind
      · obtain ⟨rfl, -⟩ := StepKind.resolve.inj hkind
        exact ⟨activation, a, hget, hability⟩
    · simp at hkind
    · simp at hkind
  · simp at hd
  · simp at hd

/-- Slots of different names are told apart by their names. -/
theorem slot_eq {slots : List TargetSlot} (hnodup : (slots.map (·.name)).Nodup) {s s' : TargetSlot}
    (hs : s ∈ slots) (hs' : s' ∈ slots) (hname : s.name = s'.name) : s = s' :=
  List.inj_on_of_nodup_map hnodup hs hs' hname

/-- A target that a slot takes by itself is its only choice. -/
theorem mem_autoFilled {b : Board} {before : Activation} {t : String × ChosenTarget} :
    ∀ {slots : List TargetSlot}, t ∈ Engine.autoFilled b before slots →
      ∃ s ∈ slots, s.name = t.1 ∧ ¬before.hasTarget s.name ∧ s.choices b before = [t.2]
  | [], ht => by simp [Engine.autoFilled] at ht
  | slot :: rest, ht => by
    have hlater : t ∈ Engine.autoFilled b before rest → ∃ s ∈ slot :: rest, s.name = t.1 ∧
        ¬before.hasTarget s.name ∧ s.choices b before = [t.2] := fun ht => by
      obtain ⟨s, hs, hsettled⟩ := mem_autoFilled ht
      exact ⟨s, List.mem_cons_of_mem _ hs, hsettled⟩
    rw [Engine.autoFilled] at ht
    split at ht
    · exact hlater ht
    · rename_i hhas
      split at ht
      · rename_i target hchoices
        rcases List.mem_cons.mp ht with rfl | ht
        · exact ⟨slot, List.mem_cons_self, rfl, hhas, hchoices⟩
        · exact hlater ht
      · simp at ht

/-- The first of some deeds begins to fill slots while a slot is without a target, and settles which
it may get: the only choice that it has then, which is noted at once, or one of several, of which
the player is asked to pick one. From then on the target stays noted or on the prompt. -/
structure Settles (m : Moment) (d : Deed) (rest : List Deed) (x : ActivationId)
    (before : Activation) (a : Ability) (slot : TargetSlot) (target : ChosenTarget) : Prop where
  fills : m.FillsSlots d x before a
  unfilled : ¬before.hasTarget slot.name
  legal : target ∈ slot.choices m.engine.board before
  settled : slot.choices m.engine.board before = [target] ∧
      (∃ after, (m.after d).engine.activations.get? x = some after ∧
        (slot.name, target) ∈ after.targets) ∨
    (m.after d).engine.Asks x slot.name (slot.choices m.engine.board before)
  captures : m.Captures d rest x (slot.name, target)

/-- What captures a target settles the slot of its name. -/
theorem Captures.settles {rest : List Deed} {t : String × ChosenTarget} {a : Ability}
    {slot : TargetSlot} (h : m.Captures d rest x t) (hnodup : (a.targets.map (·.name)).Nodup)
    (hslot : slot ∈ a.targets) (hname : t.1 = slot.name)
    (hability : ∀ before a', m.engine.activations.get? x = some before →
      m.engine.ability? before.ability = some a' → a' = a) :
    ∃ before, m.Settles d rest x before a slot t.2 := by
  obtain ⟨⟨i, hstarts⟩, -⟩ := h.finds
  have hreach : (m.after d).engine.InReach x t := h.stays [] List.nil_prefix
  rcases fillsSlots_of_starts hstarts with ⟨before, a', hfills⟩ | ⟨q, htaken, hafter⟩
  · obtain rfl := hability before a' hfills.filed hfills.ability
    refine ⟨before, ?_⟩
    obtain ⟨_, q, -, htaken, hafter⟩ := hfills.fills
    -- The slot is the one of its name, whichever way the target came in reach.
    have hsame : ∀ s ∈ a'.targets, s.name = t.1 → s = slot := fun s hs hst =>
      slot_eq hnodup hs hslot (hst.trans hname)
    have hcaptures : m.Captures d rest x (slot.name, t.2) := by
      rw [← hname]
      exact h
    rcases hreach with ⟨after, hget', ht⟩ | ⟨s, hs, view, p, choices, hkind, ht⟩
    · have htargets := Engine.targets_fillSlots a' x before a'.targets { m.engine with queue := q }
      have hget'' := hget'
      rw [hafter] at hget''
      change ((Engine.fillSlots a' x before a'.targets).ends _).2.activations.get? x = _ at hget''
      rw [hget'', show ({ m.engine with queue := q } : Engine).activations.get? x = some before from
        hfills.filed] at htargets
      have htargets' : after.targets = before.targets ++ _ := Option.some.inj htargets
      rw [htargets'] at ht
      rcases List.mem_append.mp ht with ht | ht
      · exact absurd (.inl ⟨before, hfills.filed, ht⟩) h.new
      · obtain ⟨s, hs, hst, hhas, hchoices⟩ := mem_autoFilled ht
        obtain rfl := hsame s hs hst
        refine ⟨hfills, hhas, by simp [hchoices], .inl ⟨hchoices, after, hget', ?_⟩, hcaptures⟩
        rw [htargets', ← hname]
        exact List.mem_append_right _ ht
    · have hasks : (m.after d).engine.Asks x t.1 choices := ⟨s, hs, view, p, hkind⟩
      have hasks' := hasks
      rw [hafter] at hasks'
      rcases Engine.asks_fillSlots (e := { m.engine with queue := q }) hasks' with
        hold | ⟨-, s', hopen, hst, rfl⟩
      · obtain ⟨s, hs, view, p, hkind⟩ := (Engine.spectates_asksNoMore.front htaken).asks hold
        exact absurd (.inr ⟨s, hs, view, p, choices, hkind, ht⟩) h.new
      · obtain rfl := hsame s' (List.mem_of_find?_eq_some hopen) hst
        have hstops := List.find?_some hopen
        rw [Bool.and_eq_true, Bool.not_eq_true'] at hstops
        refine ⟨hfills, by simp [hstops.1], ht, .inr ?_, hcaptures⟩
        rw [← hname]
        exact hasks
  · -- What comes too late brings nothing in reach.
    rw [hafter] at hreach
    exact absurd (inReach_of_begin htaken hreach) h.new

/-- Lists whose items are named alike go together item by item. -/
theorem forall₂_of_names {α β : Type} {f : α → String} {g : β → String} {R : α → β → Prop} :
    ∀ {l : List α} {l' : List β}, l'.map g = l.map f →
      (∀ s ∈ l, ∀ t ∈ l', g t = f s → R s t) → List.Forall₂ R l l'
  | [], [], _, _ => .nil
  | [], _ :: _, h, _ => by simp at h
  | _ :: _, [], h, _ => by simp at h
  | s :: l, t :: l', h, hR => by
    obtain ⟨hst, hrest⟩ := List.cons.inj h
    exact .cons (hR s List.mem_cons_self t List.mem_cons_self hst) (forall₂_of_names hrest
      fun s hs t ht => hR s (List.mem_cons_of_mem _ hs) t (List.mem_cons_of_mem _ ht))

/-! ## Slots without a choice -/

/-- A deed that fills slots comes to a slot: the earlier ones have a target or take their only
choice, and this one has no target. -/
structure ComesTo (m : Moment) (d : Deed) (x : ActivationId) (before : Activation) (a : Ability)
    (earlier : List TargetSlot) (slot : TargetSlot) : Prop where
  fills : m.FillsSlots d x before a
  unfilled : ¬before.hasTarget slot.name
  slots : ∃ later, a.targets = earlier ++ slot :: later
  passes : ∀ s ∈ earlier, before.hasTarget s.name ∨ (s.choices m.engine.board before).length = 1

/-- The filling stops at a slot that it comes to, unless the slot has one choice. -/
theorem ComesTo.openSlot {before : Activation} {a : Ability} {earlier : List TargetSlot}
    {slot : TargetSlot} (h : m.ComesTo d x before a earlier slot)
    (hstops : (slot.choices m.engine.board before).length ≠ 1) :
    Engine.openSlot? m.engine.board before a.targets = some slot := by
  obtain ⟨later, hslots⟩ := h.slots
  refine List.find?_eq_some_iff_append.mpr ⟨?_, earlier, later, hslots, fun s hs => ?_⟩
  · simp [h.unfilled, hstops]
  · rcases h.passes s hs with hhas | hone
    · simp [hhas]
    · simp [hone]

/-- An activation that comes to a slot without a choice is cancelled. -/
theorem ComesTo.cancelled {before : Activation} {a : Ability} {earlier : List TargetSlot}
    {slot : TargetSlot} (h : m.ComesTo d x before a earlier slot)
    (hnone : slot.choices m.engine.board before = []) :
    ∃ after, (m.after d).engine.activations.get? x = some after ∧ after.cancelled := by
  obtain ⟨_, q, -, -, hafter⟩ := h.fills.fills
  have hopen := h.openSlot (by simp [hnone])
  obtain ⟨e', hend, hfills⟩ :=
    Engine.fillSlots_ends { m.engine with queue := q } a x before a.targets
  rw [hafter, hend]
  have hnoted : ∀ chosen, (({ m.engine with queue := q } : Engine).noted x chosen).activations.get?
      x = some { before with targets := before.targets ++ chosen } := fun chosen =>
    IdMap.get?_modify_self h.fills.filed _
  cases hfills with
  | resolved _ hresolved => exact absurd (hopen.symm.trans hresolved) (by simp)
  | missed chosen _ _ => exact ⟨_, IdMap.get?_modify_self (hnoted chosen) _, rfl⟩
  | asked _ hasked hsome =>
    obtain rfl := Option.some.inj (hopen.symm.trans hasked)
    exact absurd hnone hsome

/-- An effect that has started in a run has left its activation resolved. -/
theorem Sound.rank_of_effect (h : m.Sound) {ds : List Deed}
    (heffect : .occurred .effect ∈ life x m ds)
    (hget : (m.run ds).engine.activations.get? x = some activation) :
    4 ≤ activation.stage.rank := by
  induction ds generalizing m with
  | nil => simp [life] at heffect
  | cons d ds ih =>
    rcases List.mem_append.mp heffect with hnow | hlater
    · have hpassage := Moment.passage h d
      rw [occurrence_of_mem_between hnow] at hpassage
      obtain ⟨before, hbefore, hstage⟩ := resolved_of_advance hpassage.advance
      have hnumber : x.number < m.engine.nextActivation := by
        by_contra hge
        simp [(h.fresh x (Nat.le_of_not_lt hge)).1] at hbefore
      refine h.filed_run (P := (4 ≤ ·.stage.rank)) (fun hadvance hrank => ?_) hnumber
        (fun activation' hget' => ?_) (d :: ds) activation hget
      · exact Nat.le_trans hrank hadvance.forward.1
      · obtain rfl := Option.some.inj (hbefore.symm.trans hget')
        simp [hstage, ActivationStage.rank]
    · exact ih (h.after d) hlater hget

theorem life_append (x : ActivationId) (m : Moment) (ds ds' : List Deed) :
    life x m (ds ++ ds') = life x m ds ++ life x (m.run ds) ds' := by
  induction ds generalizing m with
  | nil => rfl
  | cons d ds ih => rw [List.cons_append, life, life, ih, List.append_assoc, run_cons]

/-- What is cancelled while targets are being chosen never takes effect. -/
theorem FillsSlots.never_effect {b : Board} {ds : List Deed} {before : Activation} {a : Ability}
    (h : ((start b).run ds).FillsSlots d x before a)
    (hcancelled : ∃ after, (((start b).run ds).after d).engine.activations.get? x = some after ∧
      after.cancelled) (later : List Deed) :
    .occurred .effect ∉ life x (start b) (ds ++ d :: later) := by
  have hsound := (sound_start b).run ds
  have hstage := h.costsPaid hsound
  rw [life_append, life, List.mem_append, List.mem_append]
  rintro (hpast | hnow | hlater)
  · have hrank := (sound_start b).rank_of_effect hpast h.filed
    simp [hstage, ActivationStage.rank] at hrank
  · have hpassage := Moment.passage hsound d
    rw [occurrence_of_mem_between hnow] at hpassage
    obtain ⟨before', hbefore, hresolved⟩ := resolved_of_advance hpassage.advance
    obtain rfl := Option.some.inj (h.filed.symm.trans hbefore)
    simp [hstage] at hresolved
  · -- Nothing occurs any more to what was cancelled.
    obtain ⟨after, hget, hover⟩ := hcancelled
    refine Over.not_occurred (hsound.after d) ⟨?_, fun after' hget' => ?_⟩ later .effect hlater
    · by_contra hge
      simp [((hsound.after d).fresh x (Nat.le_of_not_lt hge)).1] at hget
    · obtain rfl := Option.some.inj (hget.symm.trans hget')
      exact .inl hover

/-! ## Slots are filled completely and in order -/

/-- When an effect starts, its activation has one target for each slot of its ability, if these have
different names: in the order of the slots and under their names, of the kind that the slot is for,
and each among the choices that its slot had when it was filled by itself or asked for. An
activation that comes to a slot without a choice is cancelled, and its effect does not start in the
whole run. -/
theorem slots_filled (b : Board) (ds : List Deed) (x : ActivationId) :
    (((start b).run ds).occurrence .turn = some (x, .effect) →
      ∃ activation a, ((start b).run ds).engine.activations.get? x = some activation ∧
        ((start b).run ds).engine.ability? activation.ability = some a ∧
        ((a.targets.map (·.name)).Nodup → List.Forall₂ (fun slot t => t.1 = slot.name ∧
          slot.Takes t.2 ∧ ∃ past d rest before, ds = past ++ d :: rest ∧
            ((start b).run past).Settles d rest x before a slot t.2)
          a.targets activation.targets)) ∧
      ∀ d before a earlier slot, ((start b).run ds).ComesTo d x before a earlier slot →
        slot.choices ((start b).run ds).engine.board before = [] →
        (∃ after, ((start b).run (ds ++ [d])).engine.activations.get? x = some after ∧
          after.cancelled) ∧
        ∀ later, .occurred .effect ∉ life x (start b) (ds ++ d :: later) := by
  have hsound := (sound_start b).run ds
  have hreached : ((start b).run ds).Reached := ⟨b, ds, rfl⟩
  refine ⟨fun heffect => ?_, fun d before a earlier slot hcomes hnone => ?_⟩
  · obtain ⟨activation, a, hget, hability⟩ := ability_of_effect heffect
    refine ⟨activation, a, hget, hability, fun hnodup => ?_⟩
    have hpassage := Moment.passage hsound .turn
    rw [heffect] at hpassage
    obtain ⟨activation', hfiled, hstage⟩ := resolved_of_advance hpassage.advance
    obtain rfl := Option.some.inj (hget.symm.trans hfiled)
    obtain ⟨filled, left, hslots, hnames, hall, -⟩ :=
      (hreached.inOrder hget hability hnodup).split
    obtain rfl := hall (by simp [hstage, ActivationStage.rank])
    rw [List.append_nil] at hslots
    rw [← hslots] at hnames
    refine forall₂_of_names hnames fun slot hslot t ht hname => ?_
    obtain ⟨past, d, rest, rfl, hcaptures⟩ := inReach_run b ds (.inl ⟨activation, hget, ht⟩)
    obtain ⟨before, hsettles⟩ := hcaptures.settles hnodup hslot hname fun before a' hget' ha' => by
      have hsame := ((sound_start b).run past).ability_run hget' (d :: rest)
        (by rw [← run_append]; exact hget)
      exact (ability?_unique hability rfl (hsame ▸ ha')).symm
    exact ⟨hname, TargetSlot.takes_of_mem hsettles.legal, past, d, rest, before, rfl, hsettles⟩
  · have hcancelled := hcomes.cancelled hnone
    refine ⟨?_, hcomes.fills.never_effect hcancelled⟩
    rw [run_append]
    exact hcancelled

/-- The deed has an action that is aimed at a card in play and at a player. There is one card, and
the player is asked for. -/
def cardAndPlayer : List Deed :=
  [.call (.attach ⟨3⟩ {
      kind := .action
      targets := [⟨"card", .cards .playArea fun _ _ _ => true⟩,
        ⟨"player", .players fun _ _ _ => true⟩]
      handler := some fun _ => .done }),
    .call (.order (.activate ⟨0⟩ ⟨0⟩)), .turn, .turn, .answer ⟨0⟩ 1, .turn]

/-- The deed has an action that is aimed at a card in play that is not booted, and boots the deed
itself. -/
def bootedTarget : List Deed :=
  [.call (.attach ⟨3⟩ {
      kind := .action
      costs := [.bootSelf]
      targets := [⟨"card", .cards .playArea fun _ _ card => !card.booted⟩]
      handler := some fun _ => .done }),
    .call (.order (.activate ⟨0⟩ ⟨0⟩)), .turn]

theorem slots_filled_cardAndPlayer :
    ((start deedInPlay).run cardAndPlayer).occurrence .turn = some (⟨0⟩, .effect) ∧
      (∃ activation a,
        ((start deedInPlay).run cardAndPlayer).engine.activations.get? ⟨0⟩ = some activation ∧
        List.Forall₂ (fun slot t => t.1 = slot.name ∧ slot.Takes t.2 ∧ ∃ past d rest before,
            cardAndPlayer = past ++ d :: rest ∧
              ((start deedInPlay).run past).Settles d rest ⟨0⟩ before a slot t.2)
          a.targets activation.targets) ∧
      ∃ before a slot, ((start deedInPlay).run bootedTarget).ComesTo .turn ⟨0⟩ before a [] slot ∧
        ∀ later, .occurred .effect ∉ life ⟨0⟩ (start deedInPlay) (bootedTarget ++ .turn :: later) := by
  have heffect : ((start deedInPlay).run cardAndPlayer).occurrence .turn = some (⟨0⟩, .effect) := by
    decide +kernel
  refine ⟨heffect, ?_, ?_⟩
  · obtain ⟨activation, a, hget, hability, hfilled⟩ :=
      (slots_filled deedInPlay cardAndPlayer ⟨0⟩).1 heffect
    have hnodup : ((((start deedInPlay).run cardAndPlayer).engine.activations.get? ⟨0⟩).bind
        fun y => ((start deedInPlay).run cardAndPlayer).engine.ability? y.ability).any
        (fun a => decide (a.targets.map (·.name)).Nodup) = true := by decide +kernel
    rw [hget, Option.bind_some, hability, Option.any_some] at hnodup
    exact ⟨activation, a, hget, hfilled (of_decide_eq_true hnodup)⟩
  · let m := (start deedInPlay).run bootedTarget
    have hstarts : m.starts? .turn = some ⟨⟨1⟩, .resolve ⟨0⟩ .chooseTargets⟩ := rfl
    have hlive : ¬∃ q, m.engine.queue.FrontTaken ⟨⟨1⟩, .resolve ⟨0⟩ .chooseTargets⟩ q ∧
        (m.after .turn).engine = ({ m.engine with queue := q } : Engine).finished := by
      rintro ⟨q, -, hafter⟩
      have hsame := congrArg (fun e => (e.activations.get? ⟨0⟩).map (·.cancelled)) hafter
      revert hsame
      show ((m.after .turn).engine.activations.get? ⟨0⟩).map (·.cancelled) ≠
        (m.engine.activations.get? ⟨0⟩).map (·.cancelled)
      decide +kernel
    obtain ⟨before, a, hfills⟩ := (fillsSlots_of_starts hstarts).resolve_right hlive
    have hnone : (m.engine.activations.get? ⟨0⟩).any (fun before =>
        (m.engine.ability? before.ability).any fun a =>
          a.targets.head?.any fun slot => !before.hasTarget slot.name &&
            (slot.choices m.engine.board before).isEmpty) = true := by
      decide +kernel
    rw [hfills.filed, Option.any_some, hfills.ability, Option.any_some] at hnone
    obtain ⟨slot, hslot, hchoices⟩ := (Option.any_eq_true _ _).mp hnone
    rw [Bool.and_eq_true, Bool.not_eq_true', List.isEmpty_iff] at hchoices
    obtain ⟨later, hslots⟩ := List.head?_eq_some_iff.mp hslot
    have hcomes : m.ComesTo .turn ⟨0⟩ before a [] slot :=
      ⟨hfills, by simp [hchoices.1], ⟨later, hslots⟩, by simp⟩
    obtain ⟨-, hnever⟩ :=
      (slots_filled deedInPlay bootedTarget ⟨0⟩).2 .turn before a [] slot hcomes hchoices.2
    exact ⟨before, a, slot, hcomes, hnever⟩

end Moment

end Doomtown
