import Doomtown.Proofs.NotedPrompts
import Doomtown.Proofs.OpenPrompts

/-!
# Prompts for targets that wait

A step that cannot fill a slot by itself queues a prompt and notes its number in the record of the
activation. While the prompt waits the record goes on noting it, whatever else is done: to retract
the activation strikes the note, and withdraws the prompt. So each prompt for a target that waits
is the one that its activation notes (`Moment.Reached.asksNoted`).
-/

namespace Doomtown

open Play

namespace StepQueue

variable {q : StepQueue} {i : StepId} {s : Step}

/-- What is withdrawn does not wait any more, if no two waiting steps have the same number. -/
theorem id_ne_of_mem_withdraw (hdistinct : q.order.Pairwise fun s t => s.id ≠ t.id)
    (hs : s ∈ (q.withdraw i).order) : s.id ≠ i := by
  rintro rfl
  cases hcontains : q.contains s.id with
  | false =>
    rw [withdraw_of_not_contains hcontains] at hs
    have hnone : q.pending.any (·.id = s.id) = false := hcontains
    simp only [List.any_eq_false, decide_eq_true_eq] at hnone
    exact hnone s (mem_pending_iff.mpr hs) rfl
  | true =>
    have hnodup : q.pendingIds.Nodup := by
      have hperm : q.pending.Perm q.order := List.perm_append_comm
      have horder : (q.order.map (·.id)).Nodup := List.pairwise_map.mpr hdistinct
      exact (hperm.map (·.id)).nodup_iff.mpr horder
    rw [(pendingIds_withdraw hcontains).nodup_iff] at hnodup
    exact (List.nodup_cons.mp hnodup).1 (List.mem_map_of_mem (mem_pending_iff.mpr hs))

end StepQueue

/-- Next to a part that chooses targets nothing else waits or runs. -/
theorem Fits.eq_of_choose {a : Option Activation} {ps : List Part} (h : Fits a ps)
    (hp : .choose ∈ ps) : ps = [.choose] := by
  cases ps with
  | nil => simp at hp
  | cons p ps =>
    by_cases hfirst : p = .choose
    · subst hfirst
      rw [alone_of_fits_choose h]
    · obtain ⟨activation, -, -, hfollows⟩ := follows_of_fits h hfirst
      have hrest : Part.choose ∈ ps := by simpa [Ne.symm hfirst] using hp
      have hcomplete : ps.Sublist [.complete] := by
        cases p <;> simp [Part.Follows] at hfollows <;> simp [hfollows]
      simpa using hcomplete.subset hrest

namespace Moment

variable {m : Moment} {d : Deed} {x : ActivationId} {activation activation' : Activation} {s : Step}

theorem Sound.partsOf_of_choose (h : m.Sound) (hs : s ∈ m.engine.queue.order)
    (hpart : s.kind.part? = some (x, .choose)) : m.partsOf x = [.choose] :=
  (h.fits x).eq_of_choose (mem_partsOf_of_order hs hpart)

/-- Every prompt for a target that waits is the one that the record of its activation notes. -/
def AsksNoted (m : Moment) : Prop :=
  ∀ x activation, m.engine.activations.get? x = some activation → ∀ s ∈ m.engine.queue.order,
    s.kind.part? = some (x, .choose) → s.kind.asksTarget → activation.prompt = some s.id

/-! ## Deeds that choose no targets -/

/-- While a prompt goes on waiting, its record goes on noting it. -/
theorem Sound.note_kept (h : m.Sound)
    (hdistinct : m.engine.queue.order.Pairwise fun s t => s.id ≠ t.id) (hx : m.Untargeted d x)
    (hs : s ∈ m.engine.queue.order) (hpart : s.kind.part? = some (x, .choose))
    (hs' : s ∈ (m.after d).engine.queue.order)
    (hget : m.engine.activations.get? x = some activation) (hnoted : activation.prompt = some s.id)
    (hget' : (m.after d).engine.activations.get? x = some activation') :
    activation'.prompt = some s.id := by
  by_contra hstruck
  have hparts := h.partsOf_of_choose hs hpart
  have habout : m.isAbout d x := h.isAbout_of_changed hget' fun hsame => by
    obtain rfl := Option.some.inj (hget.symm.trans hsame)
    exact hstruck hnoted
  rcases h.about_filed hget habout with ⟨a, p, hgives, ho⟩ | ⟨t, p, hstarts, ht⟩ |
    ⟨a, running, script, -, hrunning, -⟩
  · rcases after_retract hgives ho hget with ⟨-, hsame⟩ | ⟨-, hqueue, -⟩
    · rw [hsame] at hget'
      obtain rfl := Option.some.inj (hget.symm.trans hget')
      exact hstruck hnoted
    · -- The prompt is withdrawn with the note.
      rw [hqueue, hnoted] at hs'
      exact StepQueue.id_ne_of_mem_withdraw hdistinct hs' rfl
  · obtain ⟨ps, hfront⟩ := partsOf_of_starts hstarts ht
    obtain ⟨rfl, -⟩ := List.cons.inj (hparts.symm.trans hfront)
    exact hx t hstarts ht
  · obtain ⟨ps, hfront⟩ := partsOf_of_running hrunning
    simp [hparts] at hfront

/-- What a deed opens is opened by the step that fills the slots. -/
theorem Untargeted.asked_before (hx : m.Untargeted d x) (hs : s ∈ (m.after d).engine.queue.order)
    (hpart : s.kind.part? = some (x, .choose)) (hasks : s.kind.asksTarget) :
    s ∈ m.engine.queue.order := by
  refine (opens_of_asksTarget hs hasks).resolve_right ?_
  rintro ⟨y, before, a, slot, hopens⟩
  rw [hopens.kind] at hpart
  obtain rfl : y = x := by simpa [StepKind.part?, Engine.targetPrompt] using hpart
  obtain ⟨i, q, hstarts, -, -⟩ := hopens.fills.fills
  exact hx _ hstarts rfl

/-! ## Deeds that choose targets -/

/-- The prompt that waits once slots are filled is the one that was noted then. -/
theorem FillsSlots.note {before : Activation} {a : Ability} (h : m.FillsSlots d x before a)
    (hsound : m.Sound) (hs : s ∈ (m.after d).engine.queue.order)
    (hpart : s.kind.part? = some (x, .choose)) (hasks : s.kind.asksTarget)
    (hget' : (m.after d).engine.activations.get? x = some activation') :
    activation'.prompt = some s.id := by
  obtain ⟨j, q, hstarts, htaken, hafter⟩ := h.fills
  obtain ⟨_, hrunning, -⟩ := frontTaken_of_starts hstarts
  have hnone := hsound.partsOf_front (x := x) hrunning rfl htaken
  have hnew : s ∉ q.order := fun hold => StepQueue.part?_ne_of_partsOf hnone hold .choose hpart
  obtain ⟨e', hend, hfills⟩ :=
    Engine.fillSlots_ends { m.engine with queue := q } a x before a.targets
  have hnoted : ∀ chosen, (({ m.engine with queue := q } : Engine).noted x chosen).activations.get?
      x = some { before with targets := before.targets ++ chosen } := fun chosen =>
    IdMap.get?_modify_self h.filed _
  rw [hafter, hend] at hs hget'
  cases hfills with
  | resolved chosen =>
    obtain rfl := (StepQueue.mem_order_push.mp hs).resolve_left hnew
    simp [StepKind.asksTarget] at hasks
  | missed chosen => exact absurd hs hnew
  | asked chosen =>
    obtain rfl := (StepQueue.mem_order_push.mp hs).resolve_left hnew
    obtain rfl := Option.some.inj ((IdMap.get?_modify_self (hnoted chosen) _).symm.trans hget')
    rfl

/-- No prompt waits for a target that was just told one. -/
theorem TellsTarget.asks_nothing {slot : String} {choices : List ChosenTarget} {n : Nat}
    (h : m.TellsTarget d x slot choices n) (hsound : m.Sound)
    (hs : s ∈ (m.after d).engine.queue.order) (hpart : s.kind.part? = some (x, .choose)) :
    s.kind.asksTarget = false := by
  obtain ⟨j, view, p, q, hstarts, -, htaken, hafter⟩ := h.tells
  obtain ⟨_, hrunning, -⟩ := frontTaken_of_starts hstarts
  have hnone := hsound.partsOf_front (x := x) hrunning rfl htaken
  have hnew : s ∉ q.order := fun hold => StepQueue.part?_ne_of_partsOf hnone hold .choose hpart
  rw [hafter] at hs
  unfold Engine.chooseTarget at hs
  cases hpick : choices[n]? with
  | none =>
    rw [hpick] at hs
    exact absurd hs hnew
  | some t =>
    rw [hpick] at hs
    obtain rfl := (StepQueue.mem_order_push.mp hs).resolve_left hnew
    rfl

/-! ## Every deed -/

theorem AsksNoted.after (h : m.AsksNoted) (hreached : m.Reached) (d : Deed) :
    (m.after d).AsksNoted := by
  intro x activation' hget' s hs hpart hasks
  have hsound := hreached.sound
  by_cases hx : m.Untargeted d x
  · have hbefore := hx.asked_before hs hpart hasks
    cases hget : m.engine.activations.get? x with
    | none =>
      -- Nothing waits for what is entered only now.
      obtain ⟨hnil, -⟩ := hsound.targets_entered hreached.ready hget hget'
      simp [hsound.partsOf_of_choose hbefore hpart] at hnil
    | some activation =>
      exact hsound.note_kept hreached.distinct hx hbefore hpart hs hget
        (h x activation hget s hbefore hpart hasks) hget'
  · unfold Untargeted at hx
    push Not at hx
    obtain ⟨⟨j, kind⟩, hstarts, hkind⟩ := hx
    rcases choose_forms hkind with rfl | ⟨view, p, slot, choices, rfl⟩
    · rcases fillsSlots_of_starts hstarts with ⟨before, a, hfills⟩ | ⟨q, htaken, hafter⟩
      · exact hfills.note hsound hs hpart hasks hget'
      · obtain ⟨_, hrunning, -⟩ := frontTaken_of_starts hstarts
        have hnone := hsound.partsOf_front (x := x) hrunning rfl htaken
        rw [hafter] at hs
        exact absurd hpart (StepQueue.part?_ne_of_partsOf hnone hs .choose)
    · obtain ⟨n, htells⟩ := tellsTarget_of_starts hstarts
      simp [htells.asks_nothing hsound hs hpart] at hasks

theorem Reached.asksNoted (h : m.Reached) : m.AsksNoted := by
  refine h.invariant (fun b => ?_) fun hreached hasks d => hasks.after hreached d
  intro x activation hget
  simp [start, Engine.new, IdMap.get?_empty] at hget

end Moment

end Doomtown
