import Doomtown.Proofs.Descent
import Doomtown.Proofs.Suspension

/-!
# What descends from steps

The offspring of some steps in a run are these steps and all that was queued while one of them or of
their offspring ran (`Moment.offspring`). A step that waits behind some steps is not started before
all of their offspring has run or was withdrawn (`Moment.leftQueue_of_starts`).
-/

namespace Doomtown

open StepQueue (issued)

namespace Family

/-- After a deed also those are members that a member has queued. -/
def spread (f : Family) (m : Moment) (d : Deed) : Family where
  members := f.members ++ if f.acts m d then m.queuedBy d else []
  runs := f.acts m d && (m.after d).running.isSome

/-- After some deeds. -/
def spreads (f : Family) : Moment → List Deed → Family
  | _, [] => f
  | m, d :: ds => (f.spread m d).spreads (m.after d) ds

end Family

namespace Moment

variable {m : Moment} {d : Deed} {i : StepId} {f : Family} {s : Step} {older : List Step}
  {ahead : List StepId}

/-- Some steps and all that descends from them in a run. -/
def offspring (m : Moment) (roots : List StepId) (ds : List Deed) : List StepId :=
  (Family.spreads ⟨roots, false⟩ m ds).members

/-- In a run a step has left the queue for good: it was started and no step runs, or it was taken out
of the queue. -/
def LeftQueue (b : Board) (ds : List Deed) (i : StepId) : Prop :=
  ((start b).run ds).running = none ∧
    (i ∈ (start b).startedBy ds ∨ i ∈ (start b).withdrawnBy ds)

/-! ## Where offspring is queued -/

theorem nextId_after (m : Moment) (d : Deed) :
    m.engine.queue.nextId ≤ (m.after d).engine.queue.nextId := (m.serves d).pending.1

theorem number_of_mem_behindBy {ds : List Deed} (h : i ∈ m.behindBy ds) :
    m.engine.queue.nextId ≤ i.number := by
  induction ds generalizing m with
  | nil => simp [behindBy] at h
  | cons d ds ih =>
    rcases List.mem_append.mp h with hnow | hlater
    · split at hnow
      · simp at hnow
      · exact (StepQueue.mem_issued.mp hnow).1
    · exact Nat.le_trans (m.nextId_after d) (ih hlater)

/-- What a member queues goes in front of what waits. -/
theorem getsAhead_of_acts (hidle : m.running = none → f.runs = false) (h : f.acts m d) :
    m.getsAhead d := by
  unfold Family.acts at h
  unfold getsAhead
  cases hstarts : m.starts? d with
  | some s => simp
  | none =>
    rw [hstarts] at h
    cases hrunning : m.running with
    | some r => simp
    | none => simp [hidle hrunning] at h

/-- Members that were no members before have new numbers, and were not queued behind all. -/
theorem mem_spreads {ds : List Deed} (hidle : m.running = none → f.runs = false)
    (h : i ∈ (f.spreads m ds).members) : i ∈ f.members ∨
      m.engine.queue.nextId ≤ i.number ∧ i.number < (m.run ds).engine.queue.nextId ∧
        i ∉ m.behindBy ds := by
  induction ds generalizing m f with
  | nil => exact .inl h
  | cons d ds ih =>
    have hle := m.nextId_after d
    rcases ih (fun hnone => by simp [Family.spread, hnone]) h with hmem | ⟨hnew, hlt, hnot⟩
    · rcases List.mem_append.mp hmem with hold | hqueued
      · exact .inl hold
      · split at hqueued
        · rename_i hacts
          obtain ⟨hnew, hlt⟩ := StepQueue.mem_issued.mp hqueued
          have hahead := getsAhead_of_acts hidle hacts
          refine .inr ⟨hnew, Nat.lt_of_lt_of_le hlt (pending_run _ ds).1, fun hbehind => ?_⟩
          rw [behindBy, if_pos hahead, List.nil_append] at hbehind
          exact absurd hlt (Nat.not_lt.mpr (number_of_mem_behindBy hbehind))
        · simp at hqueued
    · refine .inr ⟨Nat.le_trans hle hnew, hlt, fun hbehind => ?_⟩
      rcases List.mem_append.mp hbehind with hnow | hlater
      · split at hnow
        · simp at hnow
        · exact absurd (StepQueue.mem_issued.mp hnow).2 (Nat.not_lt.mpr hnew)
      · exact hnot hlater

/-! ## When a step starts -/

/-- What waits was not started and not withdrawn before. -/
theorem Reached.not_mem_of_pending (h : m.Reached) {ds : List Deed}
    (hs : s ∈ (m.run ds).engine.queue.order) :
    s.id ∉ m.startedBy ds ∧ s.id ∉ m.withdrawnBy ds := by
  have hbalanced := InStep.balanced h.ready.running ds
  have hnodup : (m.engine.queue.pendingIds ++
      issued m.engine.queue.nextId (m.run ds).engine.queue.nextId).Nodup := by
    refine List.nodup_append.mpr ⟨?_, StepQueue.issued_nodup _ _, ?_⟩
    · have hperm : (m.engine.queue.order.map (·.id)).Perm m.engine.queue.pendingIds :=
        List.perm_append_comm.map _
      exact hperm.nodup_iff.mp (List.pairwise_map.mpr h.distinct)
    · rintro i hi j hj rfl
      obtain ⟨t, ht, rfl⟩ := List.mem_map.mp hi
      exact absurd (h.sound.ids t (StepQueue.mem_pending_iff.mp ht))
        (Nat.not_lt.mpr (StepQueue.mem_issued.mp hj).1)
  -- So what waits, what was started and what was withdrawn are different steps.
  have hparts := hbalanced.nodup_iff.mpr hnodup
  rw [List.append_assoc] at hparts
  have hpending : s.id ∈ (m.run ds).engine.queue.pendingIds :=
    List.mem_map_of_mem (StepQueue.mem_pending_iff.mpr hs)
  have hnot := fun hmem => (List.nodup_append.mp hparts).2.2 _ hpending _ hmem rfl
  exact ⟨fun hmem => hnot (List.mem_append_left _ hmem),
    fun hmem => hnot (List.mem_append_right _ hmem)⟩

/-- A step whose number was given and that does not wait while no step runs has run or was
withdrawn. -/
theorem leftQueue_of_not_pending {b : Board} {ds : List Deed}
    (hidle : ((start b).run ds).running = none)
    (hgiven : i.number < ((start b).run ds).engine.queue.nextId)
    (hnot : ∀ t ∈ ((start b).run ds).engine.queue.order, t.id ≠ i) : LeftQueue b ds i := by
  have hbalanced := InStep.balanced (m := start b) rfl ds
  have hissued : i ∈ (start b).engine.queue.pendingIds ++
      issued (start b).engine.queue.nextId ((start b).run ds).engine.queue.nextId :=
    List.mem_append_right _ (StepQueue.mem_issued.mpr ⟨Nat.zero_le _, hgiven⟩)
  refine ⟨hidle, ?_⟩
  rcases List.mem_append.mp (hbalanced.mem_iff.mpr hissued) with hmem | hwithdrawn
  · rcases List.mem_append.mp hmem with hpending | hstarted
    · obtain ⟨t, ht, hti⟩ := List.mem_map.mp hpending
      exact absurd hti (hnot t (StepQueue.mem_pending_iff.mp ht))
    · exact .inl hstarted
  · exact .inr hwithdrawn

/-- What waits behind a step that has waited behind some others when it starts was behind it, or was
queued behind all. -/
theorem Reached.mem_order_of_waits (h : m.Reached) (hwaits : m.engine.queue.Waits s older ahead [])
    {ds : List Deed} (hstarts : (m.run ds).starts? d = some s) :
    ∀ t ∈ (m.run ds).engine.queue.order, t = s ∨ t ∈ older ∨ t.id ∈ m.behindBy ds := by
  obtain ⟨hnotStarted, hnotWithdrawn⟩ := h.not_mem_of_pending (mem_order_of_starts hstarts)
  obtain ⟨⟨front, back, hsteps, -, hback⟩, -⟩ :=
    waits_run hwaits h ds hnotStarted hnotWithdrawn
  rw [List.nil_append] at hback
  rw [(h.run ds).order_of_starts hstarts hsteps]
  intro t ht
  rcases List.mem_cons.mp ht with rfl | ht
  · exact .inl rfl
  · rcases List.mem_append.mp ht with hold | hlast
    · exact .inr (.inl (List.mem_filter.mp hold).1)
    · exact .inr (.inr (hback t hlast))

/-- When a step starts that has waited behind some others, all of their offspring has run or was
withdrawn. -/
theorem leftQueue_of_starts {b : Board} {past later : List Deed} {roots : List StepId}
    (hwaits : ((start b).run past).engine.queue.Waits s older ahead [])
    (hroots : ∀ r ∈ roots, r.number < ((start b).run past).engine.queue.nextId ∧ r ≠ s.id ∧
      ∀ t ∈ older, t.id ≠ r)
    (hstarts : ((start b).run (past ++ later)).starts? d = some s) :
    ∀ i ∈ ((start b).run past).offspring roots later, LeftQueue b (past ++ later) i := by
  intro i hi
  have hreached : ((start b).run past).Reached := ⟨b, past, rfl⟩
  obtain ⟨-, hidle, -⟩ := frontTaken_of_starts hstarts
  rw [run_append] at hstarts
  have hbehind := hreached.mem_order_of_waits hwaits hstarts
  have hmem := mem_spreads (f := ⟨roots, false⟩) (fun _ => rfl) hi
  have hgiven : i.number < ((start b).run (past ++ later)).engine.queue.nextId := by
    rw [run_append]
    rcases hmem with hroot | ⟨-, hlt, -⟩
    · exact Nat.lt_of_lt_of_le (hroots i hroot).1 (pending_run _ later).1
    · exact hlt
  refine leftQueue_of_not_pending hidle hgiven fun t ht => ?_
  rw [run_append] at ht
  -- The others have left the queue in front of it, and what they queue goes ahead of it.
  rcases hmem with hroot | ⟨hnew, -, hnot⟩
  · obtain ⟨hlow, hother, hnotOlder⟩ := hroots i hroot
    rcases hbehind t ht with rfl | hold | hlast
    · exact hother.symm
    · exact hnotOlder t hold
    · rintro rfl
      exact absurd hlow (Nat.not_lt.mpr (number_of_mem_behindBy hlast))
  · rcases hbehind t ht with rfl | hold | hlast <;> rintro rfl
    · exact absurd (hreached.sound.ids t hwaits.mem) (Nat.not_lt.mpr hnew)
    · exact absurd (hreached.sound.ids t (hwaits.mem_older hold)) (Nat.not_lt.mpr hnew)
    · exact hnot hlast

end Moment

end Doomtown
