import Doomtown.StepQueue

/-!
# The waiting steps

The steps that wait, in the order in which they are to run, and what each operation of the queue
makes of that order.
-/

namespace Doomtown.StepQueue

/-- The waiting steps in the order in which they are to run. -/
def order (q : StepQueue) : List Step := q.children ++ q.steps

theorem mem_pending_iff {q : StepQueue} {s : Step} : s ∈ q.pending ↔ s ∈ q.order := by
  simp only [pending, order, List.mem_append]
  exact or_comm

theorem mem_order_of_mem_steps {q : StepQueue} {s : Step} (h : s ∈ q.steps) : s ∈ q.order :=
  List.mem_append_right q.children h

/-! ## Queueing -/

/-- A pushed step goes in between, behind the running step's own. -/
theorem order_push (q : StepQueue) (kind : StepKind) :
    ∃ front back, q.order = front ++ back ∧
      (q.push kind).order = front ++ ⟨q.nextStep, kind⟩ :: back := by
  unfold order children push
  cases hr : q.running with
  | none => exact ⟨q.steps, [], by simp, by simp⟩
  | some own => exact ⟨own, q.steps, by simp, by simp⟩

/-- What waits after a push waited before, or is the step that was pushed. -/
theorem mem_order_push {q : StepQueue} {kind : StepKind} {s : Step} :
    s ∈ (q.push kind).order ↔ s ∈ q.order ∨ s = ⟨q.nextStep, kind⟩ := by
  obtain ⟨front, back, hsplit, horder⟩ := q.order_push kind
  simp only [hsplit, horder, List.mem_append, List.mem_cons]
  grind

/-- A step that is pushed next goes in front. -/
theorem order_pushNext (q : StepQueue) (kind : StepKind) :
    (q.pushNext kind).order = ⟨q.nextStep, kind⟩ :: q.order := by
  unfold order children pushNext
  cases hr : q.running with
  | none => simp
  | some own => simp

@[simp] theorem nextId_push (q : StepQueue) (kind : StepKind) :
    (q.push kind).nextId = q.nextId + 1 := by
  unfold push
  split <;> rfl

@[simp] theorem nextId_pushNext (q : StepQueue) (kind : StepKind) :
    (q.pushNext kind).nextId = q.nextId + 1 := by
  unfold pushNext
  split <;> rfl

/-! ## Withdrawing -/

/-- Withdrawing takes one step out and leaves the others in their order. -/
theorem withdraw_sublist (q : StepQueue) (i : StepId) :
    (q.withdraw i).steps.Sublist q.steps ∧ (q.withdraw i).children.Sublist q.children ∧
      (q.withdraw i).isRunning = q.isRunning ∧ (q.withdraw i).nextId = q.nextId := by
  unfold withdraw
  split
  · exact ⟨List.eraseP_sublist, .refl _, rfl, rfl⟩
  · refine ⟨.refl _, ?_, by simp [isRunning], rfl⟩
    unfold children
    cases q.running with
    | none => exact .refl _
    | some own => exact List.eraseP_sublist

theorem order_withdraw_sublist (q : StepQueue) (i : StepId) :
    (q.withdraw i).order.Sublist q.order := by
  obtain ⟨hsteps, hchildren, -, -⟩ := q.withdraw_sublist i
  exact hchildren.append hsteps

theorem mem_order_withdraw {q : StepQueue} {i : StepId} {s : Step} (hs : s ∈ q.order)
    (hne : s.id ≠ i) : s ∈ (q.withdraw i).order := by
  have hkeep : ∀ l : List Step, s ∈ l → s ∈ l.eraseP (fun t => decide (t.id = i)) := fun l hl =>
    (List.mem_eraseP_of_neg (by simpa using hne)).mpr hl
  unfold withdraw
  split
  · rcases List.mem_append.mp hs with hs | hs
    · exact List.mem_append.mpr (.inl hs)
    · exact List.mem_append.mpr (.inr (hkeep _ hs))
  · unfold order children at hs ⊢
    cases hr : q.running with
    | none => simpa [hr] using hs
    | some own =>
      rw [hr] at hs
      rcases List.mem_append.mp hs with hs | hs
      · exact List.mem_append.mpr (.inl (hkeep _ hs))
      · exact List.mem_append.mpr (.inr hs)

/-- A step that does not wait cannot be withdrawn. -/
theorem withdraw_of_not_contains {q : StepQueue} {i : StepId} (h : q.contains i = false) :
    q.withdraw i = q := by
  simp only [contains, pending, List.any_append, Bool.or_eq_false_iff] at h
  -- It is looked for among the running step's own, and not found there either.
  unfold withdraw
  rw [if_neg (by simp [h.1])]
  obtain ⟨steps, running, nextId⟩ := q
  cases running with
  | none => rfl
  | some own =>
    have hown : own.eraseP (fun s => s.id = i) = own := List.eraseP_of_forall_not (by
      simpa [children] using h.2)
    simp [hown]

/-! ## Starting and finishing -/

/-- The step at the front, if it can start now. -/
theorem begin?_eq_some {q q' : StepQueue} {s : Step} (h : q.begin? = some (s, q')) :
    ∃ rest, q.running = none ∧ q.steps = s :: rest ∧
      q' = { q with steps := rest, running := some [] } := by
  unfold begin? at h
  split at h
  · rename_i hidle hfront
    split at h
    · simp at h
    · obtain ⟨rfl, rfl⟩ := Prod.mk.inj (Option.some.inj h)
      exact ⟨_, hidle, hfront, rfl⟩
  · simp at h

/-- A prompt does not start by itself. -/
theorem begin?_ne_prompt {q q' : StepQueue} {i : StepId} {p : Prompt} :
    q.begin? ≠ some (⟨i, .prompt p⟩, q') := by
  intro h
  obtain ⟨rest, hidle, hfront, -⟩ := begin?_eq_some h
  simp [begin?, hidle, hfront] at h

/-- The prompt at the front, if it can be answered now. -/
theorem beginAnswer?_eq_some {q q' : StepQueue} {i : StepId} {p : Prompt}
    (h : q.beginAnswer? = some (i, p, q')) :
    ∃ rest, q.running = none ∧ q.steps = ⟨i, .prompt p⟩ :: rest ∧
      q' = { q with steps := rest, running := some [] } := by
  unfold beginAnswer? at h
  split at h
  · rename_i hidle hfront
    obtain ⟨rfl, h'⟩ := Prod.mk.inj (Option.some.inj h)
    obtain ⟨rfl, rfl⟩ := Prod.mk.inj h'
    exact ⟨_, hidle, hfront, rfl⟩
  · simp at h

/-- When a step ends, the steps that wait are the same. -/
@[simp] theorem order_finish (q : StepQueue) : q.finish.order = q.order := rfl

end Doomtown.StepQueue
