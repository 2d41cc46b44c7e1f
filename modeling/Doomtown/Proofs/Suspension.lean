import Doomtown.Proofs.Ledger
import Doomtown.Proofs.Steady

/-!
# An open prompt suspends everything

While a prompt is at the front and no step runs, the queue does not move. What the engine is asked
then queues its steps at the end and runs none of them (`Request.Quiet`). Only an action that can be
started gets ahead: its payment goes in front of the prompt, and so does all that it queues in turn.
The prompt and the steps behind it wait meanwhile, each until it is withdrawn, and they are at the
front again when nothing is left of what got ahead (`Engine.prompt_suspends`).
-/

namespace Doomtown

open Play

/-! ## Where what is queued goes -/

namespace StepQueue

variable {q : StepQueue}

theorem mem_numbered {n : Nat} {kinds : List StepKind} {t : Step} (h : t ∈ numbered n kinds) :
    t.id ∈ issued n (n + kinds.length) := by
  induction kinds generalizing n with
  | nil => simp [numbered] at h
  | cons kind kinds ih =>
    rw [mem_issued]
    rcases List.mem_cons.mp h with rfl | h
    · simp
    · have hlater := mem_issued.mp (ih h)
      simp only [List.length_cons]
      omega

/-- What is queued is told from what waited before by its numbers. -/
theorem filter_pushAll (hids : ∀ s ∈ q.order, s.id.number < q.nextId) (kinds : List StepKind) :
    (q.pushAll kinds).order.filter (fun s => q.nextId ≤ s.id.number) = numbered q.nextId kinds := by
  have hold : ∀ l : List Step, (∀ s ∈ l, s ∈ q.order) →
      l.filter (fun s => decide (q.nextId ≤ s.id.number)) = [] := fun l hl =>
    List.filter_eq_nil_iff.mpr fun s hs => by
      simpa using hids s (hl s hs)
  have hnew : (numbered q.nextId kinds).filter (fun s => decide (q.nextId ≤ s.id.number)) =
      numbered q.nextId kinds := List.filter_eq_self.mpr fun s hs =>
    decide_eq_true (mem_issued.mp (mem_numbered hs)).1
  have hsteps := hold q.steps fun s hs => mem_order_of_mem_steps hs
  cases hrunning : q.running with
  | none =>
    rw [pushAll_idle hrunning]
    show (q.steps ++ _).filter _ = _
    rw [List.filter_append, hsteps, hnew, List.nil_append]
  | some own =>
    have hown := hold own fun s hs => by simp [order, children, hrunning, hs]
    rw [pushAll_running hrunning]
    show ((own ++ _) ++ q.steps).filter _ = _
    rw [List.filter_append, List.filter_append, hown, hnew, hsteps, List.nil_append,
      List.append_nil]

/-- Where no two steps have one number, to withdraw a step is to drop the steps of its number. -/
theorem steps_withdraw (hdistinct : q.order.Pairwise fun s t => s.id ≠ t.id) (i : StepId) :
    (q.withdraw i).steps = q.steps.filter fun t => t.id ≠ i := by
  have hsteps : q.steps.Pairwise fun s t => s.id ≠ t.id :=
    (List.pairwise_append.mp hdistinct).2.1
  have herase : ∀ l : List Step, l.Pairwise (fun s t => s.id ≠ t.id) →
      l.eraseP (fun t => t.id = i) = l.filter fun t => t.id ≠ i := by
    intro l hl
    induction l with
    | nil => rfl
    | cons s l ih =>
      obtain ⟨hs, hl⟩ := List.pairwise_cons.mp hl
      by_cases hsi : s.id = i
      · have hrest : l.filter (fun t => t.id ≠ i) = l :=
          List.filter_eq_self.mpr fun t ht => by simpa [hsi] using (hs t ht).symm
        rw [List.eraseP_cons_of_pos (by simpa using hsi),
          List.filter_cons_of_neg (by simpa using hsi)]
        exact hrest.symm
      · rw [List.eraseP_cons_of_neg (by simpa using hsi),
          List.filter_cons_of_pos (by simpa using hsi), ih hl]
  unfold withdraw
  split
  · exact herase q.steps hsteps
  · rename_i hnone
    symm
    rw [List.filter_eq_self]
    intro t ht
    simp only [List.any_eq_true, decide_eq_true_eq, not_exists, not_and] at hnone
    simpa using hnone t ht

/-- While a prompt is at the front, to withdraw another step is to take it out of the older ones. -/
theorem withdraw_older {s : Step} {older : List Step} (hidle : q.running = none)
    (hfront : q.steps = s :: older) {i : StepId} (hi : s.id ≠ i) :
    q.withdraw i = ⟨s :: older.eraseP (·.id = i), none, q.nextId⟩ := by
  obtain ⟨steps, running, nextId⟩ := q
  obtain rfl : running = none := hidle
  obtain rfl : steps = s :: older := hfront
  unfold withdraw
  split
  · simp [hi]
  · rename_i hnone
    have holder : older.eraseP (·.id = i) = older := by
      refine List.eraseP_of_forall_not fun t ht => ?_
      simp only [List.any_cons, List.any_eq_true, Bool.or_eq_true, decide_eq_true_eq, not_or,
        not_exists, not_and] at hnone
      simpa using hnone.2 t ht
    simp [holder]

/-- A step waits with some older ones behind it. In front of it are only steps that got ahead, and
behind the older ones are only steps that were queued behind all. -/
structure Waits (q : StepQueue) (s : Step) (older : List Step) (ahead behind : List StepId) :
    Prop where
  steps : ∃ front back, q.steps = front ++ s :: (older ++ back) ∧
    (∀ t ∈ front, t.id ∈ ahead) ∧ ∀ t ∈ back, t.id ∈ behind
  children : ∀ t ∈ q.children, t.id ∈ ahead

namespace Waits

variable {s : Step} {older : List Step} {ahead behind : List StepId}

theorem mem (h : q.Waits s older ahead behind) : s ∈ q.order := by
  obtain ⟨front, back, hsteps, -, -⟩ := h.steps
  exact mem_order_of_mem_steps (by simp [hsteps])

theorem mem_older (h : q.Waits s older ahead behind) {t : Step} (ht : t ∈ older) :
    t ∈ q.order := by
  obtain ⟨front, back, hsteps, -, -⟩ := h.steps
  exact mem_order_of_mem_steps (by simp [hsteps, ht])

theorem mono (h : q.Waits s older ahead behind) {ahead' behind' : List StepId}
    (hahead : ahead ⊆ ahead') (hbehind : behind ⊆ behind') :
    q.Waits s older ahead' behind' := by
  obtain ⟨⟨front, back, hsteps, hfront, hback⟩, hchildren⟩ := h
  exact ⟨⟨front, back, hsteps, fun t ht => hahead (hfront t ht), fun t ht => hbehind (hback t ht)⟩,
    fun t ht => hahead (hchildren t ht)⟩

/-- While no step runs, what is queued goes behind all. -/
theorem pushAll_idle (h : q.Waits s older ahead behind) (hidle : q.running = none)
    (kinds : List StepKind) : (q.pushAll kinds).Waits s older ahead
      (behind ++ issued q.nextId (q.pushAll kinds).nextId) := by
  obtain ⟨⟨front, back, hsteps, hfront, hback⟩, -⟩ := h
  rw [StepQueue.pushAll_idle hidle]
  refine ⟨⟨front, back ++ numbered q.nextId kinds, by simp [hsteps], hfront, fun t ht => ?_⟩,
    fun t ht => by simp [StepQueue.children] at ht⟩
  rcases List.mem_append.mp ht with hold | hnew
  · exact List.mem_append_left _ (hback t hold)
  · exact List.mem_append_right _ (mem_numbered hnew)

/-- While a step runs, what is queued is its own. -/
theorem pushAll_running (h : q.Waits s older ahead behind) {own : List Step}
    (hrunning : q.running = some own) (kinds : List StepKind) :
    (q.pushAll kinds).Waits s older (ahead ++ issued q.nextId (q.pushAll kinds).nextId) behind := by
  obtain ⟨⟨front, back, hsteps, hfront, hback⟩, hchildren⟩ := h
  rw [StepQueue.pushAll_running hrunning]
  refine ⟨⟨front, back, hsteps, fun t ht => List.mem_append_left _ (hfront t ht), hback⟩,
    fun t ht => ?_⟩
  rcases List.mem_append.mp (show t ∈ own ++ numbered q.nextId kinds from ht) with hold | hnew
  · refine List.mem_append_left _ (hchildren t ?_)
    simpa [StepQueue.children, hrunning] using hold
  · exact List.mem_append_right _ (mem_numbered hnew)

theorem pushNext (h : q.Waits s older ahead behind) (kind : StepKind) :
    (q.pushNext kind).Waits s older (ahead ++ issued q.nextId (q.pushNext kind).nextId) behind := by
  obtain ⟨⟨front, back, hsteps, hfront, hback⟩, hchildren⟩ := h
  rw [nextId_pushNext, issued_succ]
  have hnew : q.nextStep ∈ ahead ++ [⟨q.nextId⟩] := List.mem_append_right _ List.mem_cons_self
  have hold : ∀ t ∈ front, t.id ∈ ahead ++ [⟨q.nextId⟩] := fun t ht =>
    List.mem_append_left _ (hfront t ht)
  unfold StepQueue.pushNext
  cases hrunning : q.running with
  | none =>
    refine ⟨⟨⟨q.nextStep, kind⟩ :: front, back, by simp [hsteps], fun t ht => ?_, hback⟩,
      fun t ht => by simp [StepQueue.children] at ht⟩
    rcases List.mem_cons.mp ht with rfl | ht
    · exact hnew
    · exact hold t ht
  | some own =>
    refine ⟨⟨front, back, hsteps, hold, hback⟩, fun t ht => ?_⟩
    rcases List.mem_cons.mp (show t ∈ ⟨q.nextStep, kind⟩ :: own from ht) with rfl | ht
    · exact hnew
    · exact List.mem_append_left _ (hchildren t (by simpa [StepQueue.children, hrunning] using ht))

/-- When a step ends, its own steps go in front of what waits. -/
theorem finish (h : q.Waits s older ahead behind) : q.finish.Waits s older ahead behind := by
  obtain ⟨⟨front, back, hsteps, hfront, hback⟩, hchildren⟩ := h
  refine ⟨⟨q.children ++ front, back, ?_, fun t ht => ?_, hback⟩, fun t ht => ?_⟩
  · show q.children ++ q.steps = _
    rw [hsteps, List.append_assoc]
  · exact (List.mem_append.mp ht).elim (hchildren t) (hfront t)
  · simp [StepQueue.finish, StepQueue.children] at ht

/-- When another step starts, it was in front. -/
theorem started (h : q.Waits s older ahead behind) {s₀ : Step} {rest : List Step}
    (hother : s₀.id ≠ s.id) (hfirst : q.steps = s₀ :: rest) :
    (q.started rest).Waits s older ahead behind := by
  obtain ⟨⟨front, back, hsteps, hfront, hback⟩, -⟩ := h
  rw [hsteps] at hfirst
  cases front with
  | nil =>
    obtain ⟨rfl, -⟩ := List.cons.inj hfirst
    exact absurd rfl hother
  | cons s₁ front =>
    obtain ⟨-, rfl⟩ := List.cons.inj hfirst
    exact ⟨⟨front, back, rfl, fun t ht => hfront t (List.mem_cons_of_mem _ ht), hback⟩,
      fun t ht => by simp [StepQueue.started, StepQueue.children] at ht⟩

theorem withdraw (h : q.Waits s older ahead behind)
    (hdistinct : q.order.Pairwise fun s t => s.id ≠ t.id) {i : StepId} (hi : s.id ≠ i) :
    (q.withdraw i).Waits s (older.filter fun t => t.id ≠ i) ahead behind := by
  obtain ⟨⟨front, back, hsteps, hfront, hback⟩, hchildren⟩ := h
  obtain ⟨-, hsublist, -, -⟩ := q.withdraw_sublist i
  refine ⟨⟨front.filter fun t => t.id ≠ i, back.filter fun t => t.id ≠ i, ?_, fun t ht => ?_,
    fun t ht => ?_⟩, fun t ht => hchildren t (hsublist.subset ht)⟩
  · rw [steps_withdraw hdistinct, hsteps, List.filter_append,
      List.filter_cons_of_pos (by simpa using hi), List.filter_append]
  · exact hfront t (List.mem_filter.mp ht).1
  · exact hback t (List.mem_filter.mp ht).1

/-- When nothing waits that got ahead, the step is at the front. -/
theorem front (h : q.Waits s older ahead behind) (hnone : ∀ t ∈ q.pending, t.id ∉ ahead) :
    ∃ back, q.steps = s :: (older ++ back) ∧ ∀ t ∈ back, t.id ∈ behind := by
  obtain ⟨⟨front, back, hsteps, hfront, hback⟩, -⟩ := h
  cases front with
  | nil => exact ⟨back, hsteps, hback⟩
  | cons s₁ front =>
    refine absurd (hfront s₁ List.mem_cons_self) (hnone s₁ (List.mem_append_left _ ?_))
    simp [hsteps]

end Waits

end StepQueue

open StepQueue (issued numbered)

namespace Moment

variable {m : Moment} {d : Deed} {s : Step} {older : List Step} {ahead behind : List StepId}

/-- The steps that a deed queues. -/
def queuedBy (m : Moment) (d : Deed) : List StepId :=
  issued m.engine.queue.nextId (m.after d).engine.queue.nextId

/-- The steps that wait after a deed and did not before. -/
def arrivals (m : Moment) (d : Deed) : List Step :=
  (m.after d).engine.queue.order.filter fun s => m.engine.queue.nextId ≤ s.id.number

/-- Whether what a deed queues goes in front of what waited before: a step queues it that runs, or
it is the payment of an action. -/
def getsAhead (m : Moment) (d : Deed) : Bool :=
  m.running.isSome || (m.starts? d).isSome || m.activates d

/-- The steps that some deeds queue in front of what waited. -/
def aheadBy : Moment → List Deed → List StepId
  | _, [] => []
  | m, d :: ds => (if m.getsAhead d then m.queuedBy d else []) ++ aheadBy (m.after d) ds

/-- The steps that some deeds queue behind all. -/
def behindBy : Moment → List Deed → List StepId
  | _, [] => []
  | m, d :: ds => (if m.getsAhead d then [] else m.queuedBy d) ++ behindBy (m.after d) ds

/-- From one moment to the next, a step that is not started or withdrawn goes on waiting, and so do
the older ones behind it that are not withdrawn. -/
theorem waits_after (h : m.engine.queue.Waits s older ahead behind) (hreached : m.Reached)
    (hstarts : ∀ t ∈ m.starts? d, t.id ≠ s.id) (hwithdrawn : m.withdrawn? d ≠ some s.id) :
    (m.after d).engine.queue.Waits s (older.filter fun t => t.id ∉ m.withdrawn? d)
      (ahead ++ if m.getsAhead d then m.queuedBy d else [])
      (behind ++ if m.getsAhead d then [] else m.queuedBy d) := by
  have hm : m.InStep := hreached.ready.running
  -- Unless a step is withdrawn, all the older ones wait on.
  have hall : m.withdrawn? d = none → (older.filter fun t => t.id ∉ m.withdrawn? d) = older :=
    fun hnone => List.filter_eq_self.mpr fun t _ => by simp [hnone]
  unfold queuedBy
  cases m.serves d with
  | posts kinds hqueue _ hnone hkept hnot =>
    rw [hall hkept, hqueue]
    cases hrunning : m.running with
    | none =>
      have hbehind : m.getsAhead d = false := by simp [getsAhead, hrunning, hnone, hnot]
      rw [hbehind]
      simpa using h.pushAll_idle (hm.idle hrunning) kinds
    | some r =>
      have hahead : m.getsAhead d = true := by simp [getsAhead, hrunning]
      obtain ⟨own, hown⟩ := hm.busy hrunning
      rw [hahead]
      simpa using h.pushAll_running hown kinds
  | enters kind hqueue _ _ hkept hactivates =>
    have hahead : m.getsAhead d = true := by
      rcases hactivates with hbusy | hactivates
      · simp [getsAhead, hbusy]
      · simp [getsAhead, hactivates]
    rw [hall hkept, hqueue, hahead]
    simpa using h.pushNext kind
  | withdraws i hqueue _ _ _ hkept =>
    rw [hkept] at hwithdrawn ⊢
    have hi : s.id ≠ i := fun heq => hwithdrawn (congrArg some heq.symm)
    obtain ⟨-, -, -, hid⟩ := m.engine.queue.withdraw_sublist i
    rw [hqueue, hid, StepQueue.issued_self]
    have hfilter : (older.filter fun t => t.id ∉ some i) = older.filter fun t => t.id ≠ i :=
      List.filter_congr fun t _ => by simp [eq_comm]
    rw [hfilter]
    simpa using h.withdraw hreached.distinct hi
  | whole s₀ rest kinds hidle hfront hqueue _ hstarted hkept =>
    have hahead : m.getsAhead d = true := by simp [getsAhead, hstarted]
    rw [hall hkept, hqueue, hahead]
    have hwaits := ((h.started (hstarts s₀ hstarted) hfront).pushAll_running rfl kinds).finish
    simpa [StepQueue.finish, StepQueue.started] using hwaits
  | opens s₀ rest _ hfront hqueue _ hstarted hkept =>
    have hnext : (m.after d).engine.queue.nextId = m.engine.queue.nextId := by rw [hqueue]; rfl
    rw [hall hkept, hnext, StepQueue.issued_self, hqueue]
    simpa using h.started (hstarts s₀ hstarted) hfront
  | closes kinds hbusy hqueue _ _ hkept =>
    have hahead : m.getsAhead d = true := by simp [getsAhead, hbusy]
    obtain ⟨r, hrunning⟩ := Option.isSome_iff_exists.mp hbusy
    obtain ⟨own, hown⟩ := hm.busy hrunning
    rw [hall hkept, hqueue, hahead]
    have hwaits := (h.pushAll_running hown kinds).finish
    simpa [StepQueue.finish] using hwaits

/-- In a run that does not start or withdraw a step, the step waits to the end, and so do the older
ones behind it that are not withdrawn. -/
theorem waits_run (h : m.engine.queue.Waits s older ahead behind) (hreached : m.Reached)
    (ds : List Deed) (hstarts : s.id ∉ m.startedBy ds) (hwithdrawn : s.id ∉ m.withdrawnBy ds) :
    (m.run ds).engine.queue.Waits s (older.filter fun t => t.id ∉ m.withdrawnBy ds)
      (ahead ++ m.aheadBy ds) (behind ++ m.behindBy ds) := by
  induction ds generalizing m older ahead behind with
  | nil => simpa [run, aheadBy, behindBy, withdrawnBy] using h
  | cons d ds ih =>
    rw [startedBy, List.mem_append, not_or] at hstarts
    rw [withdrawnBy, List.mem_append, not_or] at hwithdrawn
    obtain ⟨hnow, hlater⟩ := hstarts
    obtain ⟨hkept, hkeptLater⟩ := hwithdrawn
    have hafter := waits_after h hreached (d := d)
      (fun t ht heq => hnow (by simp [Option.mem_def.mp ht, heq]))
      (fun hsome => hkept (by simp [hsome]))
    have hrun := ih hafter (hreached.after d) hlater hkeptLater
    have hfilter : ((older.filter fun t => t.id ∉ m.withdrawn? d).filter fun t =>
        t.id ∉ (m.after d).withdrawnBy ds) =
          older.filter fun t => t.id ∉ m.withdrawnBy (d :: ds) := by
      rw [List.filter_filter]
      refine List.filter_congr fun t _ => ?_
      simp [withdrawnBy, Bool.and_comm]
    rw [hfilter, List.append_assoc, List.append_assoc] at hrun
    exact hrun

/-! ## What the queue does by itself -/

variable {e : Engine}

/-- Where the queue rests, it does nothing by itself. -/
theorem run_rests (hidle : e.queue.running = none) (hrests : e.queue.Rests) {ds : List Deed}
    (h : ∀ d ∈ ds, d.Unasked) : run ⟨e, none⟩ ds = ⟨e, none⟩ := by
  have hbegin : e.queue.begin? = none := by
    unfold StepQueue.begin?
    rw [hidle]
    rcases hrests with hnil | hprompt
    · rw [hnil]
    · unfold StepQueue.frontPrompt? at hprompt
      split at hprompt
      · rename_i hfront
        rw [hfront]
      · simp at hprompt
  induction ds with
  | nil => rfl
  | cons d ds ih =>
    obtain ⟨hd, hds⟩ := List.forall_mem_cons.mp h
    have hafter : after ⟨e, none⟩ d = ⟨e, none⟩ := by
      cases d with
      | turn =>
        show turn e = _
        unfold turn
        rw [hbegin]
      | go => rfl
      | call c => exact hd.elim
      | answer p n => exact hd.elim
    rw [run_cons, hafter]
    exact ih hds

/-- Of what the queue does by itself, nothing is queued behind all. -/
theorem behindBy_unasked (m : Moment) {ds : List Deed} (h : ∀ d ∈ ds, d.Unasked) :
    m.behindBy ds = [] := by
  induction ds generalizing m with
  | nil => rfl
  | cons d ds ih =>
    obtain ⟨hd, hds⟩ := List.forall_mem_cons.mp h
    have hnothing : (if m.getsAhead d then [] else m.queuedBy d) = [] := by
      by_cases hahead : m.getsAhead d
      · exact if_pos hahead
      · rw [if_neg hahead]
        have hsame : m.after d = m → m.queuedBy d = [] := fun hafter => by
          rw [queuedBy, hafter, StepQueue.issued_self]
        simp only [getsAhead, Bool.or_eq_true, not_or, Bool.not_eq_true, Option.isSome_eq_false_iff,
          Option.isNone_iff_eq_none] at hahead
        obtain ⟨⟨hidle, hstarts⟩, -⟩ := hahead
        obtain ⟨e, running⟩ := m
        obtain rfl : running = none := hidle
        cases d with
        | turn =>
          refine hsame (show turn e = _ from ?_)
          unfold turn
          rw [Option.map_eq_none_iff.mp (show e.queue.begin?.map (·.1) = none from hstarts)]
        | go => exact hsame rfl
        | call c => exact hd.elim
        | answer p n => exact hd.elim
    rw [behindBy, hnothing, ih _ hds]
    rfl

/-- A prompt that waits and is not withdrawn does not start by itself. -/
theorem prompt_not_startedBy (h : m.engine.queue.Waits s older ahead behind) (hreached : m.Reached)
    {p : Prompt} (hprompt : s.kind = .prompt p) {ds : List Deed} (hunasked : ∀ d ∈ ds, d.Unasked)
    (hwithdrawn : s.id ∉ m.withdrawnBy ds) : s.id ∉ m.startedBy ds := by
  induction ds generalizing m older ahead behind with
  | nil => simp [startedBy]
  | cons d ds ih =>
    obtain ⟨hd, hds⟩ := List.forall_mem_cons.mp hunasked
    rw [withdrawnBy, List.mem_append, not_or] at hwithdrawn
    obtain ⟨hkept, hkeptLater⟩ := hwithdrawn
    -- What starts by itself is no prompt, so it is another step.
    have hother : ∀ t ∈ m.starts? d, t.id ≠ s.id := by
      intro t ht hid
      obtain rfl : t = s := hreached.eq_of_id (mem_order_of_starts ht) h.mem hid
      obtain ⟨q, hbegin⟩ : ∃ q, m.engine.queue.begin? = some (t, q) := by
        cases d with
        | turn =>
          obtain ⟨q, -, hbegin, -⟩ := begin?_of_starts ht
          exact ⟨q, hbegin⟩
        | go => cases hrunning : m.running <;> simp [starts?, hrunning] at ht
        | call c => exact hd.elim
        | answer p n => exact hd.elim
      obtain ⟨i, kind⟩ := t
      obtain rfl : kind = .prompt p := hprompt
      exact StepQueue.begin?_ne_prompt hbegin
    have hafter := waits_after h hreached hother fun hsome => hkept (by simp [hsome])
    rw [startedBy, List.mem_append, not_or]
    refine ⟨fun hnow => ?_, ih hafter (hreached.after d) hds hkeptLater⟩
    obtain ⟨t, ht, hid⟩ : ∃ t, m.starts? d = some t ∧ t.id = s.id := by simpa using hnow
    exact hother t ht hid

end Moment

/-! ## What is asked meanwhile -/

namespace Request

/-- The step that a request withdraws by its number. -/
def strikes : Request → Option StepId
  | call (.order (.withdraw i)) => some i
  | _ => none

/-- What is asked while a prompt is open and neither answers it, nor withdraws it, nor starts an
action. -/
inductive Quiet (e : Engine) (i : StepId) (p : Prompt) : Request → Prop
  | settle : Quiet e i p settle
  | raise (event : EventData) (change : Script) : Quiet e i p (raise event change)
  | queue (label : String) (body : Script) : Quiet e i p (call (.queue label body))
  | ask (player : PlayerId) (view : PromptView) (answers : Nat → Script) :
    Quiet e i p (ask player view answers)
  | beginRound : Quiet e i p beginRound
  | move (c : CardId) (destination : Location) : Quiet e i p (move c destination)
  /-- The answer of another player, or one that the prompt does not have. -/
  | rejected (player : PlayerId) (n : Nat) (h : ¬(n < p.buttons.length ∧ p.player = player)) :
    Quiet e i p (answer player n)
  /-- An action that cannot be started. -/
  | illegal (a : AbilityId) (player : PlayerId) (h : e.canActivate a player = false) :
    Quiet e i p (activate a player)
  /-- The withdrawal of another step. -/
  | withdraw (j : StepId) (h : i ≠ j) : Quiet e i p (call (.order (.withdraw j)))

variable {e : Engine} {i : StepId} {p : Prompt} {older : List Step} {r : Request}

/-- What is asked quietly starts no step and no action, and withdraws only the step that it
names. -/
theorem Quiet.deed (h : r.Quiet e i p) (hidle : e.queue.running = none)
    (hfront : e.queue.steps = ⟨i, .prompt p⟩ :: older) :
    ∀ d ∈ r.deed? e, Moment.starts? ⟨e, none⟩ d = none ∧ Moment.activates ⟨e, none⟩ d = false ∧
      Moment.withdrawn? ⟨e, none⟩ d = r.strikes.filter e.queue.contains := by
  cases h with
  | rejected player n hrejected =>
    have hbegin : e.queue.beginAnswer? = some (i, p, e.queue.started older) := by
      simp [StepQueue.beginAnswer?, hidle, hfront, StepQueue.started]
    rintro d ⟨⟩
    exact ⟨by simp [Moment.starts?, hbegin, hrejected], rfl, rfl⟩
  | illegal a player hillegal =>
    rintro d ⟨⟩
    exact ⟨rfl, hillegal, rfl⟩
  | withdraw j hj =>
    rintro d ⟨⟩
    refine ⟨rfl, rfl, ?_⟩
    show (if e.queue.contains j then some j else none) = _
    simp [strikes, Option.filter]
  | settle => rintro d ⟨⟩
  | _ =>
    rintro d ⟨⟩
    exact ⟨rfl, rfl, rfl⟩

theorem Quiet.other (h : r.Quiet e i p) : ∀ j ∈ r.strikes, i ≠ j := by
  cases h with
  | withdraw j hj =>
    rintro _ ⟨⟩
    exact hj
  | _ => rintro _ ⟨⟩

/-- What is asked quietly queues its steps at the end. -/
theorem Quiet.queue_after (h : r.Quiet e i p) (hidle : e.queue.running = none)
    (hfront : e.queue.steps = ⟨i, .prompt p⟩ :: older) : ∃ e₁ kinds,
    Moment.run ⟨e, none⟩ (r.deed? e).toList = ⟨e₁, none⟩ ∧
      e₁.queue = ⟨⟨i, .prompt p⟩ :: (older.eraseP (·.id ∈ r.strikes) ++
        numbered e.queue.nextId kinds), none, e.queue.nextId + kinds.length⟩ := by
  have hdeed := h.deed hidle hfront
  -- Unless a step is withdrawn that waits, all the older ones stay.
  have hkeeps : r.strikes.filter e.queue.contains = none →
      older.eraseP (·.id ∈ r.strikes) = older := by
    intro hnone
    refine List.eraseP_of_forall_not fun t ht => ?_
    simp only [decide_eq_true_eq]
    intro hstrikes
    rw [Option.mem_def.mp hstrikes, Option.filter_some, if_pos] at hnone
    · simp at hnone
    · have hpending : t ∈ e.queue.pending := by simp [StepQueue.pending, hfront, ht]
      exact List.any_eq_true.mpr ⟨t, hpending, by simp⟩
  have hposts : ∀ {e₁ : Engine} {kinds}, r.strikes.filter e.queue.contains = none →
      e₁.queue = e.queue.pushAll kinds →
      e₁.queue = ⟨⟨i, .prompt p⟩ :: (older.eraseP (·.id ∈ r.strikes) ++
        numbered e.queue.nextId kinds), none, e.queue.nextId + kinds.length⟩ := by
    intro e₁ kinds hnone hqueue
    rw [hqueue, StepQueue.pushAll_idle hidle, hkeeps hnone, hfront]
    rfl
  cases hasked : r.deed? e with
  | none =>
    have hnone : r.strikes = none := by
      cases h with
      | settle => rfl
      | _ => cases hasked
    exact ⟨e, [], rfl, hposts (by simp [hnone]) rfl⟩
  | some d =>
    obtain ⟨hstarts, hactivates, hwithdrawn⟩ := hdeed d hasked
    show ∃ e₁ kinds, Moment.after ⟨e, none⟩ d = ⟨e₁, none⟩ ∧ _
    have hserves := Moment.serves ⟨e, none⟩ d
    generalize Moment.after ⟨e, none⟩ d = m' at hserves
    obtain ⟨e₁, running⟩ := m'
    cases hserves with
    | posts kinds hqueue hrunning _ hnone =>
      obtain rfl : running = none := by simpa using hrunning
      exact ⟨e₁, kinds, rfl, hposts (hwithdrawn.symm.trans hnone) hqueue⟩
    | enters kind _ _ _ _ hentered => simp [hactivates] at hentered
    | withdraws j hqueue _ hrunning _ hsome =>
      obtain rfl : running = none := by simpa using hrunning
      have hstrikes : r.strikes = some j :=
        (Option.filter_eq_some_iff.mp (hwithdrawn.symm.trans hsome)).1
      refine ⟨e₁, [], rfl, ?_⟩
      rw [show e₁.queue = _ from hqueue,
        StepQueue.withdraw_older hidle hfront (h.other j hstrikes), hstrikes]
      simp [numbered, eq_comm]
    | whole s rest kinds _ _ _ _ hsome => simp [hstarts] at hsome
    | opens s rest _ _ _ _ hsome => simp [hstarts] at hsome
    | closes kinds hbusy => simp at hbusy

/-- A request runs no step and leaves a prompt at the front, with the older steps behind it, but for
the one that it withdraws, and then the steps that it queues. -/
structure LeavesOpen (r : Request) (fuel : Nat) (e : Engine) (i : StepId) (p : Prompt)
    (older : List Step) : Prop where
  /-- It does its own deed, and nothing follows. -/
  run : Moment.run ⟨e, none⟩ (r.deed? e).toList = ⟨((r.play fuel).ends e).2, none⟩
  started : Moment.startedBy ⟨e, none⟩ (r.deed? e).toList = []
  queue : ∃ kinds, ((r.play fuel).ends e).2.queue =
    ⟨⟨i, .prompt p⟩ :: (older.eraseP (·.id ∈ r.strikes) ++ numbered e.queue.nextId kinds), none,
      e.queue.nextId + kinds.length⟩

theorem Quiet.leavesOpen (h : r.Quiet e i p) (hidle : e.queue.running = none)
    (hfront : e.queue.steps = ⟨i, .prompt p⟩ :: older) (fuel : Nat) :
    r.LeavesOpen fuel e i p older := by
  obtain ⟨e₁, kinds, hdeed, hqueue⟩ := h.queue_after hidle hfront
  obtain ⟨ds, hunasked, hrun⟩ := r.run fuel e
  -- After the deed the prompt is at the front, so nothing follows.
  have hrests : e₁.queue.Rests := .inr (by simp [StepQueue.frontPrompt?, hqueue])
  rw [Moment.run_append, hdeed,
    Moment.run_rests (congrArg StepQueue.running hqueue) hrests hunasked] at hrun
  obtain rfl : e₁ = ((r.play fuel).ends e).2 := congrArg Moment.engine hrun
  refine ⟨hdeed, ?_, kinds, hqueue⟩
  cases hasked : r.deed? e with
  | none => rfl
  | some d =>
    obtain ⟨hstarts, -, -⟩ := h.deed hidle hfront d hasked
    simp [Moment.startedBy, hstarts]

end Request

namespace Engine

variable {e : Engine} {i : StepId} {p : Prompt} {older : List Step}

/-- An action is started in front of a prompt. What it and the queue queue then goes in front as
well, and the prompt does not start. -/
structure GoesAhead (e : Engine) (i : StepId) (p : Prompt) (older : List Step) (d : Deed)
    (ds : List Deed) : Prop where
  payment : (Moment.after ⟨e, none⟩ d).engine.queue.steps =
    ⟨e.queue.nextStep, .resolve ⟨e.nextActivation⟩ .payCosts⟩ :: ⟨i, .prompt p⟩ :: older
  behind : Moment.behindBy ⟨e, none⟩ (d :: ds) = []
  started : i ∉ Moment.withdrawnBy ⟨e, none⟩ (d :: ds) → i ∉ Moment.startedBy ⟨e, none⟩ (d :: ds)

theorem waits_front (hidle : e.queue.running = none)
    (hfront : e.queue.steps = ⟨i, .prompt p⟩ :: older) :
    e.queue.Waits ⟨i, .prompt p⟩ older [] [] :=
  ⟨⟨[], [], by simp [hfront], by simp, by simp⟩, by simp [StepQueue.children, hidle]⟩

theorem goesAhead_activate (hreached : Moment.Reached ⟨e, none⟩)
    (hfront : e.queue.steps = ⟨i, .prompt p⟩ :: older) {a : AbilityId} {player : PlayerId}
    (hcan : e.canActivate a player) {ds : List Deed} (hunasked : ∀ d ∈ ds, d.Unasked) :
    e.GoesAhead i p older (.call (.order (.activate a player))) ds := by
  have hidle : e.queue.running = none := Moment.InStep.idle hreached.ready.running rfl
  have hactivates : Moment.activates ⟨e, none⟩ (.call (.order (.activate a player))) := hcan
  have hqueue : (Moment.after ⟨e, none⟩ (.call (.order (.activate a player)))).engine.queue =
      e.queue.pushNext (.resolve ⟨e.nextActivation⟩ .payCosts) := by
    have h := e.activate_queue a player
    rw [if_pos hcan] at h
    show (((Call.order (.activate a player)).play).ends e).2.queue = _
    rw [Call.play, ends_discard]
    exact h
  have hpushed : (e.queue.pushNext (.resolve ⟨e.nextActivation⟩ .payCosts)).steps =
      ⟨e.queue.nextStep, .resolve ⟨e.nextActivation⟩ .payCosts⟩ :: e.queue.steps := by
    simp [StepQueue.pushNext, hidle]
  refine ⟨?_, ?_, fun hwithdrawn => ?_⟩
  · rw [hqueue, hpushed, hfront]
  · have hahead : Moment.getsAhead ⟨e, none⟩ (.call (.order (.activate a player))) = true := by
      simp [Moment.getsAhead, hactivates]
    rw [Moment.behindBy, if_pos hahead, Moment.behindBy_unasked _ hunasked]
    rfl
  · rw [Moment.withdrawnBy, List.mem_append, not_or] at hwithdrawn
    obtain ⟨hnow, hlater⟩ := hwithdrawn
    have hwaits := Moment.waits_after (m := ⟨e, none⟩) (waits_front hidle hfront) hreached
      (d := .call (.order (.activate a player))) (by simp [Moment.starts?])
      (fun hsome => hnow (by simp [hsome]))
    have hstarted := Moment.prompt_not_startedBy hwaits (hreached.after _) rfl hunasked hlater
    simpa [Moment.startedBy, Moment.starts?] using hstarted

/-- An open prompt suspends everything. What is asked without answering it, withdrawing it or
starting an action leaves it open. An action that can be started gets ahead of it, and so does all
that the queue then queues by itself. And in any run the prompt waits, with the older steps behind
it that were not withdrawn, until it is answered or withdrawn; and when nothing is pending of what
got ahead, it is at the front again. -/
theorem prompt_suspends (hidle : e.queue.running = none)
    (hfront : e.queue.steps = ⟨i, .prompt p⟩ :: older) :
    (∀ (r : Request) (fuel : Nat), r.Quiet e i p → r.LeavesOpen fuel e i p older) ∧
    (Moment.Reached ⟨e, none⟩ →
      (∀ (a : AbilityId) (player : PlayerId) (fuel : Nat), e.canActivate a player → ∃ ds,
        Moment.run ⟨e, none⟩ (.call (.order (.activate a player)) :: ds) =
          ⟨((playAction fuel a player).ends e).2, none⟩ ∧
        e.GoesAhead i p older (.call (.order (.activate a player))) ds) ∧
      ∀ ds : List Deed, i ∉ Moment.startedBy ⟨e, none⟩ ds → i ∉ Moment.withdrawnBy ⟨e, none⟩ ds →
        let older' := older.filter fun t => t.id ∉ Moment.withdrawnBy ⟨e, none⟩ ds
        let q := (Moment.run ⟨e, none⟩ ds).engine.queue
        q.Waits ⟨i, .prompt p⟩ older' (Moment.aheadBy ⟨e, none⟩ ds)
          (Moment.behindBy ⟨e, none⟩ ds) ∧
        ((∀ t ∈ q.pending, t.id ∉ Moment.aheadBy ⟨e, none⟩ ds) →
          ∃ back, q.steps = ⟨i, .prompt p⟩ :: (older' ++ back) ∧
            ∀ t ∈ back, t.id ∈ Moment.behindBy ⟨e, none⟩ ds)) := by
  refine ⟨fun r fuel hquiet => hquiet.leavesOpen hidle hfront fuel,
    fun hreached => ⟨fun a player fuel hcan => ?_, fun ds hstarts hwithdrawn => ?_⟩⟩
  · obtain ⟨ds, hunasked, hrun⟩ := entails_playAction fuel a player e
    exact ⟨ds, hrun, goesAhead_activate hreached hfront hcan hunasked⟩
  · have hrun := Moment.waits_run (m := ⟨e, none⟩) (waits_front hidle hfront) hreached ds hstarts
      hwithdrawn
    rw [List.nil_append, List.nil_append] at hrun
    exact ⟨hrun, hrun.front⟩

/-- A player is asked something, an older step waits, and the deed has an action. -/
def questionOpen : Engine :=
  ((Moment.start Moment.deedInPlay).run
    [.call (.attach ⟨3⟩ { kind := .action, handler := some fun _ => .done }),
      .call (.ask ⟨1⟩ "Ready?" ["Yes"] none fun _ => .done),
      .call (.queue "older" .done)]).engine

/-- A round that begins is queued at the end. The action comes to its end in front of the prompt, of
which the older step waits behind. -/
theorem prompt_suspends_questionOpen :
    questionOpen.queue.running = none ∧ Moment.Reached ⟨questionOpen, none⟩ ∧
      ∃ p older, questionOpen.queue.steps = ⟨⟨0⟩, .prompt p⟩ :: older ∧
        Request.beginRound.LeavesOpen 9 questionOpen ⟨0⟩ p older ∧
        ((Request.beginRound.play 9).ends questionOpen).2.queue.pendingIds = [⟨0⟩, ⟨1⟩, ⟨2⟩] ∧
        questionOpen.canActivate ⟨0⟩ ⟨0⟩ ∧
        ((playAction 9 ⟨0⟩ ⟨0⟩).ends questionOpen).2.queue.pendingIds = [⟨0⟩, ⟨1⟩] ∧
        ∃ ds, Moment.run ⟨questionOpen, none⟩ (.call (.order (.activate ⟨0⟩ ⟨0⟩)) :: ds) =
            ⟨((playAction 9 ⟨0⟩ ⟨0⟩).ends questionOpen).2, none⟩ ∧
          questionOpen.GoesAhead ⟨0⟩ p older (.call (.order (.activate ⟨0⟩ ⟨0⟩))) ds := by
  have hidle : questionOpen.queue.running = none := rfl
  have hreached : Moment.Reached ⟨questionOpen, none⟩ := ⟨Moment.deedInPlay, _, rfl⟩
  have hcan : questionOpen.canActivate ⟨0⟩ ⟨0⟩ := by decide +kernel
  obtain ⟨hquiet, hruns⟩ := prompt_suspends (e := questionOpen) hidle rfl
  obtain ⟨hactions, -⟩ := hruns hreached
  exact ⟨hidle, hreached, _, _, rfl, hquiet .beginRound 9 .beginRound, by decide +kernel, hcan,
    by decide +kernel, hactions ⟨0⟩ ⟨0⟩ 9 hcan⟩

end Engine

end Doomtown
