import Doomtown.Proofs.Posting
import Doomtown.Proofs.Requests
import Mathlib.Data.List.Range

/-!
# No step is lost

A step that was queued is pending, or it is running, or it has run, or it was withdrawn: one of
these at any time, and once. That is so of a queue whatever is done to it (`Chronicle.accounted`).
What a deed does to the queue of the engine is some acts that start and withdraw the steps that the
deed starts and withdraws (`Moment.chronicled`), so it is so of the engine as well, also in the
middle of a deed. And whatever the engine is asked from outside, and however that ends, no step runs
afterwards, and what was pending before and not run or withdrawn since is pending still
(`Engine.steps_accounted`).
-/

namespace Doomtown

open Play

namespace StepQueue

/-! ## Numbers that were given -/

/-- The numbers of the pending steps. -/
def pendingIds (q : StepQueue) : List StepId := q.pending.map (·.id)

/-- The numbers that were given while the next number rose from one to another. -/
def issued (n n' : Nat) : List StepId := (List.range' n (n' - n)).map Id.mk

theorem issued_self (n : Nat) : issued n n = [] := by simp [issued]

theorem issued_succ (n : Nat) : issued n (n + 1) = [⟨n⟩] := by simp [issued]

theorem issued_append {n n' n'' : Nat} (h : n ≤ n') (h' : n' ≤ n'') :
    issued n n' ++ issued n' n'' = issued n n'' := by
  obtain ⟨k, rfl⟩ := Nat.exists_eq_add_of_le h
  obtain ⟨k', rfl⟩ := Nat.exists_eq_add_of_le h'
  unfold issued
  rw [← List.map_append]
  have hk : n + k - n = k := by omega
  have hk' : n + k + k' - (n + k) = k' := by omega
  have hsum : n + k + k' - n = k + k' := by omega
  rw [hk, hk', hsum, List.range'_append_1]

theorem mem_issued {n n' : Nat} {i : StepId} :
    i ∈ issued n n' ↔ n ≤ i.number ∧ i.number < n' := by
  obtain ⟨k⟩ := i
  simp only [issued, List.mem_map, List.mem_range'_1, Id.mk.injEq, exists_eq_right]
  omega

theorem issued_nodup (n n' : Nat) : (issued n n').Nodup :=
  List.Pairwise.map _ (fun _ _ hne heq => hne (Id.mk.inj heq)) (List.nodup_range' 1)

/-! ## What becomes of pending steps -/

variable {q : StepQueue} {i : StepId}

theorem pendingIds_push (q : StepQueue) (kind : StepKind) :
    (q.push kind).pendingIds.Perm (q.nextStep :: q.pendingIds) := by
  have hmiddle : ∀ l l' : List StepId, (l ++ (l' ++ [q.nextStep])).Perm (q.nextStep :: (l ++ l')) :=
    fun l l' => by rw [← List.append_assoc]; exact List.perm_append_singleton _ _
  unfold pendingIds pending children push
  cases q.running with
  | none => simp
  | some own => simpa using hmiddle (q.steps.map (·.id)) (own.map (·.id))

theorem pendingIds_pushNext (q : StepQueue) (kind : StepKind) :
    (q.pushNext kind).pendingIds.Perm (q.nextStep :: q.pendingIds) := by
  unfold pendingIds pending children pushNext
  cases q.running with
  | none => simp
  | some own => simp

/-- Of the steps of a number, the first is taken out. -/
theorem ids_eraseP {l : List Step} (h : l.any (·.id = i)) :
    (l.map (·.id)).Perm (i :: (l.eraseP (·.id = i)).map (·.id)) := by
  obtain ⟨s, hs, hsi⟩ := List.any_eq_true.mp h
  obtain ⟨t, front, back, -, hti, hsplit, herased⟩ :=
    @List.exists_of_eraseP _ (fun s : Step => decide (s.id = i)) l s hs hsi
  obtain rfl : t.id = i := of_decide_eq_true hti
  rw [herased, hsplit, List.map_append, List.map_append, List.map_cons]
  exact List.perm_middle

theorem pendingIds_withdraw (h : q.contains i) :
    q.pendingIds.Perm (i :: (q.withdraw i).pendingIds) := by
  simp only [contains, pending, List.any_append, Bool.or_eq_true] at h
  unfold pendingIds pending withdraw
  split
  · rename_i hsteps
    rw [List.map_append, List.map_append, ← List.cons_append]
    exact (ids_eraseP hsteps).append_right _
  · rename_i hsteps
    -- It is among the running step's own.
    have hown := h.resolve_left hsteps
    unfold children at hown ⊢
    cases hrunning : q.running with
    | none => simp [hrunning] at hown
    | some own =>
      rw [hrunning] at hown
      rw [List.map_append, List.map_append]
      exact ((ids_eraseP hown).append_left _).trans List.perm_middle

theorem pendingIds_started {s : Step} {rest : List Step} (hidle : q.running = none)
    (hfront : q.steps = s :: rest) : q.pendingIds = s.id :: (q.started rest).pendingIds := by
  simp [pendingIds, pending, children, started, hidle, hfront]

theorem pendingIds_finish (q : StepQueue) : q.finish.pendingIds.Perm q.pendingIds := by
  have hfinish : q.finish.pendingIds = (q.children ++ q.steps).map (·.id) := by
    simp [pendingIds, pending, finish, children]
  rw [hfinish]
  exact List.perm_append_comm.map _

/-! ## The ledger of a queue -/

/-- The step that an entry starts. -/
def Entry.begun? : Entry → Option StepId
  | .started i _ => some i
  | .queued .. | .withdrawn _ => none

/-- The step that an entry withdraws. -/
def Entry.dropped? : Entry → Option StepId
  | .withdrawn i => some i
  | .queued .. | .started .. => none

namespace Chronicle

variable {r : Chronicle}

/-- The steps that were started, the latest first. -/
def started (r : Chronicle) : List StepId := r.past.filterMap Entry.begun?

/-- The steps that were withdrawn, the latest first. -/
def withdrawn (r : Chronicle) : List StepId := r.past.filterMap Entry.dropped?

/-- The steps that have run: all that were started but the one that runs. -/
def done (r : Chronicle) : List StepId := if r.current.isSome then r.started.tail else r.started

/-- All steps that the chronicle knows of: those that are pending, those that were started and those
that were withdrawn. -/
def known (r : Chronicle) : List StepId := r.queue.pendingIds ++ r.started ++ r.withdrawn

/-- A step that starts is known as before. -/
theorem known_start {q : StepQueue} {s : Step} {waiting : List StepId}
    (h : r.queue.pendingIds = s.id :: q.pendingIds) :
    (⟨q, some s.id, .started s.id waiting :: r.past⟩ : Chronicle).known.Perm r.known := by
  show (q.pendingIds ++ s.id :: r.started ++ r.withdrawn).Perm _
  unfold known
  rw [h, List.cons_append, List.cons_append]
  exact List.perm_middle.append_right _

/-- Whatever is done to a queue, no step gets out of sight, and those come in sight that are
queued. -/
theorem known_record (r : Chronicle) (a : Act) :
    r.queue.nextId ≤ (r.record a).queue.nextId ∧
      (r.record a).known.Perm (issued r.queue.nextId (r.record a).queue.nextId ++ r.known) := by
  cases a with
  | push kind =>
    refine ⟨by simp [record], ?_⟩
    show ((r.queue.push kind).pendingIds ++ r.started ++ r.withdrawn).Perm
      (issued _ (r.queue.push kind).nextId ++ _)
    rw [nextId_push, issued_succ]
    exact ((pendingIds_push r.queue kind).append_right _).append_right _
  | pushNext kind =>
    refine ⟨by simp [record], ?_⟩
    show ((r.queue.pushNext kind).pendingIds ++ r.started ++ r.withdrawn).Perm
      (issued _ (r.queue.pushNext kind).nextId ++ _)
    rw [nextId_pushNext, issued_succ]
    exact ((pendingIds_pushNext r.queue kind).append_right _).append_right _
  | withdraw i =>
    obtain ⟨-, -, -, hid⟩ := r.queue.withdraw_sublist i
    have hnext : (r.record (.withdraw i)).queue.nextId = r.queue.nextId := hid
    rw [hnext, issued_self]
    refine ⟨Nat.le_refl _, ?_⟩
    by_cases hcontains : r.queue.contains i
    · have hrecord : r.record (.withdraw i) =
          ⟨r.queue.withdraw i, r.current, .withdrawn i :: r.past⟩ := by simp [record, hcontains]
      rw [hrecord, List.nil_append]
      show ((r.queue.withdraw i).pendingIds ++ r.started ++ i :: r.withdrawn).Perm r.known
      refine List.perm_middle.trans ?_
      rw [← List.cons_append, ← List.cons_append]
      exact ((pendingIds_withdraw hcontains).symm.append_right _).append_right _
    · have hrecord : r.record (.withdraw i) = r := by
        simp [record, hcontains, withdraw_of_not_contains]
      rw [hrecord, List.nil_append]
  | start =>
    unfold record
    cases hbegin : r.queue.begin? with
    | none => exact ⟨Nat.le_refl _, by rw [issued_self]; exact .refl _⟩
    | some sq =>
      obtain ⟨s, q⟩ := sq
      obtain ⟨rest, hidle, hfront, rfl⟩ := begin?_eq_some hbegin
      refine ⟨Nat.le_refl _, ?_⟩
      dsimp only
      rw [issued_self]
      exact known_start (pendingIds_started hidle hfront)
  | answer =>
    unfold record
    cases hbegin : r.queue.beginAnswer? with
    | none => exact ⟨Nat.le_refl _, by rw [issued_self]; exact .refl _⟩
    | some ipq =>
      obtain ⟨i, p, q⟩ := ipq
      obtain ⟨rest, hidle, hfront, rfl⟩ := beginAnswer?_eq_some hbegin
      refine ⟨Nat.le_refl _, ?_⟩
      dsimp only
      rw [issued_self]
      exact known_start (s := ⟨i, .prompt p⟩) (pendingIds_started hidle hfront)
  | finish =>
    refine ⟨Nat.le_refl _, ?_⟩
    show (r.queue.finish.pendingIds ++ r.started ++ r.withdrawn).Perm (issued _ r.queue.nextId ++ _)
    rw [issued_self]
    exact ((pendingIds_finish r.queue).append_right _).append_right _

theorem known_run (r : Chronicle) (acts : List Act) :
    r.queue.nextId ≤ (acts.foldl record r).queue.nextId ∧
      (acts.foldl record r).known.Perm
        (issued r.queue.nextId (acts.foldl record r).queue.nextId ++ r.known) := by
  induction acts generalizing r with
  | nil =>
    refine ⟨Nat.le_refl _, ?_⟩
    rw [List.foldl_nil, issued_self]
    exact .refl _
  | cons a acts ih =>
    obtain ⟨hle, hknown⟩ := r.known_record a
    obtain ⟨hle', hknown'⟩ := ih (r.record a)
    refine ⟨Nat.le_trans hle hle', hknown'.trans ((hknown.append_left _).trans ?_)⟩
    rw [List.foldl_cons, ← List.append_assoc, ← issued_append hle hle']
    exact List.perm_append_comm.append_right _

/-- The step that runs is the one that was started last. -/
theorem started_eq (acts : List Act) :
    (of acts).started = (of acts).current.toList ++ (of acts).done := by
  -- Each act starts the step that runs then, or lets it run on, or none runs behind it.
  have hrecord : ∀ (r : Chronicle) (a : Act), (∀ c ∈ r.current, r.started.head? = some c) →
      ∀ c ∈ (r.record a).current, (r.record a).started.head? = some c := by
    intro r a h
    cases a with
    | push kind => exact h
    | pushNext kind => exact h
    | withdraw i =>
      unfold record
      dsimp only
      split
      · exact h
      · exact h
    | start =>
      unfold record
      cases r.queue.begin? with
      | none => exact h
      | some sq => exact fun c hc => hc
    | answer =>
      unfold record
      cases r.queue.beginAnswer? with
      | none => exact h
      | some ipq => exact fun c hc => hc
    | finish => exact fun c hc => by simp [record] at hc
  have hrun : ∀ (acts : List Act) (r : Chronicle), (∀ c ∈ r.current, r.started.head? = some c) →
      ∀ c ∈ (acts.foldl record r).current, (acts.foldl record r).started.head? = some c := by
    intro acts
    induction acts with
    | nil => exact fun r h => h
    | cons a acts ih => exact fun r h => ih (r.record a) (hrecord r a h)
  have hlatest := hrun acts ⟨.empty, none, []⟩ (by simp)
  change ∀ c ∈ (of acts).current, (of acts).started.head? = some c at hlatest
  unfold done
  cases hc : (of acts).current with
  | none => rfl
  | some c => exact (List.cons_head?_tail (hlatest c hc)).symm

/-- Each step that was ever queued is pending, or runs, or has run, or was withdrawn, and it is so
once; and the queue knows whether a step runs. -/
structure Accounted (r : Chronicle) : Prop where
  once : (r.queue.pendingIds ++ r.current.toList ++ r.done ++ r.withdrawn).Perm
    (issued 0 r.queue.nextId)
  running : r.current.isSome = r.queue.isRunning

theorem accounted (acts : List Act) : (of acts).Accounted := by
  obtain ⟨-, hknown⟩ := known_run ⟨.empty, none, []⟩ acts
  change (of acts).known.Perm (issued 0 (of acts).queue.nextId ++ []) at hknown
  refine ⟨?_, (sound_of acts).matching⟩
  rw [List.append_assoc (pendingIds _), ← started_eq acts]
  exact hknown.trans (by rw [List.append_nil])

/-- No step that was ever queued is in two of these states, or twice in one. -/
theorem Accounted.nodup {r : Chronicle} (h : r.Accounted) :
    (r.queue.pendingIds ++ r.current.toList ++ r.done ++ r.withdrawn).Nodup :=
  h.once.nodup_iff.mpr (issued_nodup 0 r.queue.nextId)

/-! ## The ledger of the engine -/

/-- A chronicle has led to a queue, and has started and withdrawn some steps, the latest first. -/
structure Tells (r : Chronicle) (q : StepQueue) (running : Bool) (started withdrawn : List StepId) :
    Prop where
  queue : r.queue = q
  running : r.current.isSome = running
  started : r.started = started
  withdrawn : r.withdrawn = withdrawn

theorem tells_pushes (r : Chronicle) (kinds : List StepKind) :
    ((kinds.map .push).foldl record r).Tells (r.queue.pushAll kinds) r.current.isSome r.started
      r.withdrawn := by
  induction kinds generalizing r with
  | nil => exact ⟨rfl, rfl, rfl, rfl⟩
  | cons kind kinds ih => exact ih (r.record (.push kind))

/-- The step at the front can be started: a prompt is answered, and any other step begins. -/
theorem exists_start {s : Step} {rest : List Step} (hidle : r.queue.running = none)
    (hfront : r.queue.steps = s :: rest) :
    ∃ a, (r.record a).Tells (r.queue.started rest) true (s.id :: r.started) r.withdrawn := by
  obtain ⟨i, kind⟩ := s
  cases kind with
  | prompt p =>
    have hbegin : r.queue.beginAnswer? = some (i, p, r.queue.started rest) := by
      simp [beginAnswer?, hidle, hfront, StepQueue.started]
    refine ⟨.answer, ?_⟩
    unfold record
    rw [hbegin]
    exact ⟨rfl, rfl, rfl, rfl⟩
  | _ =>
    refine ⟨.start, ?_⟩
    unfold record
    simp only [begin?, hidle, hfront]
    exact ⟨rfl, rfl, rfl, rfl⟩

end Chronicle

end StepQueue

open StepQueue (Chronicle issued)

namespace Moment

/-- The steps that are started by some deeds. -/
def startedBy : Moment → List Deed → List StepId
  | _, [] => []
  | m, d :: ds => ((m.starts? d).map (·.id)).toList ++ startedBy (m.after d) ds

/-- The steps that are withdrawn by some deeds. -/
def withdrawnBy : Moment → List Deed → List StepId
  | _, [] => []
  | m, d :: ds => (m.withdrawn? d).toList ++ withdrawnBy (m.after d) ds

variable {m m' : Moment} {d : Deed} {r : Chronicle} {started withdrawn : List StepId}

/-- The queue knows whether a script runs. -/
def InStep (m : Moment) : Prop := m.engine.queue.running.isSome = m.running.isSome

theorem InStep.idle (h : m.InStep) (hidle : m.running = none) : m.engine.queue.running = none := by
  unfold InStep at h
  rw [hidle] at h
  simpa using h

theorem InStep.busy (h : m.InStep) {r : Running} (hbusy : m.running = some r) :
    ∃ own, m.engine.queue.running = some own := by
  unfold InStep at h
  rw [hbusy] at h
  exact Option.isSome_iff_exists.mp h

theorem Serves.inStep (h : m.Serves d m') (hm : m.InStep) : m'.InStep := by
  unfold InStep at hm ⊢
  cases h with
  | posts kinds hqueue hrunning => rw [hqueue, hrunning, StepQueue.isSome_pushAll, hm]
  | enters kind hqueue hrunning => rw [hqueue, hrunning, StepQueue.isSome_pushNext, hm]
  | withdraws i hqueue _ hrunning =>
    obtain ⟨-, -, hsame, -⟩ := m.engine.queue.withdraw_sublist i
    rw [hqueue, hrunning, ← hm]
    exact hsame
  | whole _ _ _ _ _ hqueue hrunning => rw [hqueue, hrunning]; rfl
  | opens _ _ _ _ hqueue hrunning => rw [hqueue, hrunning]; rfl
  | closes _ _ hqueue hrunning => rw [hqueue, hrunning]; rfl

/-- What a deed does to the queue is some acts, which start and withdraw what the deed starts and
withdraws. -/
theorem Serves.tells (h : m.Serves d m') (hm : m.InStep)
    (hr : r.Tells m.engine.queue m.running.isSome started withdrawn) :
    ∃ acts : List StepQueue.Act, (acts.foldl Chronicle.record r).Tells m'.engine.queue
      m'.running.isSome (((m.starts? d).map (·.id)).toList ++ started)
      ((m.withdrawn? d).toList ++ withdrawn) := by
  obtain ⟨hqueue_r, hrunning_r, rfl, rfl⟩ := hr
  cases h with
  | posts kinds hqueue hrunning hstarts hwithdrawn =>
    have hpushes := r.tells_pushes kinds
    rw [hqueue_r, ← hqueue, hrunning_r, ← hrunning] at hpushes
    rw [hstarts, hwithdrawn]
    exact ⟨kinds.map .push, hpushes⟩
  | enters kind hqueue hrunning hstarts hwithdrawn =>
    rw [hstarts, hwithdrawn, hqueue, hrunning]
    exact ⟨[.pushNext kind], congrArg (·.pushNext kind) hqueue_r, hrunning_r, rfl, rfl⟩
  | withdraws i hqueue hcontains hrunning hstarts hwithdrawn =>
    rw [hstarts, hwithdrawn, hqueue, hrunning]
    rw [← hqueue_r] at hcontains
    have hrecord : r.record (.withdraw i) =
        ⟨r.queue.withdraw i, r.current, .withdrawn i :: r.past⟩ := by
      simp [Chronicle.record, hcontains]
    refine ⟨[.withdraw i], ?_⟩
    rw [List.foldl_cons, List.foldl_nil, hrecord]
    exact ⟨congrArg (·.withdraw i) hqueue_r, hrunning_r, rfl, rfl⟩
  | whole s rest kinds hidle hfront hqueue hrunning hstarts hwithdrawn =>
    -- The step starts, queues its own, and ends.
    rw [← hqueue_r] at hfront
    have hquiet : r.queue.running = none := hqueue_r ▸ hm.idle hidle
    obtain ⟨a, ha⟩ := Chronicle.exists_start hquiet hfront
    have hpushes := (r.record a).tells_pushes kinds
    rw [ha.queue, ha.started, ha.withdrawn] at hpushes
    rw [hstarts, hwithdrawn, hqueue, hrunning, ← hqueue_r]
    refine ⟨a :: (kinds.map .push ++ [.finish]), ?_⟩
    rw [List.foldl_cons, List.foldl_append]
    exact ⟨congrArg StepQueue.finish hpushes.queue, rfl, hpushes.started, hpushes.withdrawn⟩
  | opens s rest hidle hfront hqueue hrunning hstarts hwithdrawn =>
    rw [← hqueue_r] at hfront
    have hquiet : r.queue.running = none := hqueue_r ▸ hm.idle hidle
    obtain ⟨a, ha⟩ := Chronicle.exists_start hquiet hfront
    rw [hstarts, hwithdrawn, hqueue, hrunning, ← hqueue_r]
    exact ⟨[a], ha⟩
  | closes kinds _ hqueue hrunning hstarts hwithdrawn =>
    have hpushes := r.tells_pushes kinds
    rw [hqueue_r] at hpushes
    rw [hstarts, hwithdrawn, hqueue, hrunning]
    refine ⟨kinds.map .push ++ [.finish], ?_⟩
    rw [List.foldl_append]
    exact ⟨congrArg StepQueue.finish hpushes.queue, rfl, hpushes.started, hpushes.withdrawn⟩

/-- What some deeds do to the queue is some acts, which start and withdraw what the deeds start and
withdraw. -/
theorem InStep.tells_run (hm : m.InStep) (ds : List Deed)
    (hr : r.Tells m.engine.queue m.running.isSome started withdrawn) :
    ∃ acts : List StepQueue.Act, (acts.foldl Chronicle.record r).Tells (m.run ds).engine.queue
      (m.run ds).running.isSome ((m.startedBy ds).reverse ++ started)
      ((m.withdrawnBy ds).reverse ++ withdrawn) := by
  induction ds generalizing m r started withdrawn with
  | nil => exact ⟨[], hr⟩
  | cons d ds ih =>
    obtain ⟨acts, hacts⟩ := (m.serves d).tells hm hr
    obtain ⟨acts', hacts'⟩ := ih ((m.serves d).inStep hm) hacts
    refine ⟨acts ++ acts', ?_⟩
    rw [List.foldl_append]
    -- A deed starts one step at most and withdraws one at most.
    have hreverse : ∀ {o : Option StepId} {l l' : List StepId},
        l.reverse ++ (o.toList ++ l') = (o.toList ++ l).reverse ++ l' := by
      intro o l l'
      cases o <;> simp
    rw [hreverse, hreverse] at hacts'
    exact hacts'

theorem InStep.run (hm : m.InStep) (ds : List Deed) : (m.run ds).InStep := by
  induction ds generalizing m with
  | nil => exact hm
  | cons d ds ih => exact ih ((m.serves d).inStep hm)

/-- A step that is pending after a deed was pending before, or has a new number. -/
theorem Serves.pending (h : m.Serves d m') :
    m.engine.queue.nextId ≤ m'.engine.queue.nextId ∧
      ∀ t ∈ m'.engine.queue.order, t ∈ m.engine.queue.order ∨
        m.engine.queue.nextId ≤ t.id.number := by
  have hstarted : ∀ {s : Step} {rest : List Step}, m.engine.queue.steps = s :: rest →
      ∀ t ∈ (m.engine.queue.started rest).order, t ∈ m.engine.queue.order := by
    intro s rest hfront t ht
    have ht' : t ∈ rest := ht
    simp [StepQueue.order, hfront, ht']
  cases h with
  | posts kinds hqueue =>
    rw [hqueue]
    exact m.engine.queue.mem_order_pushAll kinds
  | enters kind hqueue =>
    rw [hqueue, StepQueue.nextId_pushNext, StepQueue.order_pushNext]
    refine ⟨Nat.le_succ _, fun t ht => ?_⟩
    rcases List.mem_cons.mp ht with rfl | ht
    · exact .inr (Nat.le_refl _)
    · exact .inl ht
  | withdraws i hqueue =>
    obtain ⟨-, -, -, hid⟩ := m.engine.queue.withdraw_sublist i
    rw [hqueue, hid]
    exact ⟨Nat.le_refl _, fun t ht => .inl ((m.engine.queue.order_withdraw_sublist i).subset ht)⟩
  | whole s rest kinds _ hfront hqueue =>
    obtain ⟨hid, hmem⟩ := (m.engine.queue.started rest).mem_order_pushAll kinds
    rw [hqueue]
    exact ⟨hid, fun t ht => (hmem t ht).imp_left (hstarted hfront t)⟩
  | opens s rest _ hfront hqueue =>
    rw [hqueue]
    exact ⟨Nat.le_refl _, fun t ht => .inl (hstarted hfront t ht)⟩
  | closes kinds _ hqueue =>
    rw [hqueue]
    exact m.engine.queue.mem_order_pushAll kinds

theorem pending_run (m : Moment) (ds : List Deed) :
    m.engine.queue.nextId ≤ (m.run ds).engine.queue.nextId ∧
      ∀ t ∈ (m.run ds).engine.queue.order, t ∈ m.engine.queue.order ∨
        m.engine.queue.nextId ≤ t.id.number := by
  induction ds generalizing m with
  | nil => exact ⟨Nat.le_refl _, fun t ht => .inl ht⟩
  | cons d ds ih =>
    obtain ⟨hle, hpending⟩ := (m.serves d).pending
    obtain ⟨hle', hpending'⟩ := ih (m.after d)
    refine ⟨Nat.le_trans hle hle', fun t ht => ?_⟩
    rcases hpending' t ht with hold | hnew
    · exact hpending t hold
    · exact .inr (Nat.le_trans hle hnew)

/-- After some deeds those are pending that were pending and those that have been queued, without
what was started or withdrawn. -/
theorem InStep.balanced (hm : m.InStep) (ds : List Deed) :
    ((m.run ds).engine.queue.pendingIds ++ m.startedBy ds ++ m.withdrawnBy ds).Perm
      (m.engine.queue.pendingIds ++
        issued m.engine.queue.nextId (m.run ds).engine.queue.nextId) := by
  -- A chronicle that begins with the moment knows of nothing but what is pending then.
  let r : Chronicle := ⟨m.engine.queue, m.running.map fun _ => m.engine.queue.nextStep, []⟩
  have hr : r.Tells m.engine.queue m.running.isSome [] [] := ⟨rfl, by simp [r], rfl, rfl⟩
  have hbefore : r.known = m.engine.queue.pendingIds := by
    simp [r, Chronicle.known, Chronicle.started, Chronicle.withdrawn]
  obtain ⟨acts, htells⟩ := hm.tells_run ds hr
  obtain ⟨-, hknown⟩ := r.known_run acts
  rw [hbefore] at hknown
  unfold Chronicle.known at hknown
  rw [htells.queue, htells.started, htells.withdrawn, List.append_nil, List.append_nil] at hknown
  refine List.Perm.trans ?_ (hknown.trans List.perm_append_comm)
  exact ((List.reverse_perm _).symm.append_left _).append (List.reverse_perm _).symm

end Moment

namespace Engine

open Moment (startedBy withdrawnBy)

variable {e e' : Engine} {fuel : Nat}

/-- Some deeds lead from one state of the engine to another in which no step runs. What is pending
then is what was pending and what has been queued, without what was run or withdrawn. -/
structure Balances (e : Engine) (ds : List Deed) (e' : Engine) : Prop where
  run : Moment.run ⟨e, none⟩ ds = ⟨e', none⟩
  idle : e'.queue.running = none
  unspliced : e'.queue.children = []
  once : (e'.queue.pendingIds ++ startedBy ⟨e, none⟩ ds ++ withdrawnBy ⟨e, none⟩ ds).Perm
    (e.queue.pendingIds ++ issued e.queue.nextId e'.queue.nextId)
  /-- What waits still is what it was. -/
  same : ∀ t ∈ e'.queue.pending, t ∈ e.queue.pending ∨ e.queue.nextId ≤ t.id.number

theorem balances_of_run {ds : List Deed} (hidle : e.queue.running = none)
    (hrun : Moment.run ⟨e, none⟩ ds = ⟨e', none⟩) : e.Balances ds e' := by
  have hstep : Moment.InStep ⟨e, none⟩ := by
    show e.queue.running.isSome = false
    rw [hidle]
    rfl
  have hquiet : e'.queue.running = none := by
    have h := hstep.run ds
    rw [hrun] at h
    exact h.idle rfl
  have hbalanced := hstep.balanced ds
  obtain ⟨-, hpending⟩ := Moment.pending_run ⟨e, none⟩ ds
  rw [hrun] at hbalanced hpending
  refine ⟨hrun, hquiet, ?_, hbalanced, fun t ht => ?_⟩
  · rw [StepQueue.children, hquiet]
    rfl
  · rw [StepQueue.mem_pending_iff]
    exact hpending t (StepQueue.mem_pending_iff.mp ht)

/-- A queue that has run and is not stopped by a prompt is empty. -/
theorem pending_of_settle (hidle : e.queue.running = none)
    (h : (settle fuel).ends e = (.ok (some .idle), e')) : e'.queue.pending = [] := by
  induction fuel generalizing e with
  | zero => simp [settle_zero] at h
  | succ fuel ih =>
    by_cases hrests : e.queue.Rests
    · rw [settle_status hidle hrests] at h
      obtain ⟨hstatus, rfl⟩ := Prod.mk.inj h
      -- It does not rest at a prompt, for then it would say so.
      rcases hrests with hnil | hprompt
      · simp [StepQueue.pending, StepQueue.children, hnil, hidle]
      · obtain ⟨p, hp⟩ := Option.isSome_iff_exists.mp hprompt
        simp [status, hp] at hstatus
    · obtain ⟨s, rest, hfront, hkind⟩ := e.queue.front_of_not_rests hrests
      rw [settle_runs hidle hfront hkind] at h
      rcases hend : (runStep s).ends { e with queue := e.queue.started rest } with ⟨err | _, e₁⟩
      · simp [hend] at h
      · rw [hend] at h
        exact ih rfl h

/-- No step is lost, and none blocks the queue. Each step that was ever queued is pending, or runs,
or has run, or was withdrawn, and it is so once, at every moment of a run and in the middle of a
deed as well. When the engine has done what it was asked for, or has failed to, no step runs, and
pending is what was pending before and what has been queued since, without what was run or
withdrawn. And when the queue has run and is not stopped by a prompt, it is empty. -/
theorem steps_accounted :
    (∀ (b : Board) (ds : List Deed), ∃ acts : List StepQueue.Act,
      (Chronicle.of acts).Tells ((Moment.start b).run ds).engine.queue
        ((Moment.start b).run ds).running.isSome (startedBy (.start b) ds).reverse
        (withdrawnBy (.start b) ds).reverse ∧
      ∀ past, past <+: acts → (Chronicle.of past).Accounted) ∧
    (∀ e : Engine, e.queue.running = none →
      (∀ (r : Request) (fuel : Nat), ∃ ds, e.Balances ds ((r.play fuel).ends e).2) ∧
      (∀ (μ : Type) (choose : Match.Chooser μ) (seats : List (Seat μ)) (turns fuel : Nat),
        ∃ ds, e.Balances ds ((Match.runWith choose turns fuel).ends ⟨e, seats⟩).2.engine) ∧
      ∀ (fuel : Nat) (e' : Engine), (settle fuel).ends e = (.ok (some .idle), e') →
        e'.queue.pending = []) := by
  refine ⟨fun b ds => ?_, fun e hidle => ⟨fun r fuel => ?_, fun μ choose seats turns fuel => ?_,
    fun fuel e' h => pending_of_settle hidle h⟩⟩
  · have hstep : (Moment.start b).InStep := rfl
    obtain ⟨acts, htells⟩ := hstep.tells_run ds
      (⟨rfl, rfl, rfl, rfl⟩ : Chronicle.Tells ⟨.empty, none, []⟩ .empty false [] [])
    rw [List.append_nil, List.append_nil] at htells
    exact ⟨acts, htells, fun past _ => Chronicle.accounted past⟩
  · obtain ⟨ds, -, hrun⟩ := r.run fuel e
    exact ⟨_, balances_of_run hidle hrun⟩
  · obtain ⟨ds, hrun⟩ := Match.runWith_run choose turns fuel ⟨e, seats⟩
    exact ⟨ds, balances_of_run hidle hrun⟩

/-- Two steps wait, of which the first queues another and then fails. -/
def aboutToFail : Engine :=
  ((Moment.start Moment.deedInPlay).run [
    .call (.queue "fails" (.queue "child" .done fun _ => .fail (.refused .promptUnanswered))),
    .call (.queue "older" .done)]).engine

/-- The step fails when the queue runs, and the other two are pending. -/
theorem steps_accounted_aboutToFail :
    aboutToFail.queue.running = none ∧ aboutToFail.queue.pendingIds = [⟨0⟩, ⟨1⟩] ∧
      ((Request.settle.play 5).ends aboutToFail).1.isOk = false ∧
      ((Request.settle.play 5).ends aboutToFail).2.queue.pendingIds = [⟨2⟩, ⟨1⟩] ∧
      ∃ ds, aboutToFail.Balances ds ((Request.settle.play 5).ends aboutToFail).2 := by
  have hidle : aboutToFail.queue.running = none := by decide +kernel
  obtain ⟨-, hbalances⟩ := steps_accounted
  obtain ⟨hrequests, -, -⟩ := hbalances aboutToFail hidle
  exact ⟨hidle, by decide +kernel, by decide +kernel, by decide +kernel, hrequests .settle 5⟩

end Engine

end Doomtown
