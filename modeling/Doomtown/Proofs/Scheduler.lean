import Doomtown.Proofs.StepQueue
import Mathlib.Logic.Relation

/-!
# The order in which steps run

A step is a descendant of another if it was queued while that one or one of its descendants ran.
The queue runs depth first, whatever is pushed, withdrawn, answered or left unfinished by a failure
in between: while a descendant of a step waits, nothing runs that was waiting when the step started,
and the steps that a step pushes run in turn, each with its descendants
(`Chronicle.runs_depth_first`).

A chronicle is a queue with what happened to it. The invariant `Chronicle.Sound` says of each two
waiting steps that the one behind may wait for the one in front (`Precedes`), and the same of the
running step and all that waited when it started.
-/

namespace Doomtown

namespace StepQueue

/-! ## What is done to a queue -/

/-- What can be done to a queue. -/
inductive Act where
  | push (kind : StepKind)
  | pushNext (kind : StepKind)
  | withdraw (step : StepId)
  /-- Start the step at the front. -/
  | start
  /-- Start answering the prompt at the front. -/
  | answer
  /-- End the step that runs, whether it succeeded or failed. -/
  | finish

/-- Do something to a queue. What cannot be done now changes nothing. -/
def act (q : StepQueue) : Act → StepQueue
  | .push kind => q.push kind
  | .pushNext kind => q.pushNext kind
  | .withdraw i => q.withdraw i
  | .start => match q.begin? with
    | some (_, q') => q'
    | none => q
  | .answer => match q.beginAnswer? with
    | some (_, _, q') => q'
    | none => q
  | .finish => q.finish

/-- What happened to a queue. -/
inductive Entry where
  /-- A step was queued while some step ran, if one did: by `pushNext` if it is `next`. -/
  | queued (step : StepId) (during : Option StepId) (next : Bool)
  | withdrawn (step : StepId)
  /-- A step started while others were waiting. -/
  | started (step : StepId) (waiting : List StepId)
deriving DecidableEq

/-- A queue, the step that runs, and what happened, the latest first. -/
structure Chronicle where
  queue : StepQueue
  current : Option StepId
  past : List Entry

namespace Chronicle

/-- Do something to the queue and write it down. -/
def record (r : Chronicle) (a : Act) : Chronicle :=
  match a with
  | .push kind =>
    ⟨r.queue.push kind, r.current, .queued r.queue.nextStep r.current false :: r.past⟩
  | .pushNext kind =>
    ⟨r.queue.pushNext kind, r.current, .queued r.queue.nextStep r.current true :: r.past⟩
  | .withdraw i =>
    ⟨r.queue.withdraw i, r.current,
      if r.queue.contains i then .withdrawn i :: r.past else r.past⟩
  | .start => match r.queue.begin? with
    | some (s, q) => ⟨q, some s.id, .started s.id (q.steps.map (·.id)) :: r.past⟩
    | none => r
  | .answer => match r.queue.beginAnswer? with
    | some (i, _, q) => ⟨q, some i, .started i (q.steps.map (·.id)) :: r.past⟩
    | none => r
  | .finish => ⟨r.queue.finish, none, r.past⟩

/-- The chronicle of what is done to an empty queue. -/
def of (acts : List Act) : Chronicle := acts.foldl record ⟨.empty, none, []⟩

/-- The chronicle writes down what is done and changes nothing. -/
theorem queue_record (r : Chronicle) (a : Act) : (r.record a).queue = r.queue.act a := by
  cases a with
  | start =>
    simp only [record, act]
    cases r.queue.begin? <;> rfl
  | answer =>
    simp only [record, act]
    cases r.queue.beginAnswer? <;> rfl
  | _ => rfl

/-- The queue of a chronicle is what the acts make of an empty one. -/
theorem queue_of (acts : List Act) : (of acts).queue = acts.foldl act .empty :=
  (List.foldl_hom Chronicle.queue fun r a => (queue_record r a).symm).symm

/-- Whether doing something starts a step. -/
def Starts (r : Chronicle) (a : Act) (s : StepId) : Prop :=
  ∃ waiting, (r.record a).past = .started s waiting :: r.past

end Chronicle

/-! ## Kinship of steps -/

/-- A step was queued while another ran. -/
def Child (past : List Entry) (s d : StepId) : Prop := ∃ next, .queued d (some s) next ∈ past

/-- A step was queued while another, or a descendant of it, ran. -/
def Descends (past : List Entry) : StepId → StepId → Prop := Relation.TransGen (Child past)

/-- A step is another or descends from it. -/
def Within (past : List Entry) : StepId → StepId → Prop := Relation.ReflTransGen (Child past)

/-- While a step ran, first one step and later another was pushed. -/
def PushedInTurn (past : List Entry) (s c d : StepId) : Prop :=
  [.queued d (some s) false, .queued c (some s) false].Sublist past

/-- One step may run before another: it did not wait when a step started from which the other
descends, and the two are not of the families of two steps that were pushed in the opposite
turn. -/
structure Precedes (past : List Entry) (u v : StepId) : Prop where
  distinct : u ≠ v
  notOlder : ∀ s waiting, .started s waiting ∈ past → Descends past s v → u ∉ waiting
  inTurn : ∀ s c d, PushedInTurn past s c d → Within past d u → ¬Within past c v

/-- The number under which an entry queues a step. -/
def Entry.queuedNumber : Entry → Option Nat
  | .queued d _ _ => some d.number
  | .withdrawn _ | .started _ _ => none

/-- Numbers are given in turn, so a step has a higher number than the one that queued it, and all
numbers given are below the next. -/
structure Records (past : List Entry) (bound : Nat) : Prop where
  queued : ∀ d s next, .queued d s next ∈ past → d.number < bound ∧ ∀ c ∈ s, c.number < d.number
  started : ∀ s waiting, .started s waiting ∈ past → ∀ u ∈ waiting, u.number < bound
  descending : (past.filterMap Entry.queuedNumber).Pairwise (· > ·)

section Kinship

variable {past : List Entry} {bound : Nat} {s c d u v : StepId}

theorem Descends.exists_child (h : Descends past s d) : ∃ p, Within past s p ∧ Child past p d :=
  Relation.TransGen.tail'_iff.mp h

theorem PushedInTurn.earlier (h : PushedInTurn past s c d) : Child past s c :=
  ⟨false, h.subset (by simp)⟩

theorem PushedInTurn.later (h : PushedInTurn past s c d) : Child past s d :=
  ⟨false, h.subset (by simp)⟩

namespace Records

theorem child_lt (h : Records past bound) (hc : Child past c d) :
    c.number < d.number ∧ d.number < bound := by
  obtain ⟨next, hmem⟩ := hc
  obtain ⟨hd, hlt⟩ := h.queued d (some c) next hmem
  exact ⟨hlt c rfl, hd⟩

theorem within_le (h : Records past bound) (hw : Within past c d) : c.number ≤ d.number := by
  induction hw with
  | refl => exact Nat.le_refl _
  | tail _ hchild ih =>
    have := (h.child_lt hchild).1
    omega

/-- Of two steps pushed in turn the later has the higher number. -/
theorem inTurn_lt (h : Records past bound) (ht : PushedInTurn past s c d) :
    c.number < d.number := by
  have hsub := ht.filterMap Entry.queuedNumber
  have hpair := h.descending.sublist hsub
  simpa [Entry.queuedNumber] using hpair

/-- A step is queued once. -/
theorem parent_unique (h : Records past bound) (hc : Child past c d) (hu : Child past u d) :
    c = u := by
  obtain ⟨next, hmem⟩ := hc
  obtain ⟨next', hmem'⟩ := hu
  -- Two different entries would give one number twice.
  refine Decidable.byContradiction fun hne => ?_
  have hentries : Entry.queued d (some c) next ≠ .queued d (some u) next' := by
    intro heq
    injection heq with _ hs
    exact hne (Option.some.inj hs)
  obtain ⟨i, hi, hgeti⟩ := List.mem_iff_getElem.mp hmem
  obtain ⟨j, hj, hgetj⟩ := List.mem_iff_getElem.mp hmem'
  have hpair : past.Pairwise fun a b => ∀ m ∈ a.queuedNumber, ∀ n ∈ b.queuedNumber, m > n := by
    simpa [List.pairwise_filterMap] using h.descending
  rw [List.pairwise_iff_getElem] at hpair
  rcases Nat.lt_trichotomy i j with hij | hij | hij
  · have := hpair i j hi hj hij d.number (by rw [hgeti]; rfl) d.number (by rw [hgetj]; rfl)
    omega
  · subst hij
    exact hentries (hgeti.symm.trans hgetj)
  · have := hpair j i hj hi hij d.number (by rw [hgetj]; rfl) d.number (by rw [hgeti]; rfl)
    omega

/-- No step is of the families of two steps that were pushed in turn. -/
theorem not_within_both (h : Records past bound) (ht : PushedInTurn past s c d)
    (hc : Within past c v) (hd : Within past d v) : False := by
  have hlt := h.inTurn_lt ht
  have hunique : Relator.RightUnique (Function.swap (Child past)) :=
    fun _ _ _ h₁ h₂ => h.parent_unique h₁ h₂
  -- What a step descends from is a chain, so one of the two is above the other.
  have hchain := Relation.ReflTransGen.total_of_right_unique hunique
    (Relation.ReflTransGen.swap _ _ hc) (Relation.ReflTransGen.swap _ _ hd)
  have hchain' : Within past d c ∨ Within past c d :=
    hchain.imp (fun h => Relation.ReflTransGen.swap _ _ h) fun h => Relation.ReflTransGen.swap _ _ h
  rcases hchain' with hdc | hcd
  · have := h.within_le hdc
    omega
  · rcases Relation.ReflTransGen.cases_tail hcd with rfl | ⟨p, hcp, hpd⟩
    · omega
    · obtain rfl := h.parent_unique hpd ht.later
      have := h.within_le hcp
      have := (h.child_lt ht.earlier).1
      omega

/-! ### One more entry -/

/-- A step that is queued anew. -/
theorem queue (h : Records past bound) {x : StepId} (hx : x.number = bound) {during : Option StepId}
    (hduring : ∀ c ∈ during, c.number < bound) (next : Bool) :
    Records (.queued x during next :: past) (bound + 1) where
  queued d s n hmem := by
    rcases List.mem_cons.mp hmem with heq | hmem
    · injection heq with hd hs
      subst hd hs
      exact ⟨by omega, fun c hc => by have := hduring c hc; omega⟩
    · obtain ⟨hd, hs⟩ := h.queued d s n hmem
      exact ⟨by omega, hs⟩
  started s waiting hmem u hu := by
    have := h.started s waiting (by simpa using hmem) u hu
    omega
  descending := by
    show (x.number :: past.filterMap Entry.queuedNumber).Pairwise (· > ·)
    rw [List.pairwise_cons]
    refine ⟨fun m hm => ?_, h.descending⟩
    obtain ⟨e, he, hnumber⟩ := List.mem_filterMap.mp hm
    cases e with
    | queued d s n =>
      obtain rfl := Option.some.inj hnumber
      have := (h.queued d s n he).1
      omega
    | withdrawn => simp [Entry.queuedNumber] at hnumber
    | started => simp [Entry.queuedNumber] at hnumber

/-- An entry that queues nothing. -/
theorem note (h : Records past bound) {e : Entry} (he : e.queuedNumber = none)
    (hwaiting : ∀ s waiting, e = .started s waiting → ∀ u ∈ waiting, u.number < bound) :
    Records (e :: past) bound where
  queued d s n hmem := by
    rcases List.mem_cons.mp hmem with rfl | hmem
    · simp [Entry.queuedNumber] at he
    · exact h.queued d s n hmem
  started s waiting hmem u hu := by
    rcases List.mem_cons.mp hmem with heq | hmem
    · exact hwaiting s waiting heq.symm u hu
    · exact h.started s waiting hmem u hu
  descending := by
    rw [List.filterMap_cons_none he]
    exact h.descending

variable {x : StepId} {during : Option StepId} {next : Bool}

theorem child_cons (hc : Child (.queued x during next :: past) c d) :
    Child past c d ∨ (d = x ∧ during = some c) := by
  obtain ⟨n, hmem⟩ := hc
  rcases List.mem_cons.mp hmem with heq | hmem
  · injection heq with hd hs
    exact .inr ⟨hd, hs.symm⟩
  · exact .inl ⟨n, hmem⟩

/-- A new step changes nothing about whose descendants the old ones are. -/
theorem within_old (h : Records past bound) (hx : x.number = bound)
    (hw : Within (.queued x during next :: past) c d) (hd : d.number < bound) :
    Within past c d := by
  induction hw with
  | refl => exact .refl
  | tail _ hchild ih =>
    rcases child_cons hchild with hold | ⟨rfl, -⟩
    · have := (h.child_lt hold).1
      exact .tail (ih (by omega)) hold
    · omega

theorem descends_old (h : Records past bound) (hx : x.number = bound)
    (hs : Descends (.queued x during next :: past) c d) (hd : d.number < bound) :
    Descends past c d := by
  obtain ⟨p, hw, hchild⟩ := hs.exists_child
  rcases child_cons hchild with hold | ⟨rfl, -⟩
  · have := (h.child_lt hold).1
    exact Relation.TransGen.tail' (h.within_old hx hw (by omega)) hold
  · omega

/-- A new step descends from the step that runs and from whatever that descends from. -/
theorem descends_new (h : Records past bound) (hx : x.number = bound)
    (hduring : ∀ c ∈ during, c.number < bound)
    (hs : Descends (.queued x during next :: past) c x) :
    ∃ p, during = some p ∧ Within past c p := by
  obtain ⟨p, hw, hchild⟩ := hs.exists_child
  rcases child_cons hchild with hold | ⟨-, hp⟩
  · have := (h.child_lt hold).2
    omega
  · exact ⟨p, hp, h.within_old hx hw (hduring p hp)⟩

theorem within_new (h : Records past bound) (hx : x.number = bound)
    (hduring : ∀ c ∈ during, c.number < bound)
    (hw : Within (.queued x during next :: past) c x) :
    c = x ∨ ∃ p, during = some p ∧ Within past c p := by
  rcases Relation.ReflTransGen.cases_tail hw with heq | ⟨p, hwp, hchild⟩
  · exact .inl heq.symm
  · exact .inr (h.descends_new hx hduring (Relation.TransGen.tail' hwp hchild))

/-- A new step is later than what was pushed before, if it is pushed and no step's turn else. -/
theorem inTurn_cons (ht : PushedInTurn (.queued x during next :: past) s c d) :
    PushedInTurn past s c d ∨ (d = x ∧ during = some s ∧ next = false ∧ Child past s c) := by
  unfold PushedInTurn at ht
  cases ht with
  | cons _ hold => exact .inl hold
  | cons_cons _ hearlier => exact .inr ⟨rfl, rfl, rfl, false, List.singleton_sublist.mp hearlier⟩

/-! ### What may run before what -/

/-- A new step changes nothing about which of the old ones may run before which. -/
theorem precedes_queue (h : Records past bound) (hx : x.number = bound) (hp : Precedes past u v)
    (hu : u.number < bound) (hv : v.number < bound) :
    Precedes (.queued x during next :: past) u v where
  distinct := hp.distinct
  notOlder s waiting hs hd :=
    hp.notOlder s waiting (by simpa using hs) (h.descends_old hx hd hv)
  inTurn s c d ht hd hc := by
    have hd' := h.within_old hx hd hu
    rcases inTurn_cons ht with hold | ⟨rfl, -⟩
    · exact hp.inTurn s c d hold hd' (h.within_old hx hc hv)
    · have := h.within_le hd'
      omega

/-- An entry that queues nothing leaves kinship as it is. -/
theorem child_note {e : Entry} (he : e.queuedNumber = none) (hc : Child (e :: past) c d) :
    Child past c d := by
  obtain ⟨n, hmem⟩ := hc
  rcases List.mem_cons.mp hmem with rfl | hmem
  · simp [Entry.queuedNumber] at he
  · exact ⟨n, hmem⟩

theorem precedes_note {e : Entry} (he : e.queuedNumber = none) (hp : Precedes past u v)
    (hnew : ∀ s waiting, e = .started s waiting → Descends past s v → u ∉ waiting) :
    Precedes (e :: past) u v where
  distinct := hp.distinct
  notOlder s waiting hs hd := by
    have hd' : Descends past s v := Relation.TransGen.mono (fun _ _ => child_note he) _ _ hd
    rcases List.mem_cons.mp hs with heq | hs
    · exact hnew s waiting heq.symm hd'
    · exact hp.notOlder s waiting hs hd'
  inTurn s c d ht hd hc := by
    have hwithin : ∀ {a b}, Within (e :: past) a b → Within past a b := fun h =>
      Relation.ReflTransGen.mono (fun _ _ => child_note he) _ _ h
    have ht' : PushedInTurn past s c d := by
      unfold PushedInTurn at ht
      cases ht with
      | cons _ hold => exact hold
      | cons_cons => simp [Entry.queuedNumber] at he
    exact hp.inTurn s c d ht' (hwithin hd) (hwithin hc)

end Records

end Kinship

/-! ## The invariant -/

namespace Chronicle

/-- What holds of a queue and its past at any time. -/
structure Sound (r : Chronicle) : Prop where
  records : Records r.past r.queue.nextId
  matching : r.current.isSome = r.queue.isRunning
  waiting : ∀ s ∈ r.queue.order, s.id.number < r.queue.nextId ∧ ∀ d, ¬Child r.past s.id d
  ordered : r.queue.order.Pairwise fun s t => Precedes r.past s.id t.id
  running : ∀ c, r.current = some c → c.number < r.queue.nextId ∧
    ∀ s ∈ r.queue.steps, Precedes r.past c s.id ∧ ¬Descends r.past c s.id
  own : ∀ c, r.current = some c → ∀ s ∈ r.queue.children, Child r.past c s.id ∧
    ∀ u waiting, .started u waiting ∈ r.past → s.id ∉ waiting
  notOlder : ∀ s waiting, .started s waiting ∈ r.past → ∀ d, Descends r.past s d → d ∉ waiting
  accounted : ∀ d s next, .queued d s next ∈ r.past →
    d ∈ r.queue.order.map (·.id) ∨ .withdrawn d ∈ r.past ∨ ∃ waiting, .started d waiting ∈ r.past

variable {r : Chronicle}

theorem Sound.children_nil (h : r.Sound) (hc : r.current = none) :
    r.queue.running = none ∧ r.queue.children = [] := by
  have hidle : r.queue.running = none := by
    have := h.matching
    rw [hc] at this
    simpa [isRunning] using this.symm
  exact ⟨hidle, by simp [children, hidle]⟩

theorem Sound.current_lt (h : r.Sound) : ∀ c ∈ r.current, c.number < r.queue.nextId :=
  fun c hc => (h.running c hc).1

/-! ### Queueing -/

/-- A new step may run behind the running step's own, and behind all if none runs. -/
theorem Sound.precedes_new (h : r.Sound) {u : Step} (hu : u ∈ r.queue.order)
    (hown : r.current.isSome → u ∈ r.queue.children) (next : Bool) :
    Precedes (.queued r.queue.nextStep r.current next :: r.past) u.id r.queue.nextStep where
  distinct heq := by
    have := (h.waiting u hu).1
    rw [heq] at this
    exact Nat.lt_irrefl _ this
  notOlder s waiting hs hd := by
    obtain ⟨c, hc, -⟩ := h.records.descends_new rfl h.current_lt hd
    exact (h.own c hc u (hown (by rw [hc]; rfl))).2 s waiting (by simpa using hs)
  inTurn s c d ht hdu hcx := by
    have hlt := (h.waiting u hu).1
    -- Of two steps that were pushed in turn the new one is not the later, for what is of its family
    -- has no lower number; so both were pushed before.
    have hdu' := h.records.within_old rfl hdu hlt
    have hdle := h.records.within_le hdu'
    have hdx : d ≠ r.queue.nextStep := by
      rintro rfl
      exact Nat.lt_irrefl _ (Nat.lt_of_le_of_lt hdle hlt)
    obtain hold : PushedInTurn r.past s c d :=
      (Records.inTurn_cons ht).resolve_right fun hnew => hdx hnew.1
    have hcd := h.records.inTurn_lt hold
    have hcx' : c ≠ r.queue.nextStep := by
      rintro rfl
      exact Nat.lt_irrefl _ (Nat.lt_trans (Nat.lt_of_lt_of_le hcd hdle) hlt)
    obtain ⟨p, hp, hcp⟩ := (h.records.within_new rfl h.current_lt hcx).resolve_left hcx'
    -- The step in front is a child of the running step, so it is of the later family only if the
    -- running step is, or if it is itself the later of the two.
    have hchild := (h.own p hp u (hown (by rw [hp]; rfl))).1
    rcases Relation.ReflTransGen.cases_tail hdu' with heq | ⟨b, hdb, hbu⟩
    · obtain rfl : s = p := h.records.parent_unique (heq ▸ hold.later) hchild
      have := (h.records.child_lt hold.earlier).1
      have := h.records.within_le hcp
      omega
    · obtain rfl := h.records.parent_unique hbu hchild
      exact h.records.not_within_both hold hcp hdb

/-- A new step may run before the steps that were not queued by the running step, and before these
too unless it is pushed. -/
theorem Sound.new_precedes (h : r.Sound) {v : Step} (hv : v ∈ r.queue.order) {next : Bool}
    (hnext : next = false → v ∈ r.queue.steps) :
    Precedes (.queued r.queue.nextStep r.current next :: r.past) r.queue.nextStep v.id where
  distinct heq := by
    have := (h.waiting v hv).1
    rw [← heq] at this
    exact Nat.lt_irrefl _ this
  notOlder s waiting hs _ hmem :=
    Nat.lt_irrefl _ (h.records.started s waiting (by simpa using hs) _ hmem)
  inTurn s c d ht hdx hcv := by
    have hlt := (h.waiting v hv).1
    have hcv' := h.records.within_old rfl hcv hlt
    -- Both were pushed before, or the new step is the later of the two.
    rcases Records.inTurn_cons ht with hold | ⟨-, hs, hn, hchild⟩
    · have hdx' : d ≠ r.queue.nextStep := by
        rintro rfl
        have := (h.records.child_lt hold.later).2
        exact Nat.lt_irrefl _ this
      obtain ⟨p, hp, hdp⟩ := (h.records.within_new rfl h.current_lt hdx).resolve_left hdx'
      rcases List.mem_append.mp hv with hown | hsteps
      · -- Two of the running step's own: the earlier family would hold the running step too.
        have hvp := (h.own p hp v hown).1
        rcases Relation.ReflTransGen.cases_tail hcv' with heq | ⟨b, hcb, hbv⟩
        · obtain rfl : s = p := h.records.parent_unique (heq ▸ hold.earlier) hvp
          have := (h.records.child_lt hold.later).1
          have := h.records.within_le hdp
          omega
        · obtain rfl := h.records.parent_unique hbv hvp
          exact h.records.not_within_both hold hcb hdp
      · exact ((h.running p hp).2 v hsteps).1.inTurn s c d hold hdp hcv'
    · -- The new step is the later one, so the earlier is the running step's own.
      have hdescends : Descends r.past s v.id := Relation.TransGen.head' hchild hcv'
      exact ((h.running s hs).2 v (hnext hn)).2 hdescends

/-- Neither a step that waits nor the new one has queued anything. -/
theorem Sound.childless_queued (h : r.Sound) (next : Bool) {s : Step}
    (hs : s.id = r.queue.nextStep ∨ s ∈ r.queue.order) :
    s.id.number < r.queue.nextId + 1 ∧
      ∀ d, ¬Child (.queued r.queue.nextStep r.current next :: r.past) s.id d := by
  rcases hs with heq | hs
  · rw [heq]
    refine ⟨Nat.lt_succ_self _, fun d hc => ?_⟩
    rcases Records.child_cons hc with hold | ⟨-, hcurrent⟩
    · have := h.records.child_lt hold
      exact Nat.lt_irrefl _ (Nat.lt_trans this.1 this.2)
    · exact Nat.lt_irrefl _ (h.running _ hcurrent).1
  · obtain ⟨hlt, hnone⟩ := h.waiting s hs
    refine ⟨Nat.lt_succ_of_lt hlt, fun d hc => ?_⟩
    rcases Records.child_cons hc with hchild | ⟨rfl, hcurrent⟩
    · exact hnone d hchild
    · -- The running step does not wait.
      rcases List.mem_append.mp hs with hown | hbehind
      · have := h.records.child_lt (h.own s.id hcurrent s hown).1
        omega
      · exact ((h.running s.id hcurrent).2 s hbehind).1.distinct rfl

/-- With the new step in between, the steps are still in an order in which they may run. -/
theorem Sound.ordered_queued (h : r.Sound) {next : Bool} (kind : StepKind) (front back : List Step)
    (hsplit : r.queue.order = front ++ back)
    (hfront : r.current.isSome → ∀ u ∈ front, u ∈ r.queue.children)
    (hback : next = false → ∀ v ∈ back, v ∈ r.queue.steps) :
    (front ++ ⟨r.queue.nextStep, kind⟩ :: back).Pairwise fun u v =>
      Precedes (.queued r.queue.nextStep r.current next :: r.past) u.id v.id := by
  have hmemfront : ∀ u ∈ front, u ∈ r.queue.order := fun u hu => by simp [hsplit, hu]
  have hmemback : ∀ v ∈ back, v ∈ r.queue.order := fun v hv => by simp [hsplit, hv]
  have hkeep : ∀ u ∈ r.queue.order, ∀ v ∈ r.queue.order, Precedes r.past u.id v.id →
      Precedes (.queued r.queue.nextStep r.current next :: r.past) u.id v.id :=
    fun u hu v hv hp => h.records.precedes_queue rfl hp (h.waiting u hu).1 (h.waiting v hv).1
  have hpair := h.ordered
  rw [hsplit, List.pairwise_append] at hpair
  obtain ⟨hpfront, hpback, hacross⟩ := hpair
  rw [List.pairwise_append, List.pairwise_cons]
  -- Two in front, the new step with one behind it, two behind, and one in front with any other.
  refine ⟨?_, ⟨fun v hv => ?_, ?_⟩, fun u hu v hv => ?_⟩
  · exact hpfront.imp_of_mem fun hu hv => hkeep _ (hmemfront _ hu) _ (hmemfront _ hv)
  · exact h.new_precedes (hmemback v hv) fun hn => hback hn v hv
  · exact hpback.imp_of_mem fun hu hv => hkeep _ (hmemback _ hu) _ (hmemback _ hv)
  · rcases List.mem_cons.mp hv with rfl | hv
    · exact h.precedes_new (hmemfront u hu) (fun hc => hfront hc u hu) next
    · exact hkeep u (hmemfront u hu) v (hmemback v hv) (hacross u hu v hv)

/-- Queueing keeps the invariant if the new step goes behind steps of the running step, and in front
of such steps only if it is not pushed. -/
theorem Sound.queued (h : r.Sound) {q : StepQueue} {next : Bool} (kind : StepKind)
    (front back : List Step) (hsplit : r.queue.order = front ++ back)
    (horder : q.order = front ++ ⟨r.queue.nextStep, kind⟩ :: back)
    (hid : q.nextId = r.queue.nextId + 1) (hrunning : q.isRunning = r.queue.isRunning)
    (hfront : r.current.isSome → ∀ u ∈ front, u ∈ r.queue.children)
    (hback : next = false → ∀ v ∈ back, v ∈ r.queue.steps)
    (hsteps : r.current.isSome → q.steps = r.queue.steps ∧
      ∀ s ∈ q.children, s.id = r.queue.nextStep ∨ s ∈ r.queue.children) :
    (⟨q, r.current, .queued r.queue.nextStep r.current next :: r.past⟩ : Chronicle).Sound := by
  have hold : ∀ s ∈ r.queue.order, s.id.number < r.queue.nextId := fun s hs => (h.waiting s hs).1
  have hmemsteps : ∀ v ∈ r.queue.steps, v ∈ r.queue.order := fun v hv => by simp [order, hv]
  constructor
  case records =>
    show Records _ q.nextId
    rw [hid]
    exact h.records.queue rfl h.current_lt next
  case matching => exact h.matching.trans hrunning.symm
  case waiting =>
    intro s hs
    show s.id.number < q.nextId ∧ _
    rw [hid]
    rw [horder] at hs
    refine h.childless_queued next ?_
    rw [hsplit]
    rcases List.mem_append.mp hs with hs | hs
    · exact .inr (List.mem_append.mpr (.inl hs))
    · rcases List.mem_cons.mp hs with rfl | hs
      · exact .inl rfl
      · exact .inr (List.mem_append.mpr (.inr hs))
  case ordered =>
    show q.order.Pairwise _
    rw [horder]
    exact h.ordered_queued kind front back hsplit hfront hback
  case running =>
    intro c hc
    obtain ⟨hlt, hbehind⟩ := h.running c hc
    show c.number < q.nextId ∧ ∀ s ∈ q.steps, _
    rw [hid, (hsteps (by rw [show r.current = some c from hc]; rfl)).1]
    refine ⟨Nat.lt_succ_of_lt hlt, fun s hs => ?_⟩
    have hs' := hold s (hmemsteps s hs)
    exact ⟨h.records.precedes_queue rfl (hbehind s hs).1 hlt hs', fun hd =>
      (hbehind s hs).2 (h.records.descends_old rfl hd hs')⟩
  case own =>
    intro c hc s hs
    have hc' : r.current = some c := hc
    rcases (hsteps (by rw [hc']; rfl)).2 s hs with heq | hs
    · rw [heq]
      refine ⟨⟨next, by simp [hc']⟩, fun u waiting hu hmem => ?_⟩
      exact Nat.lt_irrefl _ (h.records.started u waiting (by simpa using hu) _ hmem)
    · obtain ⟨⟨n, hchild⟩, hfresh⟩ := h.own c hc s hs
      exact ⟨⟨n, List.mem_cons_of_mem _ hchild⟩, fun u waiting hu =>
        hfresh u waiting (by simpa using hu)⟩
  case notOlder =>
    intro s waiting hs d hd hmem
    have hs' : .started s waiting ∈ r.past := by simpa using hs
    exact h.notOlder s waiting hs' d
      (h.records.descends_old rfl hd (h.records.started s waiting hs' d hmem)) hmem
  case accounted =>
    intro d s n hmem
    show d ∈ q.order.map (·.id) ∨ _
    rw [horder]
    rcases List.mem_cons.mp hmem with heq | hmem
    · injection heq with hd
      exact .inl (by simp [hd])
    · rcases h.accounted d s n hmem with hwaits | hwithdrawn | ⟨waiting, hstarted⟩
      · rw [hsplit] at hwaits
        refine .inl ?_
        simp only [List.map_append, List.mem_append, List.map_cons, List.mem_cons] at hwaits ⊢
        exact hwaits.imp_right .inr
      · exact .inr (.inl (List.mem_cons_of_mem _ hwithdrawn))
      · exact .inr (.inr ⟨waiting, List.mem_cons_of_mem _ hstarted⟩)

theorem Sound.push (h : r.Sound) (kind : StepKind) : (r.record (.push kind)).Sound := by
  show Chronicle.Sound ⟨r.queue.push kind, _, _⟩
  cases hc : r.current with
  | none =>
    obtain ⟨hidle, hnil⟩ := h.children_nil hc
    rw [← hc]
    -- While no step runs, the new one goes behind all.
    refine h.queued kind r.queue.steps [] ?_ ?_ ?_ ?_ ?_ ?_ ?_
    all_goals simp [StepQueue.push, hidle, hc, order, children, isRunning]
  | some c =>
    have hbusy : r.queue.isRunning := by rw [← h.matching, hc]; rfl
    obtain ⟨own, hown⟩ := Option.isSome_iff_exists.mp hbusy
    rw [← hc]
    -- While a step runs, the new one goes behind what it queued and before all else.
    refine h.queued kind r.queue.children r.queue.steps
      rfl ?_ ?_ ?_ (fun _ _ => id) (fun _ _ => id) ?_
    all_goals simp [StepQueue.push, hown, order, children, isRunning]
    exact fun _ s hs => hs.symm.imp (by rintro rfl; rfl) id

theorem Sound.pushNext (h : r.Sound) (kind : StepKind) : (r.record (.pushNext kind)).Sound := by
  show Chronicle.Sound ⟨r.queue.pushNext kind, _, _⟩
  cases hrunning : r.queue.running with
  | none =>
    have hc : r.current = none := by
      have := h.matching
      rw [isRunning, hrunning] at this
      simpa using this
    refine h.queued kind [] r.queue.order rfl ?_ ?_ ?_ ?_ ?_ ?_
    all_goals simp [StepQueue.pushNext, hrunning, hc, order, children, isRunning]
  | some own =>
    refine h.queued kind [] r.queue.order rfl ?_ ?_ ?_ ?_ ?_ ?_
    all_goals simp [StepQueue.pushNext, hrunning, order, children, isRunning]
    exact fun _ s hs => .inr hs

/-! ### Withdrawing -/

theorem Sound.withdraw (h : r.Sound) (i : StepId) : (r.record (.withdraw i)).Sound := by
  show Chronicle.Sound ⟨r.queue.withdraw i, _, _⟩
  cases hcontains : r.queue.contains i with
  | false =>
    rw [withdraw_of_not_contains hcontains]
    exact h
  | true =>
    obtain ⟨hsteps, hchildren, hrunning, hid⟩ := withdraw_sublist r.queue i
    have horder := r.queue.order_withdraw_sublist i
    have hkin : ∀ {c d}, Child (.withdrawn i :: r.past) c d → Child r.past c d := fun hc =>
      Records.child_note rfl hc
    have hkeep : ∀ {u v}, Precedes r.past u v → Precedes (.withdrawn i :: r.past) u v := fun hp =>
      Records.precedes_note rfl hp fun _ _ heq => by simp at heq
    simp only [if_true]
    -- The order is a part of what it was, and the new entry queues nothing.
    constructor
    case records =>
      show Records _ (r.queue.withdraw i).nextId
      rw [hid]
      exact h.records.note rfl fun _ _ heq => by simp at heq
    case matching => exact h.matching.trans hrunning.symm
    case waiting =>
      intro s hs
      obtain ⟨hlt, hnone⟩ := h.waiting s (horder.subset hs)
      exact ⟨by simpa [hid] using hlt, fun d hc => hnone d (hkin hc)⟩
    case ordered => exact (h.ordered.sublist horder).imp hkeep
    case running =>
      intro c hc
      obtain ⟨hlt, hbehind⟩ := h.running c hc
      refine ⟨by simpa [hid] using hlt, fun s hs => ?_⟩
      obtain ⟨hp, hnot⟩ := hbehind s (hsteps.subset hs)
      exact ⟨hkeep hp, fun hd => hnot (Relation.TransGen.mono (fun _ _ => hkin) _ _ hd)⟩
    case own =>
      intro c hc s hs
      obtain ⟨⟨n, hchild⟩, hfresh⟩ := h.own c hc s (hchildren.subset hs)
      exact ⟨⟨n, List.mem_cons_of_mem _ hchild⟩, fun u waiting hu =>
        hfresh u waiting (by simpa using hu)⟩
    case notOlder =>
      intro s waiting hs d hd
      exact h.notOlder s waiting (by simpa using hs) d
        (Relation.TransGen.mono (fun _ _ => hkin) _ _ hd)
    case accounted =>
      intro d s n hmem
      rcases h.accounted d s n (by simpa using hmem) with hwaits | hwithdrawn | ⟨waiting, hstarted⟩
      · by_cases hd : d = i
        · exact .inr (.inl (by simp [hd]))
        · obtain ⟨t, ht, rfl⟩ := List.mem_map.mp hwaits
          exact .inl (List.mem_map_of_mem (mem_order_withdraw ht hd))
      · exact .inr (.inl (List.mem_cons_of_mem _ hwithdrawn))
      · exact .inr (.inr ⟨waiting, List.mem_cons_of_mem _ hstarted⟩)

/-! ### Starting and finishing -/

/-- Starting the step at the front keeps the invariant. -/
theorem Sound.started (h : r.Sound) {s : Step} {rest : List Step}
    (hidle : r.queue.running = none) (hfront : r.queue.steps = s :: rest) :
    (⟨{ r.queue with steps := rest, running := some [] }, some s.id,
      .started s.id (rest.map (·.id)) :: r.past⟩ : Chronicle).Sound := by
  have horder : r.queue.order = s :: rest := by simp [order, children, hidle, hfront]
  have hkin : ∀ {c d}, Child (.started s.id (rest.map (·.id)) :: r.past) c d → Child r.past c d :=
    fun hc => Records.child_note rfl hc
  obtain ⟨hlt, hnone⟩ := h.waiting s (by simp [horder])
  -- A step that has not started has no descendants yet.
  have hleaf : ∀ d, ¬Descends r.past s.id d := by
    intro d hd
    obtain ⟨c, hc, -⟩ := Relation.TransGen.head'_iff.mp hd
    exact hnone c hc
  have hkeep : ∀ {u v}, Precedes r.past u v →
      Precedes (.started s.id (rest.map (·.id)) :: r.past) u v := fun hp =>
    Records.precedes_note rfl hp fun _ _ heq hd => by
      injection heq with hs
      exact absurd (hs ▸ hd) (hleaf _)
  have hpair := h.ordered
  rw [horder, List.pairwise_cons] at hpair
  have hrest : ∀ t ∈ rest, t ∈ r.queue.order := fun t ht => by simp [horder, ht]
  constructor
  case records =>
    refine h.records.note rfl fun _ _ heq u hu => ?_
    injection heq with _ hw
    subst hw
    obtain ⟨t, ht, rfl⟩ := List.mem_map.mp hu
    exact (h.waiting t (hrest t ht)).1
  case matching => rfl
  case waiting =>
    intro t ht
    obtain ⟨htlt, htnone⟩ := h.waiting t (hrest t ht)
    exact ⟨htlt, fun d hc => htnone d (hkin hc)⟩
  case ordered => exact hpair.2.imp hkeep
  case running =>
    intro c hc
    obtain rfl := Option.some.inj hc
    -- What stood behind the step stands behind it now that it runs.
    refine ⟨hlt, fun t ht => ⟨hkeep (hpair.1 t ht), fun hd => ?_⟩⟩
    exact hleaf t.id (Relation.TransGen.mono (fun _ _ => hkin) _ _ hd)
  case own => exact fun c _ t ht => absurd ht List.not_mem_nil
  case notOlder =>
    intro t waiting ht d hd
    have hd' : Descends r.past t d := Relation.TransGen.mono (fun _ _ => hkin) _ _ hd
    -- Of the step that starts now nothing descends.
    rcases List.mem_cons.mp ht with heq | ht
    · injection heq with hs
      exact absurd (hs ▸ hd') (hleaf d)
    · exact h.notOlder t waiting ht d hd'
  case accounted =>
    intro d t n hmem
    rcases h.accounted d t n (by simpa using hmem) with hwaits | hwithdrawn | ⟨waiting, hstarted⟩
    · rw [horder] at hwaits
      rcases List.mem_cons.mp hwaits with heq | hwaits
      · exact .inr (.inr ⟨rest.map (·.id), by simp [heq]⟩)
      · exact .inl hwaits
    · exact .inr (.inl (List.mem_cons_of_mem _ hwithdrawn))
    · exact .inr (.inr ⟨waiting, List.mem_cons_of_mem _ hstarted⟩)

theorem Sound.finish (h : r.Sound) : (r.record .finish).Sound := by
  show Chronicle.Sound ⟨r.queue.finish, none, r.past⟩
  have horder : r.queue.finish.order = r.queue.order := rfl
  exact {
    records := h.records
    matching := rfl
    waiting := h.waiting
    ordered := h.ordered
    running := fun c hc => by simp at hc
    own := fun c hc => by simp at hc
    notOlder := h.notOlder
    accounted := h.accounted }

/-! ## Runs of the queue -/

/-- Whatever is done keeps the invariant. -/
theorem Sound.record (h : r.Sound) (a : Act) : (r.record a).Sound := by
  cases a with
  | push kind => exact h.push kind
  | pushNext kind => exact h.pushNext kind
  | withdraw i => exact h.withdraw i
  | finish => exact h.finish
  | start =>
    unfold Chronicle.record
    cases hbegin : r.queue.begin? with
    | none => exact h
    | some sq =>
      obtain ⟨s, q⟩ := sq
      obtain ⟨rest, hidle, hfront, rfl⟩ := begin?_eq_some hbegin
      exact h.started hidle hfront
  | answer =>
    unfold Chronicle.record
    cases hbegin : r.queue.beginAnswer? with
    | none => exact h
    | some ipq =>
      obtain ⟨i, p, q⟩ := ipq
      obtain ⟨rest, hidle, hfront, rfl⟩ := beginAnswer?_eq_some hbegin
      exact h.started hidle hfront

/-- At any time of any run the invariant holds. -/
theorem Sound.run (h : r.Sound) (acts : List Act) : (acts.foldl Chronicle.record r).Sound := by
  induction acts generalizing r with
  | nil => exact h
  | cons a rest ih => exact ih (h.record a)

theorem sound_of (acts : List Act) : (of acts).Sound := by
  have hempty : Chronicle.Sound ⟨.empty, none, []⟩ := by
    constructor <;> simp [StepQueue.empty, order, children, isRunning]
    constructor <;> simp
  exact hempty.run acts

/-- What starts is the step at the front, while no step runs. -/
theorem Starts.front {a : Act} {s : StepId} (h : r.Starts a s) :
    ∃ step rest, step.id = s ∧ r.queue.order = step :: rest := by
  obtain ⟨waiting, h⟩ := h
  cases a with
  | start =>
    unfold Chronicle.record at h
    cases hbegin : r.queue.begin? with
    | none => simp [hbegin] at h
    | some sq =>
      obtain ⟨step, q⟩ := sq
      obtain ⟨rest, hidle, hfront, -⟩ := begin?_eq_some hbegin
      simp only [hbegin, List.cons.injEq, Entry.started.injEq, and_true] at h
      exact ⟨step, rest, h.1, by simp [order, children, hidle, hfront]⟩
  | answer =>
    unfold Chronicle.record at h
    cases hbegin : r.queue.beginAnswer? with
    | none => simp [hbegin] at h
    | some ipq =>
      obtain ⟨i, p, q⟩ := ipq
      obtain ⟨rest, hidle, hfront, -⟩ := beginAnswer?_eq_some hbegin
      simp only [hbegin, List.cons.injEq, Entry.started.injEq, and_true] at h
      exact ⟨⟨i, .prompt p⟩, rest, h.1, by simp [order, children, hidle, hfront]⟩
  | withdraw i =>
    unfold Chronicle.record at h
    dsimp only at h
    split at h <;> simp at h
  | push => simp [Chronicle.record] at h
  | pushNext => simp [Chronicle.record] at h
  | finish => simp [Chronicle.record] at h

/-- The queue runs depth first. While a descendant of a step `s` waits, no step starts that was
waiting when `s` started. And of two steps that were pushed in turn while `s` ran, the later and its
descendants start only when the earlier has started or been withdrawn and none of its descendants
waits. -/
theorem runs_depth_first (acts : List Act) (a : Act) (v : StepId) (h : (of acts).Starts a v) :
    (∀ s waiting, .started s waiting ∈ (of acts).past → v ∈ waiting →
      ∀ d ∈ (of acts).queue.pending, ¬Descends (of acts).past s d.id) ∧
    (∀ s c d, PushedInTurn (of acts).past s c d → Within (of acts).past d v →
      (.withdrawn c ∈ (of acts).past ∨ ∃ waiting, .started c waiting ∈ (of acts).past) ∧
        ∀ u ∈ (of acts).queue.pending, ¬Within (of acts).past c u.id) := by
  have hsound := sound_of acts
  obtain ⟨step, rest, rfl, horder⟩ := h.front
  have hpair := hsound.ordered
  rw [horder, List.pairwise_cons] at hpair
  have hpending : ∀ u ∈ (of acts).queue.pending, u = step ∨ u ∈ rest := by
    intro u hu
    rw [mem_pending_iff, horder] at hu
    exact List.mem_cons.mp hu
  -- What starts was in front of all that waits, so it may run before each of these.
  refine ⟨fun s waiting hs hv d hd hdescends => ?_, fun s c d hturn hv => ?_⟩
  · rcases hpending d hd with rfl | hd
    · exact hsound.notOlder s waiting hs d.id hdescends hv
    · exact (hpair.1 d hd).notOlder s waiting hs hdescends hv
  · have hnone : ∀ u ∈ (of acts).queue.pending, ¬Within (of acts).past c u.id := by
      intro u hu hc
      rcases hpending u hu with rfl | hu
      · exact hsound.records.not_within_both hturn hc hv
      · exact (hpair.1 u hu).inTurn s c d hturn hv hc
    refine ⟨?_, hnone⟩
    -- The earlier step was queued and does not wait any more.
    obtain ⟨n, hqueued⟩ := hturn.earlier
    rcases hsound.accounted c (some s) n hqueued with hwaits | hended
    · obtain ⟨u, hu, rfl⟩ := List.mem_map.mp hwaits
      exact absurd .refl (hnone u (mem_pending_iff.mpr hu))
    · exact hended

/-- Two steps wait; the first pushes two, of which the first pushes one more, which runs too. -/
def familyActs : List Act :=
  [.push (.task "parent" .done), .push (.task "older" .done),
    .start, .push (.task "first child" .done), .push (.task "second child" .done), .finish,
    .start, .push (.task "grandchild" .done), .finish,
    .start, .finish]

/-- When the second child starts, the first has started, and nothing of its family waits. -/
theorem runs_depth_first_familyActs :
    (of familyActs).Starts .start ⟨3⟩ ∧ PushedInTurn (of familyActs).past ⟨0⟩ ⟨2⟩ ⟨3⟩ ∧
      (.withdrawn ⟨2⟩ ∈ (of familyActs).past ∨
        ∃ waiting, .started ⟨2⟩ waiting ∈ (of familyActs).past) ∧
      ∀ u ∈ (of familyActs).queue.pending, ¬Within (of familyActs).past ⟨2⟩ u.id := by
  have hstarts : (of familyActs).Starts .start ⟨3⟩ := ⟨_, rfl⟩
  have hturn : PushedInTurn (of familyActs).past ⟨0⟩ ⟨2⟩ ⟨3⟩ := by
    unfold PushedInTurn
    decide
  exact ⟨hstarts, hturn, (runs_depth_first familyActs .start ⟨3⟩ hstarts).2 _ _ _ hturn .refl⟩

end Chronicle

end StepQueue

end Doomtown
