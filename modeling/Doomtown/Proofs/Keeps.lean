import Doomtown.Proofs.Passage

/-!
# What changes keep

`Engine.Keeps mine` says what a chain of changes keeps of the queue and of the activations that are
not `mine`. It is finer than `Engine.Spares`: no step but of `mine` is lost, whatever waits in front
of a step stays in front of it, and while a step runs nothing new gets behind what waits. Every
elementary change keeps this much (`Engine.Changes.keeps`).
-/

namespace Doomtown

open Play

namespace StepQueue

variable {q : StepQueue} {x : ActivationId}

/-! ## The parts of one activation -/

/-- What a step is to an activation. -/
def part (x : ActivationId) (s : Step) : Option Part :=
  s.kind.part?.bind fun t => if t.1 = x then some t.2 else none

theorem part_eq_some_iff {s : Step} {p : Part} :
    part x s = some p ↔ s.kind.part? = some (x, p) := by
  unfold part
  cases s.kind.part? with
  | none => simp
  | some t =>
    obtain ⟨y, p'⟩ := t
    by_cases hy : y = x
    · simp [hy]
    · simp [hy]

theorem partsOf_eq (q : StepQueue) (x : ActivationId) : q.partsOf x = q.order.filterMap (part x) := by
  unfold partsOf parts
  rw [List.filter_filterMap, List.map_filterMap]
  refine congrArg (q.order.filterMap ·) (funext fun s => ?_)
  unfold part
  cases s.kind.part? with
  | none => rfl
  | some t =>
    obtain ⟨y, p⟩ := t
    by_cases hy : y = x
    · simp [hy]
    · simp [hy]

theorem mem_partsOf_iff {p : Part} :
    p ∈ q.partsOf x ↔ ∃ s ∈ q.order, s.kind.part? = some (x, p) := by
  simp only [partsOf_eq, List.mem_filterMap, part_eq_some_iff]

/-- Where nothing waits for an activation, no step of it does. -/
theorem part?_ne_of_partsOf (h : q.partsOf x = []) {s : Step} (hs : s ∈ q.order) (p : Part) :
    s.kind.part? ≠ some (x, p) := fun hpart => by
  have hmem := mem_partsOf_iff.mpr ⟨s, hs, hpart⟩
  rw [h] at hmem
  exact List.not_mem_nil hmem

theorem partsOf_pushNext_other {kind : StepKind} (hkind : ∀ t ∈ kind.part?, t.1 ≠ x) :
    (q.pushNext kind).partsOf x = q.partsOf x := by
  unfold partsOf
  rw [parts_pushNext]
  cases hpart : kind.part? with
  | none => simp
  | some t => simp [hkind t hpart]

/-- To take out a step that is no part is to take out no part. -/
theorem filterMap_eraseP {α β : Type} {p : α → Bool} {f : α → Option β} :
    ∀ {l : List α}, (∀ s ∈ l, p s → f s = none) → (l.eraseP p).filterMap f = l.filterMap f
  | [], _ => rfl
  | s :: rest, h => by
    by_cases hs : p s
    · rw [List.eraseP_cons_of_pos hs, List.filterMap_cons, h s List.mem_cons_self hs]
    · rw [List.eraseP_cons_of_neg (by simpa using hs), List.filterMap_cons, List.filterMap_cons,
        filterMap_eraseP fun t ht => h t (List.mem_cons_of_mem _ ht)]

theorem partsOf_withdraw_other {i : StepId}
    (h : ∀ s ∈ q.order, s.id = i → ∀ t ∈ s.kind.part?, t.1 ≠ x) :
    (q.withdraw i).partsOf x = q.partsOf x := by
  have hnone : ∀ s ∈ q.order, decide (s.id = i) = true → part x s = none := by
    intro s hs hsi
    unfold part
    cases hpart : s.kind.part? with
    | none => rfl
    | some t => simp [h s hs (of_decide_eq_true hsi) t hpart]
  rw [partsOf_eq, partsOf_eq]
  unfold order at hnone ⊢
  unfold withdraw
  split
  · show (q.children ++ q.steps.eraseP _).filterMap _ = _
    rw [List.filterMap_append, List.filterMap_append, filterMap_eraseP fun s hs =>
      hnone s (List.mem_append_right _ hs)]
  · unfold children at hnone ⊢
    cases hr : q.running with
    | none => simp
    | some own =>
      simp only [hr, Option.getD_some] at hnone
      simp only [Option.map_some, Option.getD_some]
      rw [List.filterMap_append, List.filterMap_append, filterMap_eraseP fun s hs =>
        hnone s (List.mem_append_left _ hs)]

/-! ## What waits behind a step -/

/-- From one queue to the next, a step that waits goes on waiting, and nothing new gets behind it
but while no step runs. -/
def KeepsBehind (q q' : StepQueue) (s : Step) : Prop :=
  ∀ front back, q.steps = front ++ s :: back →
    ∃ front' back', q'.steps = front' ++ s :: back' ∧
      ∀ t ∈ back', t ∈ back ∨ q.running = none ∧ q.nextId ≤ t.id.number

theorem KeepsBehind.of_steps_eq {q q' : StepQueue} (h : q'.steps = q.steps) (s : Step) :
    q.KeepsBehind q' s := fun front back hsplit =>
  ⟨front, back, h.trans hsplit, fun _ ht => .inl ht⟩

theorem keepsBehind_push (q : StepQueue) (kind : StepKind) (s : Step) :
    q.KeepsBehind (q.push kind) s := by
  cases hr : q.running with
  | some own => exact .of_steps_eq (by simp [push, hr]) s
  | none =>
    -- Behind all that waits the new step is behind this one too.
    intro front back hsplit
    refine ⟨front, back ++ [⟨q.nextStep, kind⟩], by simp [push, hr, hsplit], fun t ht => ?_⟩
    rcases List.mem_append.mp ht with ht | ht
    · exact .inl ht
    · obtain rfl := List.mem_singleton.mp ht
      exact .inr ⟨hr, Nat.le_refl _⟩

theorem keepsBehind_pushNext (q : StepQueue) (kind : StepKind) (s : Step) :
    q.KeepsBehind (q.pushNext kind) s := by
  cases hr : q.running with
  | some own => exact .of_steps_eq (by simp [pushNext, hr]) s
  | none =>
    intro front back hsplit
    exact ⟨⟨q.nextStep, kind⟩ :: front, back, by simp [pushNext, hr, hsplit], fun _ ht => .inl ht⟩

theorem keepsBehind_withdraw (q : StepQueue) {i : StepId} {s : Step} (hs : s.id ≠ i) :
    q.KeepsBehind (q.withdraw i) s := by
  intro front back hsplit
  unfold withdraw
  split
  · dsimp only
    rw [hsplit, List.eraseP_append]
    split
    · exact ⟨_, back, rfl, fun _ ht => .inl ht⟩
    · rw [List.eraseP_cons_of_neg (by simpa using hs)]
      exact ⟨front, _, rfl, fun t ht => .inl (List.eraseP_subset ht)⟩
  · exact ⟨front, back, hsplit, fun _ ht => .inl ht⟩

end StepQueue

/-! ## What is kept -/

namespace Engine

/-- What a chain of changes keeps that changes no steps and records but of activations that are
`mine`. -/
structure Keeps (mine : ActivationId → Bool) (e e' : Engine) : Prop where
  running : e'.queue.running.isSome = e.queue.running.isSome
  ids : e.queue.nextId ≤ e'.queue.nextId
  numbers : e.nextActivation ≤ e'.nextActivation
  steps : ∀ s ∈ e'.queue.order,
    s ∈ e.queue.order ∨ e.queue.nextId ≤ s.id.number ∧ s.kind.OnlyFor mine
  behind : ∀ s, s.kind.part? = none → e.queue.KeepsBehind e'.queue s
  parts : ∀ y, mine y = false → e'.queue.partsOf y = e.queue.partsOf y
  retractable : ∀ t ∈ e'.retractable, t ∈ e.retractable ∨
    mine t.2 ∧ e.nextActivation ≤ t.2.number ∧ t.2.number < e'.nextActivation
  records : ∀ y, mine y = false → (∀ t ∈ e.retractable, t.2 ≠ y) →
    e'.activations.get? y = e.activations.get? y

namespace Keeps

variable {mine : ActivationId → Bool} {e e' e'' : Engine}

/-- What leaves the queue and the activations as they are keeps all. -/
theorem of_frame (hqueue : e'.queue = e.queue) (hactivations : e'.activations = e.activations)
    (hnumbers : e'.nextActivation = e.nextActivation)
    (hretractable : e'.retractable.Sublist e.retractable) : e.Keeps mine e' where
  running := by rw [hqueue]
  ids := Nat.le_of_eq (congrArg StepQueue.nextId hqueue).symm
  numbers := Nat.le_of_eq hnumbers.symm
  steps s hs := .inl (hqueue ▸ hs)
  behind s _ := .of_steps_eq (congrArg StepQueue.steps hqueue) s
  parts y _ := by rw [hqueue]
  retractable t ht := .inl (hretractable.subset ht)
  records y _ _ := by rw [hactivations]

theorem refl (e : Engine) : e.Keeps mine e := of_frame rfl rfl rfl (List.Sublist.refl _)

theorem trans (h : e.Keeps mine e') (h' : e'.Keeps mine e'') : e.Keeps mine e'' where
  running := h'.running.trans h.running
  ids := Nat.le_trans h.ids h'.ids
  numbers := Nat.le_trans h.numbers h'.numbers
  steps s hs := by
    have hids := h.ids
    rcases h'.steps s hs with hs | ⟨hnew, honly⟩
    · exact h.steps s hs
    · exact .inr ⟨by omega, honly⟩
  behind s hs front back hsplit := by
    obtain ⟨front', back', hsplit', hback'⟩ := h.behind s hs front back hsplit
    obtain ⟨front'', back'', hsplit'', hback''⟩ := h'.behind s hs front' back' hsplit'
    refine ⟨front'', back'', hsplit'', fun t ht => ?_⟩
    rcases hback'' t ht with ht | ⟨hidle, hnew⟩
    · exact hback' t ht
    · have hids := h.ids
      have hrunning := h.running
      rw [hidle] at hrunning
      exact .inr ⟨Option.isSome_eq_false_iff.mp hrunning.symm |> Option.isNone_iff_eq_none.mp,
        by omega⟩
  parts y hy := (h'.parts y hy).trans (h.parts y hy)
  retractable t ht := by
    have hnumbers := h.numbers
    have hnumbers' := h'.numbers
    rcases h'.retractable t ht with ht | ⟨hmine, hlow, hhigh⟩
    · rcases h.retractable t ht with ht | ⟨hmine, hlow, hhigh⟩
      · exact .inl ht
      · exact .inr ⟨hmine, hlow, by omega⟩
    · exact .inr ⟨hmine, by omega, hhigh⟩
  records y hy hnot := by
    -- What became retractable in between is `mine`, so it is another.
    have hnot' : ∀ t ∈ e'.retractable, t.2 ≠ y := by
      intro t ht
      rcases h.retractable t ht with ht | ⟨hmine, -, -⟩
      · exact hnot t ht
      · rintro rfl
        simp [hy] at hmine
    exact (h'.records y hy hnot').trans (h.records y hy hnot)

end Keeps

theorem Change.keeps {mine : ActivationId → Bool} {e e' : Engine} (h : e.Change mine e') :
    e.Keeps mine e' := by
  have hother : ∀ {kind : StepKind} {y : ActivationId}, kind.OnlyFor mine → mine y = false →
      ∀ t ∈ kind.part?, t.1 ≠ y := by
    rintro kind y honly hy t ht rfl
    have hmine := honly.part t ht
    simp [hy] at hmine
  cases h with
  | board b => exact .of_frame rfl rfl rfl (.refl _)
  | @push kind h =>
    refine { Keeps.refl e with
      running := ?_, ids := ?_, steps := fun s hs => ?_,
      behind := fun s _ => e.queue.keepsBehind_push kind s
      parts := fun y hy => StepQueue.partsOf_push_other (hother h hy) }
    · cases hr : e.queue.running <;> simp [StepQueue.push, hr]
    · simp
    · rcases StepQueue.mem_order_push.mp hs with hs | rfl
      · exact .inl hs
      · exact .inr ⟨Nat.le_refl _, h⟩
  | @pushNext kind h =>
    refine { Keeps.refl e with
      running := ?_, ids := ?_, steps := fun s hs => ?_,
      behind := fun s _ => e.queue.keepsBehind_pushNext kind s
      parts := fun y hy => StepQueue.partsOf_pushNext_other (hother h hy) }
    · cases hr : e.queue.running <;> simp [StepQueue.pushNext, hr]
    · simp
    · change s ∈ (e.queue.pushNext kind).order at hs
      rw [StepQueue.order_pushNext] at hs
      rcases List.mem_cons.mp hs with rfl | hs
      · exact .inr ⟨Nat.le_refl _, h⟩
      · exact .inl hs
  | @withdraw i h =>
    obtain ⟨-, -, hrunning, hids⟩ := e.queue.withdraw_sublist i
    refine { Keeps.refl e with
      running := hrunning, ids := Nat.le_of_eq hids.symm
      steps := fun s hs => .inl ((e.queue.order_withdraw_sublist i).subset hs)
      behind := fun s hs front back hsplit => ?_
      parts := fun y hy => StepQueue.partsOf_withdraw_other fun s hs hsi t ht => ?_ }
    · -- What is withdrawn is a part, so it is another step.
      refine e.queue.keepsBehind_withdraw (fun hsi => ?_) front back hsplit
      obtain ⟨x, hpart, -⟩ := h s (by simp [StepQueue.order, hsplit]) hsi
      simp [hs] at hpart
    · obtain ⟨x, hpart, hx⟩ := h s hs hsi
      obtain rfl : (x, Part.choose) = t := Option.some.inj (hpart.symm.trans ht)
      rintro rfl
      simp [hy] at hx
  | file h => exact { Keeps.refl e with records := fun y hy _ => h y hy }
  | forget h hsub =>
    refine { Keeps.refl e with
      retractable := fun t ht => .inl (hsub.subset ht)
      records := fun y _ hnot => ?_ }
    rcases h y with heq | ⟨_, -, -, -, t, ht, hty⟩
    · exact heq
    · exact absurd hty (hnot t ht)
  | enrol history h hsub => exact .of_frame rfl rfl rfl hsub
  | attach ability => exact .of_frame rfl rfl rfl (.refl _)
  | number =>
    exact { Keeps.refl e with
      numbers := Nat.le_succ e.nextActivation
      retractable := fun t ht => .inl ht }
  | enter a activation hx =>
    refine { Keeps.refl e with
      numbers := Nat.le_succ e.nextActivation
      retractable := fun t ht => ?_
      records := fun y hy _ => ?_ }
    · rcases List.mem_append.mp ht with ht | ht
      · exact .inl ht
      · obtain rfl := List.mem_singleton.mp ht
        exact .inr ⟨hx, Nat.le_refl _, Nat.lt_succ_self _⟩
    · have hne : (⟨e.nextActivation⟩ : ActivationId) ≠ y := fun h => by simp [← h, hx] at hy
      show (e.activations.insert _ _).get? y = _
      rw [IdMap.get?_insert, if_neg hne]

theorem Changes.keeps {mine : ActivationId → Bool} {e e' : Engine} (h : e.Changes mine e') :
    e.Keeps mine e' := by
  induction h with
  | refl => exact .refl e
  | tail _ hlast ih => exact ih.trans hlast.keeps

end Engine

end Doomtown
