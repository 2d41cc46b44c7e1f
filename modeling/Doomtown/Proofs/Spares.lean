import Doomtown.Proofs.Change

/-!
# What plays leave alone

`Engine.Spares mine kept` says of two states of the engine that what led from one to the other left
the activations outside `mine` alone: nothing was queued for them, nothing is filed for them but
what was, and their counters have not gone up. It is a preorder that every elementary change and
every step that starts or ends keeps to. Most plays spare every activation; those that take an
activation on spare all others.
-/

namespace Doomtown

open Play

/-! ## The parts that wait -/

/-- The parts that wait, in the order in which they are to be played. -/
def StepQueue.parts (q : StepQueue) : List (ActivationId × Part) :=
  q.order.filterMap (·.kind.part?)

namespace StepQueue

/-- A pushed step goes in between. -/
theorem parts_push (q : StepQueue) (kind : StepKind) :
    ∃ front back, q.parts = front ++ back ∧
      (q.push kind).parts = front ++ kind.part?.toList ++ back := by
  obtain ⟨front, back, horder, horder'⟩ := order_push q kind
  refine ⟨front.filterMap (·.kind.part?), back.filterMap (·.kind.part?), ?_, ?_⟩
  · rw [parts, horder, List.filterMap_append]
  · rw [parts, horder', List.filterMap_append, List.filterMap_cons, List.append_assoc]
    cases kind.part? <;> rfl

theorem parts_pushNext (q : StepQueue) (kind : StepKind) :
    (q.pushNext kind).parts = kind.part?.toList ++ q.parts := by
  rw [parts, order_pushNext, List.filterMap_cons, parts]
  cases kind.part? <;> rfl

theorem parts_withdraw_sublist (q : StepQueue) (i : StepId) :
    (q.withdraw i).parts.Sublist q.parts :=
  (q.order_withdraw_sublist i).filterMap _

/-- A queue is another without the step at its front, which starts. -/
structure FrontTaken (q : StepQueue) (s : Step) (q' : StepQueue) : Prop where
  act : ∃ act, q' = q.act act
  nextId : q'.nextId = q.nextId
  order : q.order = s :: q'.order

theorem frontTaken_begin {q q' : StepQueue} {s : Step} (h : q.begin? = some (s, q')) :
    q.FrontTaken s q' := by
  obtain ⟨rest, hidle, hfront, rfl⟩ := begin?_eq_some h
  refine ⟨⟨.start, ?_⟩, rfl, ?_⟩
  · unfold StepQueue.act
    rw [h]
  · simp [order, children, hidle, hfront]

theorem frontTaken_beginAnswer {q q' : StepQueue} {i : StepId} {p : Prompt}
    (h : q.beginAnswer? = some (i, p, q')) : q.FrontTaken ⟨i, .prompt p⟩ q' := by
  obtain ⟨rest, hidle, hfront, rfl⟩ := beginAnswer?_eq_some h
  refine ⟨⟨.answer, ?_⟩, rfl, ?_⟩
  · unfold StepQueue.act
    rw [h]
  · simp [order, children, hidle, hfront]

end StepQueue

/-! ## Sparing -/

namespace Engine

/-- What led from `e` to `e'` left alone the activations that are not `mine`. Some of the parts that
wait for them may have been withdrawn, but if `kept` holds only such as wait for a target. -/
structure Spares (mine : ActivationId → Bool) (kept : Prop) (e e' : Engine) : Prop where
  acts : ∃ acts : List StepQueue.Act, e'.queue = acts.foldl StepQueue.act e.queue
  parts : (e'.queue.parts.filter fun t => !mine t.1).Sublist
    (e.queue.parts.filter fun t => !mine t.1)
  kept : kept → ∀ t ∈ e.queue.parts, mine t.1 = false → t.2 ≠ .choose → t ∈ e'.queue.parts
  activations : ∀ y, mine y = false → e'.activations.get? y = e.activations.get? y ∨
    ∃ activation, e.activations.get? y = some activation ∧ activation.stage.isTerminal ∧
      e'.activations.get? y = none
  numbers : e.nextActivation ≤ e'.nextActivation
  ids : e.queue.nextId ≤ e'.queue.nextId
  steps : ∀ s ∈ e'.queue.order,
    s ∈ e.queue.order ∨ e.queue.nextId ≤ s.id.number ∧ s.id.number < e'.queue.nextId
  abilities : ∀ a ability, e.ability? a = some ability → e'.ability? a = some ability
  counters : ∀ a u', e'.usage.counters.get? a = some u' → e'.FreshCounter a u' ∨
    ∃ u, e.usage.counters.get? a = some u ∧ u'.limit = u.limit ∧ u'.count ≤ u.count

namespace Spares

variable {mine : ActivationId → Bool} {kept : Prop} {e e' e'' : Engine}

/-- What leaves queue, activations, abilities and counters as they are spares all. -/
theorem of_frame (hqueue : e'.queue = e.queue) (hactivations : e'.activations = e.activations)
    (hnumbers : e'.nextActivation = e.nextActivation) (habilities : e'.abilities = e.abilities)
    (husage : e'.usage = e.usage) : e.Spares mine kept e' where
  acts := ⟨[], hqueue⟩
  parts := hqueue ▸ .refl _
  kept _ t ht _ _ := hqueue ▸ ht
  activations y _ := .inl (by rw [hactivations])
  numbers := Nat.le_of_eq hnumbers.symm
  ids := Nat.le_of_eq (congrArg StepQueue.nextId hqueue).symm
  steps s hs := .inl (hqueue ▸ hs)
  abilities a ability h := by
    unfold ability? at h ⊢
    rw [habilities]
    exact h
  counters a u' h := .inr ⟨u', husage ▸ h, rfl, Nat.le_refl _⟩

theorem refl (e : Engine) : e.Spares mine kept e := of_frame rfl rfl rfl rfl rfl

theorem trans (h : e.Spares mine kept e') (h' : e'.Spares mine kept e'') :
    e.Spares mine kept e'' where
  acts := by
    obtain ⟨acts, hacts⟩ := h.acts
    obtain ⟨acts', hacts'⟩ := h'.acts
    exact ⟨acts ++ acts', by rw [List.foldl_append, ← hacts, hacts']⟩
  parts := h'.parts.trans h.parts
  kept hk t ht hmine hchoose := h'.kept hk t (h.kept hk t ht hmine hchoose) hmine hchoose
  activations y hy := by
    rcases h.activations y hy with heq | ⟨activation, hsome, hended, hnone⟩
    · rcases h'.activations y hy with heq' | ⟨activation, hsome, hended, hnone⟩
      · exact .inl (heq'.trans heq)
      · exact .inr ⟨activation, heq ▸ hsome, hended, hnone⟩
    · rcases h'.activations y hy with heq' | ⟨_, hsome', -, -⟩
      · exact .inr ⟨activation, hsome, hended, heq'.trans hnone⟩
      · rw [hnone] at hsome'
        simp at hsome'
  numbers := Nat.le_trans h.numbers h'.numbers
  ids := Nat.le_trans h.ids h'.ids
  steps s hs := by
    have hids := h.ids
    have hids' := h'.ids
    rcases h'.steps s hs with hs | hnew
    · rcases h.steps s hs with hs | hnew
      · exact .inl hs
      · exact .inr ⟨hnew.1, by omega⟩
    · exact .inr ⟨by omega, hnew.2⟩
  abilities a ability ha := h'.abilities a ability (h.abilities a ability ha)
  counters a u'' hu'' := by
    rcases h'.counters a u'' hu'' with hfresh | ⟨u', hu', hlimit, hcount⟩
    · exact .inl hfresh
    · -- A counter that was new in between stands at zero still, for it has not gone up.
      rcases h.counters a u' hu' with ⟨hzero, ability, hability, hfresh⟩ | ⟨u, hu, hlimit', hcount'⟩
      · exact .inl ⟨by omega, ability, h'.abilities a ability hability, by rw [hfresh, hlimit]⟩
      · exact .inr ⟨u, hu, hlimit.trans hlimit', Nat.le_trans hcount hcount'⟩

/-- Who spares more activations spares fewer. -/
theorem mono {mine' : ActivationId → Bool} {kept' : Prop} (h : e.Spares mine kept e')
    (hmine : ∀ y, mine' y = false → mine y = false) (hkept : kept' → kept) :
    e.Spares mine' kept' e' where
  acts := h.acts
  parts := by
    have hfilter : ∀ l : List (ActivationId × Part), l.filter (fun t => !mine' t.1) =
        (l.filter fun t => !mine t.1).filter fun t => !mine' t.1 := by
      -- What is not `mine'` is not `mine`.
      intro l
      rw [List.filter_filter]
      refine List.filter_congr fun t _ => ?_
      cases hm : mine' t.1 with
      | true => simp
      | false => simp [hmine t.1 hm]
    rw [hfilter, hfilter e.queue.parts]
    exact h.parts.filter _
  kept hk t ht hm hchoose := h.kept (hkept hk) t ht (hmine t.1 hm) hchoose
  activations y hy := h.activations y (hmine y hy)
  numbers := h.numbers
  ids := h.ids
  steps := h.steps
  abilities := h.abilities
  counters := h.counters

/-- Plays made of sparing changes spare. -/
theorem of_chain (h : Relation.ReflTransGen (Spares mine kept) e e') : e.Spares mine kept e' :=
  Play.link_of_chain refl .trans h

end Spares

/-! ## Changes of the queue -/

section Changes

variable {mine : ActivationId → Bool} {kept : Prop}

/-- Queueing a step that belongs to no activation but `mine`. -/
theorem spares_queue {e : Engine} {kind : StepKind} {q : StepQueue} (front back : List Step)
    (hkind : ∀ t ∈ kind.part?, mine t.1) (hq : ∃ act, q = e.queue.act act)
    (hid : q.nextId = e.queue.nextId + 1) (hsplit : e.queue.order = front ++ back)
    (horder : q.order = front ++ ⟨e.queue.nextStep, kind⟩ :: back) :
    e.Spares mine kept { e with queue := q } where
  acts := by
    obtain ⟨act, rfl⟩ := hq
    exact ⟨[act], rfl⟩
  parts := by
    show (q.parts.filter _).Sublist (e.queue.parts.filter _)
    rw [StepQueue.parts, StepQueue.parts, horder, hsplit, List.filterMap_append,
      List.filterMap_append, List.filterMap_cons]
    cases hpart : kind.part? with
    | none => exact .refl _
    | some t => simp [hkind t hpart]
  kept _ t ht _ _ := by
    show t ∈ q.parts
    rw [StepQueue.parts, hsplit] at ht
    rw [StepQueue.parts, horder, List.filterMap_append, List.filterMap_cons]
    rw [List.filterMap_append] at ht
    rcases List.mem_append.mp ht with ht | ht
    · exact List.mem_append.mpr (.inl ht)
    · refine List.mem_append.mpr (.inr ?_)
      split
      · exact ht
      · exact List.mem_cons_of_mem _ ht
  activations y _ := .inl rfl
  numbers := Nat.le_refl _
  ids := by
    show e.queue.nextId ≤ q.nextId
    omega
  steps s hs := by
    change s ∈ q.order at hs
    show _ ∨ _ ∧ s.id.number < q.nextId
    rw [horder] at hs
    rcases List.mem_append.mp hs with hs | hs
    · exact .inl (by simp [hsplit, hs])
    · rcases List.mem_cons.mp hs with rfl | hs
      · exact .inr ⟨Nat.le_refl _, by show e.queue.nextId < q.nextId; omega⟩
      · exact .inl (by simp [hsplit, hs])
  abilities _ _ h := h
  counters a u' h := .inr ⟨u', h, rfl, Nat.le_refl _⟩

/-- A step that starts is taken from the front. -/
theorem spares_begin {e : Engine} {s : Step} {q : StepQueue} (hs : ∀ t ∈ s.kind.part?, mine t.1)
    (h : e.queue.FrontTaken s q) : e.Spares mine kept { e with queue := q } where
  acts := by
    obtain ⟨act, rfl⟩ := h.act
    exact ⟨[act], rfl⟩
  parts := by
    show (q.parts.filter _).Sublist (e.queue.parts.filter _)
    rw [StepQueue.parts, StepQueue.parts, h.order, List.filterMap_cons]
    split
    · exact .refl _
    · -- The step was a part, but of one that is `mine`.
      rename_i t ht
      simp [hs t ht]
  kept _ t ht hmine _ := by
    show t ∈ q.parts
    rw [StepQueue.parts, h.order, List.filterMap_cons] at ht
    split at ht
    · exact ht
    · rename_i t' ht'
      rcases List.mem_cons.mp ht with rfl | ht
      · simp [hs t ht'] at hmine
      · exact ht
  activations y _ := .inl rfl
  numbers := Nat.le_refl _
  ids := Nat.le_of_eq h.nextId.symm
  steps s' hs' := .inl (by rw [h.order]; exact List.mem_cons_of_mem _ hs')
  abilities _ _ ha := ha
  counters a u' hu := .inr ⟨u', hu, rfl, Nat.le_refl _⟩

theorem spares_finished (e : Engine) : e.Spares mine kept e.finished :=
  { Spares.refl e with acts := ⟨[.finish], rfl⟩ }

/-- A step is withdrawn that waits for a target, or belongs to no activation but `mine`. -/
theorem spares_withdraw {e : Engine} {i : StepId}
    (h : kept → ∀ s ∈ e.queue.order, s.id = i → ∀ t ∈ s.kind.part?, mine t.1 ∨ t.2 = .choose) :
    e.Spares mine kept { e with queue := e.queue.withdraw i } where
  acts := ⟨[.withdraw i], rfl⟩
  parts := (e.queue.parts_withdraw_sublist i).filter _
  kept hk t ht hmine hchoose := by
    obtain ⟨s, hs, hpart⟩ := List.mem_filterMap.mp ht
    have hne : s.id ≠ i := by
      intro heq
      rcases h hk s hs heq t hpart with hm | hc
      · simp [hmine] at hm
      · exact hchoose hc
    exact List.mem_filterMap.mpr ⟨s, StepQueue.mem_order_withdraw hs hne, hpart⟩
  activations y _ := .inl rfl
  numbers := Nat.le_refl _
  ids := Nat.le_of_eq (e.queue.withdraw_sublist i).2.2.2.symm
  steps _ hs := .inl ((e.queue.order_withdraw_sublist i).subset hs)
  abilities _ _ h := h
  counters a u' h := .inr ⟨u', h, rfl, Nat.le_refl _⟩

/-! ## Elementary changes -/

theorem Change.spares {e e' : Engine} (h : e.Change mine e') : e.Spares mine kept e' := by
  cases h with
  | board b => exact .of_frame rfl rfl rfl rfl rfl
  | @push kind h =>
    obtain ⟨front, back, hsplit, horder⟩ := e.queue.order_push kind
    exact spares_queue front back h.part ⟨.push kind, rfl⟩ (e.queue.nextId_push kind) hsplit horder
  | @pushNext kind h =>
    exact spares_queue [] e.queue.order h.part ⟨.pushNext kind, rfl⟩
      (e.queue.nextId_pushNext kind) rfl (e.queue.order_pushNext kind)
  | withdraw h =>
    refine spares_withdraw fun _ s hs hsi t ht => .inr ?_
    obtain ⟨x, hpart, -⟩ := h s hs hsi
    obtain rfl : (x, Part.choose) = t := by simpa [hpart] using ht
    rfl
  | file h => exact { Spares.refl e with activations := fun y hy => .inl (h y hy) }
  | forget h _ =>
    refine { Spares.refl e with activations := fun y _ => (h y).imp_right ?_ }
    rintro ⟨activation, hsome, hended, hnone, -⟩
    exact ⟨activation, hsome, hended, hnone⟩
  | enrol history h _ => exact { Spares.refl e with counters := h }
  | attach ability =>
    exact { Spares.refl e with
      abilities := fun a ability' ha => by
        unfold ability? at ha ⊢
        have hlt := (List.getElem?_eq_some_iff.mp ha).1
        rw [List.getElem?_append_left hlt]
        exact ha
      counters := fun a u' hu' => .inr ⟨u', hu', rfl, Nat.le_refl _⟩ }
  | number => exact { Spares.refl e with numbers := Nat.le_succ e.nextActivation }
  | enter a activation hx =>
    refine { Spares.refl e with
      activations := fun y hy => .inl ?_
      numbers := Nat.le_succ e.nextActivation }
    have hne : (⟨e.nextActivation⟩ : ActivationId) ≠ y := fun h => by simp [← h, hx] at hy
    show (e.activations.insert _ _).get? y = _
    rw [IdMap.get?_insert, if_neg hne]

theorem Changes.spares {e e' : Engine} (h : e.Changes mine e') : e.Spares mine kept e' :=
  Spares.of_chain (Relation.ReflTransGen.mono (fun _ _ => Change.spares) _ _ h)

/-- A play made of changes spares. -/
theorem spares_of_changes {α : Type} {p : Play Engine α} (h : p.Chains (Change mine))
    (e : Engine) : e.Spares mine kept (p.ends e).2 :=
  (show e.Changes mine (p.ends e).2 from h e).spares

end Changes

end Engine

end Doomtown
