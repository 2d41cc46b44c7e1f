import Doomtown.Proofs.Retractable

/-!
# The stacks of what can be retracted

The stack of an ability and the records are changed apart from each other: by playing an action, by
retracting one, by unregistering an ability, when a round ends, and by the offers that are declined.
Whatever the run, the stacks are well formed (`Moment.stacks_formed`): they ascend, and what is on
one is filed for its ability as played by a player and not set off by an event. So there is always
a record of what is to be retracted first.
-/

namespace Doomtown

open Play

namespace Engine

variable {e : Engine} {a : AbilityId} {x : ActivationId} {activation : Activation}

/-- The latest activation of an ability is filed for it, and none is filed for it after that. -/
theorem latestActivation?_of_filed (hget : e.activations.get? x = some activation)
    (ha : activation.ability = a) :
    ∃ y, e.latestActivation? a = some y ∧ x.number ≤ y.number := by
  have hmem : (x, activation) ∈ e.activations.entries.filter (·.2.ability = a) :=
    List.mem_filter.mpr ⟨IdMap.get?_eq_some_iff.mp hget, decide_eq_true ha⟩
  have hne := List.ne_nil_of_mem hmem
  have hascending := e.activations.entries_ascending.filter (·.2.ability = a)
  rw [← List.dropLast_append_getLast hne] at hmem hascending
  unfold latestActivation?
  rw [List.getLast?_eq_getLast_of_ne_nil hne]
  refine ⟨_, rfl, ?_⟩
  rcases List.mem_append.mp hmem with hbelow | hlast
  · have hlt := (List.pairwise_append.mp hascending).2.2 _ hbelow _ List.mem_cons_self
    exact Nat.le_of_lt hlt
  · rw [← List.mem_singleton.mp hlast]

/-- The stack of an ability lists activations of the ability that were played, oldest first. -/
structure StackFormed (e : Engine) (a : AbilityId) : Prop where
  ascending : (e.stack a).Pairwise fun x y => x.number < y.number
  nodup : (e.stack a).Nodup
  /-- What is on it has been given its number. -/
  given : ∀ x ∈ e.stack a, x.number < e.nextActivation
  /-- What is on it is filed for the ability, and no event has set it off. -/
  filed : ∀ x ∈ e.stack a, ∃ activation, e.activations.get? x = some activation ∧
    activation.ability = a ∧ activation.event = none
  /-- There is a record of what is to be retracted first. -/
  found : ∀ x, e.latestRetractable? a = some x →
    ∃ activation, e.activations.get? x = some activation
  /-- What is to be retracted first was not played after the latest activation of the ability. -/
  latest : ∀ x, e.latestRetractable? a = some x →
    ∃ y, e.latestActivation? a = some y ∧ x.number ≤ y.number

end Engine

namespace Moment

variable {m : Moment} {x : ActivationId} {activation : Activation}

/-- No event has set off what is on a stack. -/
theorem Reached.eventless (h : m.Reached) {a : AbilityId} (hmem : x ∈ m.engine.stack a)
    (hget : m.engine.activations.get? x = some activation) : activation.event = none := by
  let Eventless (m : Moment) : Prop := ∀ a x activation, x ∈ m.engine.stack a →
    m.engine.activations.get? x = some activation → activation.event = none
  have hall : Eventless m := by
    refine h.invariant (P := Eventless) (fun b a x activation hmem => ?_)
      fun {m} hreached heventless d a x activation' hmem hget' => ?_
    · simp [start, Engine.new, Engine.stack] at hmem
    rcases mem_stack_after hmem with hold | ⟨p, ability, -, -, rfl, hafter⟩
    · -- It was on the stack before, so it is not one that is offered now.
      cases hreached.sound.files hreached.ready hget' with
      | played => rfl
      | offered _ hx =>
        have hlt := hreached.ready.stacked hold
        rw [hx] at hlt
        exact absurd hlt (Nat.lt_irrefl _)
      | accepted _ _ _ _ hget | paid _ hget =>
        have hevent := heventless a x _ hold hget
        exact hevent
      | goes hget hcarries => exact hcarries.event.trans (heventless a x _ hold hget)
    · rw [hafter, Engine.get?_entered] at hget'
      obtain rfl := Option.some.inj hget'
      rfl
  exact hall a x activation hmem hget

theorem Reached.stackFormed (h : m.Reached) (a : AbilityId) : m.engine.StackFormed a where
  ascending := h.stacked.sorted a
  nodup := Id.nodup_of_ascending (h.stacked.sorted a)
  given _ := h.ready.stacked
  filed x hmem := by
    obtain ⟨activation, hget, hability, -⟩ := h.stacked.filed a x hmem
    exact ⟨activation, hget, hability, h.eventless hmem hget⟩
  found x hlatest := by
    obtain ⟨activation, hget, -⟩ := h.stacked.filed a x (Engine.mem_stack_of_latest hlatest)
    exact ⟨activation, hget⟩
  latest x hlatest := by
    obtain ⟨activation, hget, hability, -⟩ :=
      h.stacked.filed a x (Engine.mem_stack_of_latest hlatest)
    exact Engine.latestActivation?_of_filed hget hability

/-- Whatever the run, the stack of every ability is well formed. -/
theorem stacks_formed (b : Board) (ds : List Deed) (a : AbilityId) :
    ((start b).run ds).engine.StackFormed a :=
  Reached.stackFormed ⟨b, ds, rfl⟩ a

end Moment

end Doomtown
