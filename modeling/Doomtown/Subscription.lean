import Doomtown.Event
import Doomtown.IdMap

/-!
# Subscriptions

An ability that is registered has a subscription for each event it listens to. Subscriptions are
numbered in the order in which they were made. They are kept in a table by number, so that one is
dropped by its number, and each ability has a list of the numbers of its own, so that they can be
dropped all at once. That the table and the lists tell of the same subscriptions is part of what a
registrar is (`Registry.Agrees`).
-/

namespace Doomtown

/-- What is done for an ability when an event fires. -/
inductive Listener where
  /-- Take the ability into the event's trigger window. -/
  | trigger
  /-- Start a new period for the ability's counter. -/
  | resetUsage
  /-- Forget which activations of the ability can be retracted. -/
  | clearActivations
deriving DecidableEq

/-- An ability's wish to be told of an event. -/
structure Subscription where
  id : SubscriptionId
  ability : AbilityId
  event : EventName
  listener : Listener
deriving DecidableEq

/-! ## The table and the lists -/

/-- The subscriptions in force by number, and of each ability that has some their numbers. -/
structure Registry where
  table : IdMap .subscription Subscription
  lists : IdMap .ability (List SubscriptionId)
  nextId : Nat

namespace Registry

/-- No subscriptions. -/
def empty : Registry := ⟨.empty, .empty, 0⟩

/-- The number of the next subscription. -/
def nextToken (r : Registry) : SubscriptionId := ⟨r.nextId⟩

/-- The numbers in an ability's list. -/
def tokensOf (r : Registry) (a : AbilityId) : List SubscriptionId := (r.lists.get? a).getD []

/-- File a subscription and put its number at the end of its ability's list. -/
def register (r : Registry) (a : AbilityId) (event : EventName) (listener : Listener) :
    Registry where
  table := r.table.insert r.nextToken ⟨r.nextToken, a, event, listener⟩
  lists := r.lists.insert a (r.tokensOf a ++ [r.nextToken])
  nextId := r.nextId + 1

/-- Take a number out of an ability's list, and the list away if nothing is left in it. -/
def strike (lists : IdMap .ability (List SubscriptionId)) (a : AbilityId) (t : SubscriptionId) :
    IdMap .ability (List SubscriptionId) :=
  match lists.get? a with
  | none => lists
  | some tokens =>
    let kept := tokens.filter (· ≠ t)
    if kept.isEmpty then lists.erase a else lists.insert a kept

/-- Drop a subscription and tell whether it was in force. -/
def unregister (r : Registry) (t : SubscriptionId) : Bool × Registry :=
  match r.table.get? t with
  | none => (false, r)
  | some s => (true, { r with table := r.table.erase t, lists := strike r.lists s.ability t })

/-- Take subscriptions off a table one by one and count those that were on it. -/
def removeEach (table : IdMap .subscription Subscription) :
    List SubscriptionId → Nat × IdMap .subscription Subscription
  | [] => (0, table)
  | t :: rest =>
    let removed := removeEach (table.erase t) rest
    (removed.1 + (table.contains t).toNat, removed.2)

/-- Drop every subscription of an ability and tell how many were in force. -/
def unregisterAll (r : Registry) (a : AbilityId) : Nat × Registry :=
  let removed := removeEach r.table (r.tokensOf a)
  (removed.1, { r with table := removed.2, lists := r.lists.erase a })

/-- The table and the lists tell of the same subscriptions. -/
structure Agrees (r : Registry) : Prop where
  /-- What is on the table stands there under its own number and in its ability's list. -/
  filed : ∀ t s, r.table.get? t = some s → s.id = t ∧ t ∈ r.tokensOf s.ability
  /-- What stands in an ability's list is on the table and the ability's. -/
  listed : ∀ a, ∀ t ∈ r.tokensOf a, ∃ s, r.table.get? t = some s ∧ s.ability = a
  /-- Every number on the table was given. -/
  given : ∀ t s, r.table.get? t = some s → t.number < r.nextId
  /-- Older subscriptions of an ability have lower numbers and stand in front. -/
  ascending : ∀ a, (r.tokensOf a).Pairwise fun t u => t.number < u.number
  /-- There is no list with nothing in it. -/
  nonempty : ∀ a, r.lists.get? a ≠ some []

/-! ## What the lists hold after a change -/

section Lists

variable (r : Registry) (a a' : AbilityId) (t : SubscriptionId)

theorem tokensOf_register (event : EventName) (listener : Listener) :
    (r.register a event listener).tokensOf a' =
      if a = a' then r.tokensOf a' ++ [r.nextToken] else r.tokensOf a' := by
  unfold tokensOf register
  rw [IdMap.get?_insert]
  split
  · rename_i h
    rw [← h]
    rfl
  · rfl

theorem get?_strike (lists : IdMap .ability (List SubscriptionId)) :
    ((strike lists a t).get? a').getD [] =
      if a = a' then ((lists.get? a').getD []).filter (· ≠ t) else (lists.get? a').getD [] := by
  unfold strike
  by_cases ha : a = a'
  · subst ha
    rw [if_pos rfl]
    cases hlist : lists.get? a with
    | none => simp [hlist]
    | some tokens =>
      dsimp only
      split
      · rename_i hempty
        rw [IdMap.get?_erase, if_pos rfl]
        exact (List.isEmpty_iff.mp hempty).symm
      · rw [IdMap.get?_insert, if_pos rfl]
        rfl
  · rw [if_neg ha]
    split
    · rfl
    · dsimp only
      split
      · rw [IdMap.get?_erase, if_neg ha]
      · rw [IdMap.get?_insert, if_neg ha]

theorem strike_ne_nil {lists : IdMap .ability (List SubscriptionId)}
    (h : lists.get? a' ≠ some []) : (strike lists a t).get? a' ≠ some [] := by
  unfold strike
  split
  · exact h
  · dsimp only
    split
    · rw [IdMap.get?_erase]
      split
      · simp
      · exact h
    · rename_i hkept
      rw [IdMap.get?_insert]
      split
      · intro hnil
        exact hkept (List.isEmpty_iff.mpr (Option.some.inj hnil))
      · exact h

theorem tokensOf_unregisterAll :
    (r.unregisterAll a).2.tokensOf a' = if a = a' then [] else r.tokensOf a' := by
  unfold unregisterAll tokensOf
  dsimp only
  rw [IdMap.get?_erase]
  split <;> rfl

end Lists

/-! ## What the table holds after a change -/

theorem get?_removeEach (table : IdMap .subscription Subscription) (l : List SubscriptionId)
    (t : SubscriptionId) :
    (removeEach table l).2.get? t = if t ∈ l then none else table.get? t := by
  induction l generalizing table with
  | nil => simp [removeEach]
  | cons u l ih =>
    show (removeEach (table.erase u) l).2.get? t = _
    rw [ih, IdMap.get?_erase]
    by_cases hu : u = t
    · simp [hu]
    · simp [hu, Ne.symm hu]

/-- As many are counted as are listed, if each is on the table and listed once. -/
theorem removeEach_count {table : IdMap .subscription Subscription} {l : List SubscriptionId}
    (hnodup : l.Nodup) (hon : ∀ t ∈ l, table.contains t) : (removeEach table l).1 = l.length := by
  induction l generalizing table with
  | nil => rfl
  | cons u l ih =>
    obtain ⟨hu, hnodup⟩ := List.nodup_cons.mp hnodup
    have hrest : ∀ t ∈ l, (table.erase u).contains t := by
      intro t ht
      unfold IdMap.contains
      rw [IdMap.get?_erase, if_neg fun heq : u = t => hu (heq ▸ ht)]
      exact hon t (List.mem_cons_of_mem _ ht)
    show (removeEach (table.erase u) l).1 + (table.contains u).toNat = _
    rw [ih hnodup hrest, hon u List.mem_cons_self]
    rfl

/-! ## Every change keeps table and lists in agreement -/

theorem agrees_empty : empty.Agrees where
  filed t s h := by simp [empty] at h
  listed a t h := by simp [empty, tokensOf] at h
  given t s h := by simp [empty] at h
  ascending a := by simp [empty, tokensOf]
  nonempty a := by simp [empty]

namespace Agrees

variable {r : Registry}

/-- What stands in a list was given as a number. -/
theorem lt_of_mem (h : r.Agrees) {a : AbilityId} {t : SubscriptionId} (ht : t ∈ r.tokensOf a) :
    t.number < r.nextId := by
  obtain ⟨s, hs, -⟩ := h.listed a t ht
  exact h.given t s hs

theorem register (h : r.Agrees) (a : AbilityId) (event : EventName) (listener : Listener) :
    (r.register a event listener).Agrees where
  filed t s hs := by
    change (r.table.insert _ _).get? t = some s at hs
    rw [IdMap.get?_insert] at hs
    rw [tokensOf_register]
    split at hs
    · rename_i ht
      cases hs
      exact ⟨ht, by simp [ht]⟩
    · obtain ⟨hid, hmem⟩ := h.filed t s hs
      refine ⟨hid, ?_⟩
      split
      · exact List.mem_append_left _ hmem
      · exact hmem
  listed a' t ht := by
    show ∃ s, (r.table.insert _ _).get? t = some s ∧ s.ability = a'
    rw [tokensOf_register] at ht
    -- A number that was listed before is not the one that is given now.
    have hold : t ∈ r.tokensOf a' →
        ∃ s, (r.table.insert r.nextToken ⟨r.nextToken, a, event, listener⟩).get? t = some s ∧
          s.ability = a' := by
      intro hmem
      have hne : r.nextToken ≠ t := fun heq => Nat.lt_irrefl r.nextId (by
        have := h.lt_of_mem hmem
        rwa [← heq] at this)
      rw [IdMap.get?_insert, if_neg hne]
      exact h.listed a' t hmem
    split at ht
    · rename_i ha
      rcases List.mem_append.mp ht with hmem | hnew
      · exact hold hmem
      · rw [List.mem_singleton.mp hnew, IdMap.get?_insert, if_pos rfl]
        exact ⟨_, rfl, ha⟩
    · exact hold ht
  given t s hs := by
    change (r.table.insert _ _).get? t = some s at hs
    show t.number < r.nextId + 1
    rw [IdMap.get?_insert] at hs
    split at hs
    · rename_i ht
      rw [← ht]
      exact Nat.lt_succ_self _
    · exact Nat.lt_succ_of_lt (h.given t s hs)
  ascending a' := by
    rw [tokensOf_register]
    split
    · refine List.pairwise_append.mpr ⟨h.ascending a', List.pairwise_singleton _ _, ?_⟩
      intro t ht u hu
      rw [List.mem_singleton.mp hu]
      exact h.lt_of_mem ht
    · exact h.ascending a'
  nonempty a' := by
    show (r.lists.insert _ _).get? a' ≠ some []
    rw [IdMap.get?_insert]
    split
    · simp
    · exact h.nonempty a'

theorem unregister (h : r.Agrees) (t : SubscriptionId) : (r.unregister t).2.Agrees := by
  unfold Registry.unregister
  cases hfound : r.table.get? t with
  | none => exact h
  | some s =>
    dsimp only
    -- Taking the number out of the list of its own ability takes it out of every list.
    have htokens : ∀ a, Registry.tokensOf ⟨r.table.erase t, strike r.lists s.ability t, r.nextId⟩ a =
        (r.tokensOf a).filter (· ≠ t) := by
      intro a
      refine (get?_strike s.ability a t r.lists).trans ?_
      split
      · rfl
      · rename_i ha
        have hnot : ∀ u ∈ r.tokensOf a, u ≠ t := by
          rintro u hu rfl
          obtain ⟨s', hs', ha'⟩ := h.listed a u hu
          exact ha (Option.some.inj (hfound.symm.trans hs') ▸ ha')
        exact (List.filter_eq_self.mpr fun u hu => decide_eq_true (hnot u hu)).symm
    have herase : ∀ u, (r.table.erase t).get? u = if t = u then none else r.table.get? u :=
      IdMap.get?_erase r.table t
    constructor
    · intro u s' hs'
      rw [htokens]
      change (r.table.erase t).get? u = some s' at hs'
      rw [herase] at hs'
      split at hs'
      · cases hs'
      · rename_i hne
        obtain ⟨hid, hmem⟩ := h.filed u s' hs'
        exact ⟨hid, List.mem_filter.mpr ⟨hmem, decide_eq_true (Ne.symm hne)⟩⟩
    · intro a u hu
      rw [htokens] at hu
      obtain ⟨hmem, hne⟩ := List.mem_filter.mp hu
      show ∃ s', (r.table.erase t).get? u = some s' ∧ s'.ability = a
      rw [herase, if_neg (Ne.symm (of_decide_eq_true hne))]
      exact h.listed a u hmem
    · intro u s' hs'
      change (r.table.erase t).get? u = some s' at hs'
      rw [herase] at hs'
      split at hs'
      · cases hs'
      · exact h.given u s' hs'
    · intro a
      rw [htokens]
      exact (h.ascending a).filter _
    · exact fun a => strike_ne_nil s.ability a t (h.nonempty a)

theorem unregisterAll (h : r.Agrees) (a : AbilityId) : (r.unregisterAll a).2.Agrees := by
  have hremove := get?_removeEach r.table (r.tokensOf a)
  constructor
  · intro t s hs
    change (removeEach _ _).2.get? t = some s at hs
    rw [hremove] at hs
    split at hs
    · cases hs
    · rename_i hkept
      obtain ⟨hid, hmem⟩ := h.filed t s hs
      rw [tokensOf_unregisterAll, if_neg fun ha : a = s.ability => hkept (ha ▸ hmem)]
      exact ⟨hid, hmem⟩
  · intro a' t ht
    rw [tokensOf_unregisterAll] at ht
    split at ht
    · cases ht
    · rename_i ha
      obtain ⟨s, hs, hability⟩ := h.listed a' t ht
      -- It stands in another's list, so it is none of those that were taken off the table.
      have hkept : t ∉ r.tokensOf a := by
        intro hmem
        obtain ⟨s', hs', hability'⟩ := h.listed a t hmem
        rw [hs] at hs'
        cases hs'
        exact ha (hability'.symm.trans hability)
      exact ⟨s, (hremove t).trans ((if_neg hkept).trans hs), hability⟩
  · intro t s hs
    change (removeEach _ _).2.get? t = some s at hs
    rw [hremove] at hs
    split at hs
    · cases hs
    · exact h.given t s hs
  · intro a'
    rw [tokensOf_unregisterAll]
    split
    · exact List.Pairwise.nil
    · exact h.ascending a'
  · intro a'
    show (r.lists.erase a).get? a' ≠ some []
    rw [IdMap.get?_erase]
    split
    · simp
    · exact h.nonempty a'

end Agrees

end Registry

/-! ## The registrar -/

/-- The subscriptions in force. -/
structure Registrar extends Registry where
  agrees : toRegistry.Agrees

namespace Registrar

/-- No subscriptions. -/
def empty : Registrar := ⟨.empty, Registry.agrees_empty⟩

/-- Add a subscription. -/
def register (r : Registrar) (a : AbilityId) (event : EventName) (listener : Listener) :
    Registrar :=
  ⟨r.toRegistry.register a event listener, r.agrees.register a event listener⟩

/-- Whether a subscription is in force. -/
def contains (r : Registrar) (t : SubscriptionId) : Bool := r.table.contains t

/-- Drop a subscription. -/
def unregister (r : Registrar) (t : SubscriptionId) : Registrar :=
  ⟨(r.toRegistry.unregister t).2, r.agrees.unregister t⟩

/-- Drop every subscription of an ability. -/
def unregisterAll (r : Registrar) (a : AbilityId) : Registrar :=
  ⟨(r.toRegistry.unregisterAll a).2, r.agrees.unregisterAll a⟩

/-- Whether an ability has a subscription. -/
def isRegistered (r : Registrar) (a : AbilityId) : Bool := r.lists.contains a

/-- The subscriptions, oldest first. -/
def subscriptions (r : Registrar) : List Subscription := r.table.entries.map Prod.snd

/-- The subscriptions of an ability, oldest first. -/
def of (r : Registrar) (a : AbilityId) : List Subscription :=
  (r.tokensOf a).filterMap r.table.get?

/-- The subscriptions to an event, oldest first. -/
def listenersFor (r : Registrar) (event : EventName) : List Subscription :=
  r.subscriptions.filter (·.event = event)

end Registrar

end Doomtown
