import Mathlib.Data.List.Sort
import Doomtown.Engine.Registration

/-!
# Histories of subscriptions

What a registrar answers is told by the list of the subscriptions in force, oldest first: the lists
of the abilities are parts of it (`Registrar.of_eq_filter`), and a change adds to it at the end or
takes out of it. Subscriptions are made and dropped one by one and ability by ability. Whatever the
history, the table and the lists of the abilities tell of the same subscriptions, in the order in
which their numbers were given (`Registrar.table_lists_agree`).
-/

namespace Doomtown

/-- What lists things by ascending numbers is told by what it lists. -/
theorem eq_of_ascending {α : Type} {number : α → Nat} {l l' : List α}
    (h : l.Pairwise fun a b => number a < number b)
    (h' : l'.Pairwise fun a b => number a < number b) (hmem : ∀ a, a ∈ l ↔ a ∈ l') : l = l' := by
  have : Std.Irrefl fun a b : α => number a < number b := ⟨fun _ => Nat.lt_irrefl _⟩
  have : Std.Antisymm fun a b : α => number a < number b :=
    ⟨fun _ _ hlt hgt => absurd hgt (Nat.lt_asymm hlt)⟩
  exact h.eq_of_mem_iff h' hmem

/-- A number that is dropped is on the table no more, and the others are as before. -/
theorem Registry.get?_unregister (r : Registry) (t u : SubscriptionId) :
    (r.unregister t).2.table.get? u = if t = u then none else r.table.get? u := by
  unfold Registry.unregister
  cases hfound : r.table.get? t with
  | none =>
    show r.table.get? u = _
    split
    · rename_i h
      exact h ▸ hfound
    · rfl
  | some s => exact r.table.get?_erase t u

namespace Registrar

variable (r : Registrar) {s : Subscription} {a : AbilityId} {t : SubscriptionId}

/-! ## The list of all subscriptions -/

theorem mem_subscriptions : s ∈ r.subscriptions ↔ r.table.get? s.id = some s := by
  unfold subscriptions
  rw [List.mem_map]
  constructor
  · rintro ⟨⟨t, s⟩, hentry, rfl⟩
    have hs := IdMap.get?_eq_some_iff.mpr hentry
    rwa [(r.agrees.filed t s hs).1]
  · exact fun hs => ⟨(s.id, s), IdMap.get?_eq_some_iff.mp hs, rfl⟩

/-- The numbers in an ability's list are those of its subscriptions. -/
theorem mem_tokensOf (hs : r.table.get? t = some s) (a : AbilityId) :
    t ∈ r.tokensOf a ↔ s.ability = a := by
  constructor
  · intro hmem
    obtain ⟨s', hs', hability⟩ := r.agrees.listed a t hmem
    obtain rfl := Option.some.inj (hs'.symm.trans hs)
    exact hability
  · rintro rfl
    exact (r.agrees.filed t s hs).2

/-- No number stands in a list twice. -/
theorem nodup_tokensOf (a : AbilityId) : (r.tokensOf a).Nodup :=
  Id.nodup_of_ascending (r.agrees.ascending a)

/-- Older subscriptions have lower numbers and stand in front. -/
theorem subscriptions_ascending :
    r.subscriptions.Pairwise fun s t => s.id.number < t.id.number := by
  unfold subscriptions
  rw [List.pairwise_map]
  refine (List.Pairwise.and_mem.mp r.table.entries_ascending).imp ?_
  rintro ⟨t, s⟩ ⟨t', s'⟩ ⟨hs, hs', hlt⟩
  rw [(r.agrees.filed t s (IdMap.get?_eq_some_iff.mpr hs)).1,
    (r.agrees.filed t' s' (IdMap.get?_eq_some_iff.mpr hs')).1]
  exact hlt

theorem mem_of : s ∈ r.of a ↔ s ∈ r.subscriptions ∧ s.ability = a := by
  unfold of
  rw [List.mem_filterMap, mem_subscriptions]
  constructor
  · rintro ⟨t, ht, hs⟩
    obtain ⟨s', hs', hability⟩ := r.agrees.listed a t ht
    obtain rfl := Option.some.inj (hs'.symm.trans hs)
    exact ⟨(r.agrees.filed t s' hs').1.symm ▸ hs, hability⟩
  · rintro ⟨hs, rfl⟩
    exact ⟨s.id, (r.agrees.filed s.id s hs).2, hs⟩

/-- What an ability's list tells of are the ability's subscriptions. -/
theorem of_eq_filter (a : AbilityId) : r.of a = r.subscriptions.filter (·.ability = a) := by
  refine eq_of_ascending ?_ (r.subscriptions_ascending.filter _) fun s => ?_
  · unfold of
    rw [List.pairwise_filterMap]
    refine (r.agrees.ascending a).imp fun {t u} hlt s hs s' hs' => ?_
    rw [(r.agrees.filed t s hs).1, (r.agrees.filed u s' hs').1]
    exact hlt
  · rw [mem_of, List.mem_filter, decide_eq_true_iff]

/-- An ability that is registered has a subscription. -/
theorem isRegistered_iff_exists (a : AbilityId) :
    r.isRegistered a ↔ ∃ s ∈ r.subscriptions, s.ability = a := by
  unfold isRegistered IdMap.contains
  have htokens : r.tokensOf a = (r.lists.get? a).getD [] := rfl
  cases hlist : r.lists.get? a with
  | none =>
    refine iff_of_false (by simp) ?_
    rintro ⟨s, hs, rfl⟩
    have hmem := (r.agrees.filed s.id s (r.mem_subscriptions.mp hs)).2
    rw [htokens, hlist] at hmem
    exact absurd hmem List.not_mem_nil
  | some tokens =>
    refine iff_of_true rfl ?_
    obtain ⟨t, ht⟩ := List.exists_mem_of_ne_nil tokens fun hnil =>
      r.agrees.nonempty a (hlist.trans (congrArg some hnil))
    obtain ⟨s, hs, hability⟩ := r.agrees.listed a t (by rw [htokens, hlist]; exact ht)
    exact ⟨s, r.mem_subscriptions.mpr ((r.agrees.filed t s hs).1.symm ▸ hs), hability⟩

/-! ## What changes do to it -/

theorem get?_unregister (t u : SubscriptionId) :
    (r.unregister t).table.get? u = if t = u then none else r.table.get? u :=
  r.toRegistry.get?_unregister t u

theorem get?_unregisterAll (a : AbilityId) (t : SubscriptionId) :
    (r.unregisterAll a).table.get? t = if t ∈ r.tokensOf a then none else r.table.get? t :=
  Registry.get?_removeEach r.table (r.tokensOf a) t

/-- A new subscription stands last. -/
theorem subscriptions_register (a : AbilityId) (event : EventName) (listener : Listener) :
    (r.register a event listener).subscriptions =
      r.subscriptions ++ [⟨r.nextToken, a, event, listener⟩] := by
  have hgiven : ∀ s ∈ r.subscriptions, s.id.number < r.nextId := fun s hs =>
    r.agrees.given s.id s (r.mem_subscriptions.mp hs)
  refine eq_of_ascending (subscriptions_ascending _) ?_ fun s => ?_
  · refine List.pairwise_append.mpr
      ⟨r.subscriptions_ascending, List.pairwise_singleton _ _, fun s hs u hu => ?_⟩
    rw [List.mem_singleton.mp hu]
    exact hgiven s hs
  · have htable : (r.register a event listener).table =
        r.table.insert r.nextToken ⟨r.nextToken, a, event, listener⟩ := rfl
    rw [mem_subscriptions, htable, IdMap.get?_insert, List.mem_append, List.mem_singleton]
    constructor
    · intro hs
      split at hs
      · exact .inr (Option.some.inj hs).symm
      · exact .inl (r.mem_subscriptions.mpr hs)
    · rintro (hs | rfl)
      · have hne : r.nextToken ≠ s.id := fun heq =>
          Nat.lt_irrefl _ (lt_of_lt_of_eq (hgiven s hs) (congrArg Id.number heq))
        rw [if_neg hne]
        exact r.mem_subscriptions.mp hs
      · exact if_pos rfl

theorem subscriptions_unregister (t : SubscriptionId) :
    (r.unregister t).subscriptions = r.subscriptions.filter (·.id ≠ t) := by
  refine eq_of_ascending (subscriptions_ascending _)
    (r.subscriptions_ascending.filter _) fun s => ?_
  rw [mem_subscriptions, get?_unregister, List.mem_filter, mem_subscriptions]
  by_cases h : t = s.id
  · simp [h]
  · simp [h, Ne.symm h]

theorem subscriptions_unregisterAll (a : AbilityId) :
    (r.unregisterAll a).subscriptions = r.subscriptions.filter (·.ability ≠ a) := by
  refine eq_of_ascending (subscriptions_ascending _)
    (r.subscriptions_ascending.filter _) fun s => ?_
  rw [mem_subscriptions, get?_unregisterAll, List.mem_filter, mem_subscriptions]
  by_cases hs : r.table.get? s.id = some s
  · simp [r.mem_tokensOf hs a, hs]
  · simp [hs]

end Registrar

/-! ## Histories -/

/-- What changes the subscriptions in force. -/
inductive Enrolment where
  | register (ability : AbilityId) (event : EventName) (listener : Listener)
  | unregister (subscription : SubscriptionId)
  | unregisterAll (ability : AbilityId)

namespace Registrar

/-- The subscriptions after a change. -/
def enrol (r : Registrar) : Enrolment → Registrar
  | .register a event listener => r.register a event listener
  | .unregister s => r.unregister s
  | .unregisterAll a => r.unregisterAll a

/-- The subscriptions after a history of changes. -/
def ofHistory (history : List Enrolment) : Registrar := history.foldl enrol .empty

/-- The subscriptions of an ability are made one by one. -/
theorem registerAll_eq (r : Registrar) (a : AbilityId) (l : List (EventName × Listener)) :
    r.registerAll a l = (l.map fun s => Enrolment.register a s.1 s.2).foldl enrol r := by
  rw [List.foldl_map]
  rfl

/-- The number that a change answers with, if it makes a subscription. -/
def token? (r : Registrar) : Enrolment → Option SubscriptionId
  | .register _ _ _ => some r.nextToken
  | .unregister _ => none
  | .unregisterAll _ => none

/-- The numbers that a history of changes answers with, in order. -/
def issued (r : Registrar) : List Enrolment → List SubscriptionId
  | [] => []
  | change :: history => (r.token? change).toList ++ (r.enrol change).issued history

/-- Numbers were given in ascending order, and all that is on the table has one of them. -/
structure Issues (r : Registrar) (given : List SubscriptionId) : Prop where
  ascending : given.Pairwise fun t u => t.number < u.number
  bounded : ∀ t ∈ given, t.number < r.nextId
  live : ∀ t, r.table.contains t → t ∈ given

/-- A change gives at most one number, higher than those that were given before. -/
theorem Issues.enrol {r : Registrar} {given : List SubscriptionId} (h : r.Issues given)
    (change : Enrolment) : (r.enrol change).Issues (given ++ (r.token? change).toList) := by
  -- Where nothing is made, what is on the table afterwards was on it before.
  have hdrop : ∀ r' : Registrar, r'.nextId = r.nextId →
      (∀ t, r'.table.contains t → r.table.contains t) → r'.Issues (given ++ []) :=
    fun r' hnext hsub => by
      rw [List.append_nil]
      exact ⟨h.ascending, hnext ▸ h.bounded, fun t ht => h.live t (hsub t ht)⟩
  cases change with
  | register a event listener =>
    refine ⟨List.pairwise_append.mpr
      ⟨h.ascending, List.pairwise_singleton _ _, fun t ht u hu => ?_⟩, fun t ht => ?_,
      fun t ht => ?_⟩
    · rw [List.mem_singleton.mp hu]
      exact h.bounded t ht
    · show t.number < r.nextId + 1
      rcases List.mem_append.mp ht with hold | hnew
      · exact Nat.lt_succ_of_lt (h.bounded t hold)
      · rw [List.mem_singleton.mp hnew]
        exact Nat.lt_succ_self _
    · change ((r.table.insert r.nextToken _).get? t).isSome at ht
      rw [IdMap.get?_insert] at ht
      split at ht
      · rename_i heq
        exact List.mem_append_right _ (List.mem_singleton.mpr heq.symm)
      · exact List.mem_append_left _ (h.live t ht)
  | unregister u =>
    refine hdrop _ ?_ fun t ht => ?_
    · show (r.toRegistry.unregister u).2.nextId = r.nextId
      unfold Registry.unregister
      split <;> rfl
    · change ((r.unregister u).table.get? t).isSome at ht
      rw [get?_unregister] at ht
      split at ht
      · cases ht
      · exact ht
  | unregisterAll a =>
    refine hdrop _ rfl fun t ht => ?_
    change ((r.unregisterAll a).table.get? t).isSome at ht
    rw [get?_unregisterAll] at ht
    split at ht
    · cases ht
    · exact ht

/-- A history of changes gives numbers in ascending order. -/
theorem Issues.history {r : Registrar} {given : List SubscriptionId} (h : r.Issues given)
    (history : List Enrolment) :
    (history.foldl Registrar.enrol r).Issues (given ++ r.issued history) := by
  induction history generalizing r given with
  | nil => simpa [issued] using h
  | cons change history ih =>
    have hrest := ih (h.enrol change)
    rwa [List.append_assoc] at hrest

/-- What is on the table are the subscriptions of the numbers given, in order. -/
theorem Issues.subscriptions_eq {r : Registrar} {given : List SubscriptionId}
    (h : r.Issues given) : r.subscriptions = given.filterMap r.table.get? := by
  refine eq_of_ascending r.subscriptions_ascending ?_ fun s => ?_
  · rw [List.pairwise_filterMap]
    refine h.ascending.imp fun {t u} hlt s hs s' hs' => ?_
    rw [(r.agrees.filed t s hs).1, (r.agrees.filed u s' hs').1]
    exact hlt
  · rw [mem_subscriptions, List.mem_filterMap]
    constructor
    · exact fun hs => ⟨s.id, h.live s.id (Option.isSome_of_eq_some hs), hs⟩
    · rintro ⟨t, -, hs⟩
      exact (r.agrees.filed t s hs).1.symm ▸ hs

/-! ## The table and the lists of the abilities -/

/-- The table and the lists of the abilities tell of the same subscriptions, which have some of the
numbers given. -/
structure Coheres (r : Registrar) (given : List SubscriptionId) : Prop where
  /-- A number in an ability's list is that of a subscription of the ability. -/
  listed : ∀ a, ∀ t ∈ r.tokensOf a, ∃ s, r.table.get? t = some s ∧ s.ability = a
  /-- A subscription stands under its own number and once in its ability's list. -/
  filed : ∀ t s, r.table.get? t = some s → s.id = t ∧ (r.tokensOf s.ability).count t = 1
  /-- No list has nothing in it. -/
  nonempty : ∀ a, r.lists.get? a ≠ some []
  /-- Numbers are given in ascending order, so none is given twice. -/
  ascending : given.Pairwise fun t u => t.number < u.number
  /-- An ability's list holds those of the numbers given that are its subscriptions', in order. -/
  tokens : ∀ a, r.tokensOf a = given.filter fun t => (r.table.get? t).any (·.ability = a)
  /-- All that is on the table has one of the numbers given. -/
  live : ∀ t, r.table.contains t → t ∈ given

/-- What is asked of the registrar and done to it agrees with the table. -/
structure Answers (r : Registrar) (given : List SubscriptionId) : Prop where
  /-- An ability is registered if it has a subscription. -/
  isRegistered : ∀ a, r.isRegistered a ↔ ∃ t s, r.table.get? t = some s ∧ s.ability = a
  /-- To drop all subscriptions of an ability is to drop those and no others. -/
  unregisterAll : ∀ a t, (r.unregisterAll a).table.get? t =
    (r.table.get? t).filter (·.ability ≠ a)
  /-- Their number is the answer. -/
  dropped : ∀ a, (r.toRegistry.unregisterAll a).1 =
    (r.table.entries.filter (·.2.ability = a)).length
  /-- To drop one subscription is to drop that and no other. -/
  unregister : ∀ t u, (r.unregister t).table.get? u = if t = u then none else r.table.get? u
  /-- The answer is whether it was in force. -/
  found : ∀ t, (r.toRegistry.unregister t).1 = r.table.contains t
  /-- To drop it once more changes nothing and is answered so. -/
  again : ∀ t, (r.unregister t).toRegistry.unregister t = (false, (r.unregister t).toRegistry)
  /-- The listeners for an event are its subscriptions, in the order in which they were made. -/
  listeners : ∀ event, r.listenersFor event =
    (given.filterMap r.table.get?).filter (·.event = event)

theorem Issues.coheres {r : Registrar} {given : List SubscriptionId} (h : r.Issues given) :
    r.Coheres given where
  listed := r.agrees.listed
  filed t s hs := by
    obtain ⟨hid, hmem⟩ := r.agrees.filed t s hs
    exact ⟨hid, List.count_eq_one_of_mem (r.nodup_tokensOf s.ability) hmem⟩
  nonempty := r.agrees.nonempty
  ascending := h.ascending
  tokens a := by
    refine eq_of_ascending (r.agrees.ascending a) (h.ascending.filter _) fun t => ?_
    rw [List.mem_filter, Option.any_eq_true]
    constructor
    · intro ht
      obtain ⟨s, hs, hability⟩ := r.agrees.listed a t ht
      exact ⟨h.live t (Option.isSome_of_eq_some hs), s, hs, decide_eq_true hability⟩
    · rintro ⟨-, s, hs, hability⟩
      exact of_decide_eq_true hability ▸ (r.agrees.filed t s hs).2
  live := h.live

/-- An ability has as many subscriptions as numbers in its list. -/
theorem length_of (r : Registrar) (a : AbilityId) : (r.of a).length = (r.tokensOf a).length := by
  unfold of
  rw [List.length_filterMap_eq_countP, List.countP_eq_length]
  intro t ht
  obtain ⟨s, hs, -⟩ := r.agrees.listed a t ht
  exact Option.isSome_of_eq_some hs

/-- To drop all subscriptions of an ability is answered with their number. -/
theorem dropped_eq (r : Registrar) (a : AbilityId) :
    (r.toRegistry.unregisterAll a).1 = (r.of a).length := by
  rw [length_of]
  refine Registry.removeEach_count (r.nodup_tokensOf a) fun t ht => ?_
  obtain ⟨s, hs, -⟩ := r.agrees.listed a t ht
  exact Option.isSome_of_eq_some hs

theorem Issues.answers {r : Registrar} {given : List SubscriptionId} (h : r.Issues given) :
    r.Answers given where
  isRegistered a := by
    rw [isRegistered_iff_exists]
    constructor
    · rintro ⟨s, hs, hability⟩
      exact ⟨s.id, s, r.mem_subscriptions.mp hs, hability⟩
    · rintro ⟨t, s, hs, hability⟩
      exact ⟨s, r.mem_subscriptions.mpr ((r.agrees.filed t s hs).1.symm ▸ hs), hability⟩
  unregisterAll a t := by
    rw [get?_unregisterAll]
    cases hs : r.table.get? t with
    | none => simp
    | some s =>
      have hlisted := r.mem_tokensOf hs a
      by_cases ha : s.ability = a
      · simp [hlisted, ha, Option.filter]
      · simp [hlisted, ha, Option.filter]
  dropped a := by
    rw [dropped_eq, of_eq_filter]
    unfold subscriptions
    rw [List.filter_map, List.length_map]
    rfl
  unregister := r.get?_unregister
  found t := by
    unfold Registry.unregister IdMap.contains
    cases r.table.get? t <;> rfl
  again t := by
    have hgone : (r.unregister t).table.get? t = none := by rw [get?_unregister, if_pos rfl]
    unfold Registry.unregister
    rw [hgone]
  listeners event := by
    unfold listenersFor
    rw [h.subscriptions_eq]

/-- Whatever the history of changes, the table and the lists of the abilities tell of the same
subscriptions, and what is asked and done agrees with them. -/
theorem table_lists_agree (history : List Enrolment) :
    (ofHistory history).Coheres (empty.issued history) ∧
      (ofHistory history).Answers (empty.issued history) := by
  have hempty : Registrar.empty.Issues [] :=
    ⟨List.Pairwise.nil, fun _ h => absurd h List.not_mem_nil, fun t h => by
      simp [IdMap.contains, empty, Registry.empty] at h⟩
  have hissues : (ofHistory history).Issues (empty.issued history) := hempty.history history
  exact ⟨hissues.coheres, hissues.answers⟩

end Registrar

end Doomtown
