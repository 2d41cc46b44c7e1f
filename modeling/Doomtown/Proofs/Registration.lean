import Doomtown.Proofs.Conservation

/-!
# Registration follows location

An entry is whole or it is empty: the subscriptions of an ability are made together and with its
counter, and they are dropped together (`Engine.Proper`). Where nobody moves cards or registers
abilities by hand, an ability has an entry exactly while its card is at one of the ability's
locations. A move of the card between two of these leaves the entry alone
(`Moment.registration_follows`).
-/

namespace Doomtown

/-! ## What is attached -/

namespace Design

variable {design : Design} {card : Card} {ability : Ability}

/-- What is attached belongs to the card. -/
theorem source_of_build (h : design.build card = .ok ability) : ability.source = card.id := by
  unfold build at h
  dsimp only at h
  split at h
  · simp at h
  · split at h
    · simp at h
    · rw [← Except.ok.inj h]

/-- What is attached has something to subscribe to: the end of retraction, if it is an action, and
the events that set it off otherwise. -/
theorem subscriptions_of_build (h : design.build card = .ok ability) :
    ability.subscriptions ≠ [] := by
  unfold build at h
  dsimp only at h
  split at h
  · simp at h
  · rename_i htriggers
    split at h
    · simp at h
    · rw [← Except.ok.inj h]
      unfold Ability.subscriptions Ability.isAction
      cases hkind : design.kind with
      | action => simp
      | _ =>
        have hsome : design.triggers ≠ [] := by
          simpa [hkind, AbilityKind.isTriggered] using htriggers
        simp [hsome]

end Design

namespace Engine

variable {e e' : Engine} {a : AbilityId}

/-! ## Whole entries -/

namespace Entry

variable {ability : Ability} {ability? : Option Ability} {here : Bool} {s s' : Entry}

/-- An entry with all subscriptions of the ability, and a counter if the ability has a limit. -/
structure Whole (ability : Ability) (s : Entry) : Prop where
  subscriptions : s.subscriptions.map (fun s => (s.event, s.listener)) = ability.subscriptions
  limit : s.counter.map (·.limit) = ability.limit

/-- An ability has no entry, or a whole one. -/
def Proper (ability : Option Ability) (s : Entry) : Prop :=
  s = .empty ∨ ∃ a, ability = some a ∧ s.Whole a

/-- What is made where there was nothing is whole. -/
theorem Enters.whole (h : Enters ability s s') (hproper : s.Proper (some ability)) :
    s'.Whole ability := by
  refine ⟨h.subscriptions, ?_⟩
  rw [h.counter]
  rcases hproper with rfl | ⟨a, ha, hwhole⟩
  · cases ability.limit <;> rfl
  · -- The ability subscribes to nothing, and its counter was there.
    obtain rfl := Option.some.inj ha
    have hlimit := hwhole.limit
    cases hcounter : s.counter with
    | none =>
      rw [hcounter] at hlimit
      rw [← hlimit]
      rfl
    | some u =>
      rw [hcounter] at hlimit
      rw [← hlimit]
      rfl

theorem Tends.proper (h : Tends ability? here s s') (hproper : s.Proper ability?) :
    s'.Proper ability? := by
  cases h with
  | keeps => exact hproper
  | enters hability _ hnew =>
    subst hability
    exact .inr ⟨_, rfl, hnew.whole hproper⟩
  | leaves _ => exact .inl rfl

/-- An ability that has subscriptions keeps its entry while its card is in place. -/
theorem Tends.eq_of_here (h : Tends ability? true s s') (hsome : s.subscriptions ≠ []) :
    s' = s := by
  cases h with
  | keeps => rfl
  | enters _ _ hnew => exact absurd hnew.none hsome
  | leaves haway => simp at haway

/-- A change of the count leaves an entry whole. -/
theorem Proper.count (h : s.Proper ability?) (hsubscriptions : s'.subscriptions = s.subscriptions)
    (hcounter : s'.counter.map (·.limit) = s.counter.map (·.limit)) : s'.Proper ability? := by
  rcases h with rfl | ⟨a, rfl, hwhole⟩
  · obtain ⟨subscriptions, counter⟩ := s'
    obtain rfl : subscriptions = [] := hsubscriptions
    obtain rfl : counter = none := by
      cases counter with
      | none => rfl
      | some u => simp [empty] at hcounter
    exact .inl rfl
  · exact .inr ⟨a, rfl, by rw [hsubscriptions]; exact hwhole.subscriptions,
      hcounter.trans hwhole.limit⟩

theorem hear_subscriptions (s : Entry) (event : EventName) :
    (s.hear event).subscriptions = s.subscriptions := by
  unfold hear
  split <;> rfl

theorem Proper.hear (h : s.Proper ability?) (event : EventName) :
    (s.hear event).Proper ability? := by
  refine h.count (s.hear_subscriptions event) ?_
  unfold Entry.hear
  split
  · rw [Option.map_map]
    rfl
  · rfl

end Entry

/-- Every ability has no entry, or a whole one. -/
def Proper (e : Engine) : Prop := ∀ a, (e.entry a).Proper (e.ability? a)

/-- An ability that does not exist has no entry. -/
theorem Proper.entry_none (h : e.Proper) (hnone : e.ability? a = none) : e.entry a = .empty := by
  rcases h a with hempty | ⟨ability, hability, -⟩
  · exact hempty
  · rw [hnone] at hability
    simp at hability

/-- Nor has the ability that would be attached next. -/
theorem Proper.entry_next (h : e.Proper) : e.entry ⟨e.abilities.length⟩ = .empty :=
  h.entry_none (List.getElem?_eq_none (Nat.le_refl _))

theorem eq_next_or_ne (e : Engine) (a : AbilityId) :
    a = ⟨e.abilities.length⟩ ∨ a.number ≠ e.abilities.length := by
  obtain ⟨n⟩ := a
  by_cases hn : n = e.abilities.length
  · exact .inl (congrArg Id.mk hn)
  · exact .inr hn

theorem Proper.of_sameEntries (h : e.Proper) (hsame : e.SameEntries e') : e'.Proper := by
  intro a
  rw [ability?_congr hsame.abilities, hsame.entries]
  exact h a

theorem Proper.of_touches (h : e.Proper) (htouches : e.Touches a e')
    (hentry : (e'.entry a).Proper (e.ability? a)) : e'.Proper := by
  intro a'
  rw [ability?_congr htouches.abilities]
  by_cases ha : a' = a
  · rw [ha]
    exact hentry
  · rw [htouches.others a' ha]
    exact h a'

/-- What is attached is the next ability. -/
theorem Attaches.ability? {c : CardId} {design : Design} {card : Card} {ability : Ability}
    (h : e.Attaches c design card ability e') (a : AbilityId) :
    e'.ability? a = if a.number = e.abilities.length then some ability else e.ability? a := by
  unfold Engine.ability?
  rw [h.abilities]
  split
  · rename_i heq
    rw [heq]
    simp
  · rename_i hne
    rcases Nat.lt_or_gt_of_ne hne with hlt | hgt
    · rw [List.getElem?_append_left hlt]
    · rw [List.getElem?_append_right (Nat.le_of_lt hgt), List.getElem?_eq_none (Nat.le_of_lt hgt)]
      exact List.getElem?_eq_none (by simp; omega)

/-- An entry is made for what is attached if it listens where its card is. -/
theorem Attaches.enters {c : CardId} {design : Design} {card : Card} {ability : Ability}
    (h : e.Attaches c design card ability e') (hproper : e.Proper) :
    if ability.listensIn card.location then
      (e.entry ⟨e.abilities.length⟩).Enters ability (e'.entry ⟨e.abilities.length⟩)
    else e'.entry ⟨e.abilities.length⟩ = .empty := by
  have hempty := hproper.entry_next
  have hentry := h.entry
  split
  · rename_i hlistens
    rw [if_pos hlistens] at hentry
    refine hentry.resolve_left ?_
    rintro ⟨hregistered, -⟩
    exact (Registrar.isRegistered_iff _ _).mp hregistered (congrArg Entry.subscriptions hempty)
  · rename_i haway
    rw [if_neg haway] at hentry
    exact hentry.trans hempty

theorem Proper.of_attaches {c : CardId} {design : Design} {card : Card} {ability : Ability}
    (h : e.Proper) (hattaches : e.Attaches c design card ability e') : e'.Proper := by
  intro a
  rw [hattaches.ability?]
  rcases e.eq_next_or_ne a with rfl | ha
  · rw [if_pos rfl]
    have hentry := hattaches.enters h
    split at hentry
    · exact .inr ⟨ability, rfl, hentry.whole (.inl h.entry_next)⟩
    · exact .inl hentry
  · rw [if_neg ha, hattaches.others a ha]
    exact h a

end Engine

namespace Moment

variable {m : Moment} {d : Deed} {e e' : Engine} {a : AbilityId}

/-- Counting a use changes counts only. -/
theorem entry_countedBy (m : Moment) (o : Option (ActivationId × Occurrence)) (a : AbilityId) :
    ((m.countedBy o).entry a).subscriptions = (m.engine.entry a).subscriptions ∧
      ((m.countedBy o).entry a).counter.map (·.limit) =
        (m.engine.entry a).counter.map (·.limit) := by
  rcases o with _ | ⟨x, o⟩
  · exact ⟨rfl, rfl⟩
  · cases o with
    | counted =>
      show ((m.counted x (some .counted)).entry a).subscriptions = _ ∧
        ((m.counted x (some .counted)).entry a).counter.map (·.limit) = _
      unfold counted
      dsimp only
      cases m.engine.activations.get? x with
      | none => exact ⟨rfl, rfl⟩
      | some activation =>
        refine ⟨rfl, ?_⟩
        show ((m.engine.usage.counters.modify activation.ability (·.increment)).get? a).map _ = _
        rw [IdMap.get?_modify]
        split
        · rw [Option.map_map]
          rfl
        · rfl
    | _ => exact ⟨rfl, rfl⟩

theorem abilities_countedBy (m : Moment) (o : Option (ActivationId × Occurrence)) :
    (m.countedBy o).abilities = m.engine.abilities := by
  cases o with
  | none => rfl
  | some xo =>
    obtain ⟨usage, husage⟩ := m.counted_eq xo.1 (some xo.2)
    exact congrArg (·.abilities) husage

theorem proper_countedBy (h : m.engine.Proper) (o : Option (ActivationId × Occurrence)) :
    (m.countedBy o).Proper := by
  intro a
  obtain ⟨hsubscriptions, hlimit⟩ := m.entry_countedBy o a
  rw [Engine.ability?_congr (m.abilities_countedBy o)]
  exact (h a).count hsubscriptions hlimit

/-- Whatever a deed does to entries, they are whole or empty. -/
theorem Alters.proper (h : m.Alters d e e') (hproper : e.Proper) : e'.Proper := by
  have htended : ∀ {here : AbilityId → Bool}, e'.abilities = e.abilities →
      (∀ a, (e.entry a).Tends (e.ability? a) (here a) (e'.entry a)) → e'.Proper := by
    intro here habilities hentries a
    rw [Engine.ability?_congr habilities]
    exact (hentries a).proper (hproper a)
  cases h with
  | tends h => exact htended h.abilities h.entries
  | relocates c h => exact htended h.abilities h.entries
  | refunds _ _ h => exact hproper.of_sameEntries h
  | shifts _ _ _ _ h => exact hproper.of_sameEntries h
  | sets _ _ _ h => exact hproper.of_sameEntries h
  | @registers a ability _ hfound h henters =>
    have hentry := hproper a
    rw [hfound] at hentry
    exact hproper.of_touches h (.inr ⟨ability, hfound, henters.whole hentry⟩)
  | unregisters a _ h hentry => exact hproper.of_touches h (.inl hentry)
  | attaches c design card ability h => exact hproper.of_attaches h
  | hears event _ h =>
    intro a
    rw [Engine.ability?_congr h.abilities, h.entries]
    exact (hproper a).hear event.name

theorem proper_run (h : m.Sound) (hproper : m.engine.Proper) (ds : List Deed) :
    (m.run ds).engine.Proper := by
  induction ds generalizing m with
  | nil => exact hproper
  | cons d ds ih => exact ih (h.after d) ((h.alters d).proper (proper_countedBy hproper _))

theorem proper_start (b : Board) : (start b).engine.Proper := fun _ => .inl rfl

/-- Whatever is registered at a moment of a run has all of its subscriptions and its counter. -/
theorem Reached.proper (h : m.Reached) : m.engine.Proper := by
  obtain ⟨b, ds, rfl⟩ := h
  exact proper_run (sound_start b) (proper_start b) ds

end Moment

/-! ## In step with locations -/

namespace Engine

variable {e e' : Engine} {a : AbilityId} {ability : Ability}

/-- What holds while nobody moves cards or registers abilities by hand. -/
structure Upkept (e : Engine) : Prop where
  tidy : e.board.Tidy
  /-- Abilities belong to cards that exist. -/
  sources : ∀ a ability, e.ability? a = some ability → (e.board.card? ability.source).isSome
  listens : ∀ a ability, e.ability? a = some ability → ability.subscriptions ≠ []
  proper : e.Proper
  inStep : ∀ a, e.InStep a

/-- An ability is registered exactly while its card is at one of its locations. -/
theorem Upkept.isRegistered_iff (h : e.Upkept) (hability : e.ability? a = some ability) :
    e.registrar.isRegistered a ↔ e.inPlace a := by
  have hstep := h.inStep a
  unfold InStep at hstep
  by_cases hhere : e.inPlace a
  · rw [if_pos hhere] at hstep
    rcases hstep with hregistered | hnone
    · exact ⟨fun _ => hhere, fun _ => hregistered⟩
    · exact absurd (hnone ability hability) (h.listens a ability hability)
  · rw [if_neg hhere] at hstep
    rw [Registrar.isRegistered_iff]
    exact ⟨fun hsome => absurd (congrArg Entry.subscriptions hstep) hsome,
      fun hthere => absurd hthere hhere⟩

/-- An ability has a counter exactly while it is registered, if it has a limit. -/
theorem Upkept.isTracked_iff (h : e.Upkept) (hability : e.ability? a = some ability) :
    e.usage.isTracked a ↔ e.registrar.isRegistered a ∧ ability.limit.isSome := by
  have htracked : e.usage.isTracked a = (e.entry a).counter.isSome := rfl
  rw [htracked, Registrar.isRegistered_iff]
  show _ ↔ (e.entry a).subscriptions ≠ [] ∧ _
  rcases h.proper a with hempty | ⟨ability', hability', hwhole⟩
  · rw [hempty]
    simp [Entry.empty]
  · obtain rfl := Option.some.inj (hability.symm.trans hability')
    have hsome : (e.entry a).subscriptions ≠ [] := by
      intro hnil
      refine h.listens a ability hability ?_
      rw [← hwhole.subscriptions, hnil]
      rfl
    rw [← hwhole.limit, Option.isSome_map]
    exact ⟨fun hcounter => ⟨hsome, hcounter⟩, And.right⟩

/-- Where no card moves that an ability belongs to, whether it is in place does not change. -/
theorem inPlace_of_place? (habilities : e'.abilities = e.abilities)
    (hplace : ∀ ability, e.ability? a = some ability →
      e'.board.place? ability.source = e.board.place? ability.source) :
    e'.inPlace a = e.inPlace a := by
  unfold inPlace
  rw [ability?_congr habilities]
  cases hability : e.ability? a with
  | none => rfl
  | some ability => exact Board.cardIs_of_place? (hplace ability hability) ability.listensIn

/-- What changes neither abilities nor which cards there are. -/
theorem Upkept.of_stirs (h : e.Upkept) (hstirs : e.board.Stirs e'.board)
    (habilities : e'.abilities = e.abilities) (hproper : e'.Proper) (hsteps : ∀ a, e'.InStep a) :
    e'.Upkept where
  tidy := h.tidy.stirs hstirs
  sources a ability hability := by
    rw [ability?_congr habilities] at hability
    exact Board.card?_isSome_of_stirs hstirs (h.sources a ability hability)
  listens a ability hability := by
    rw [ability?_congr habilities] at hability
    exact h.listens a ability hability
  proper := hproper
  inStep := hsteps

theorem Upkept.of_tends (h : e.Upkept) (hproper : e'.Proper) (htends : e.Tends e') : e'.Upkept :=
  h.of_stirs htends.board.stirs htends.abilities hproper fun a => htends.inStep (h.inStep a)

theorem Upkept.of_relocates {c : CardId} (h : e.Upkept) (hproper : e'.Proper)
    (hrelocates : e.Relocates c e') : e'.Upkept := by
  refine h.of_stirs hrelocates.board.stirs hrelocates.abilities hproper fun a => ?_
  by_cases ha : a ∈ e.abilitiesOf c
  · exact hrelocates.inStep a ha
  · -- The card of any other ability stays where it is.
    have hplace : e'.inPlace a = e.inPlace a := by
      refine inPlace_of_place? hrelocates.abilities fun ability hability => ?_
      refine hrelocates.board.places ability.source fun hc => ha ?_
      exact mem_abilitiesOf.mpr ⟨ability, hability, (Option.some.inj hc).symm⟩
    have hentry := hrelocates.entries a
    rw [hplace] at hentry
    exact inStep_of_tends (ability?_congr hrelocates.abilities a) hplace hentry (h.inStep a)

/-- What changes only counts. -/
theorem Upkept.of_counts (h : e.Upkept) (hproper : e'.Proper) (hboard : e'.board = e.board)
    (habilities : e'.abilities = e.abilities)
    (hsubscriptions : ∀ a, (e'.entry a).subscriptions = (e.entry a).subscriptions)
    (hcounters : ∀ a, (e.entry a).counter = none → (e'.entry a).counter = none) : e'.Upkept := by
  refine h.of_stirs (hboard ▸ .refl) habilities hproper fun a => ?_
  have hplace : e'.inPlace a = e.inPlace a := by
    unfold inPlace
    rw [ability?_congr habilities, hboard]
  have hstep := h.inStep a
  have hof : e'.registrar.of a = e.registrar.of a := hsubscriptions a
  unfold InStep at hstep ⊢
  rw [hplace, ability?_congr habilities, Registrar.isRegistered_iff, hof]
  rw [Registrar.isRegistered_iff] at hstep
  split
  · rename_i hhere
    rwa [if_pos hhere] at hstep
  · rename_i haway
    rw [if_neg haway] at hstep
    have hcounter := hcounters a (by rw [hstep]; rfl)
    have hnil : (e'.entry a).subscriptions = [] := by
      rw [hsubscriptions, hstep]
      rfl
    exact congrArg₂ Entry.mk hnil hcounter

/-- Setting up the board leaves registrations in step. -/
theorem Upkept.of_setUp (h : e.Upkept) (hsetUp : e.board.SetUp e'.board)
    (hproper : e'.Proper) (hsame : e.SameEntries e') : e'.Upkept := by
  have hability := ability?_congr hsame.abilities
  have hplace : ∀ {a ability}, e.ability? a = some ability →
      e'.board.place? ability.source = e.board.place? ability.source := fun ha =>
    hsetUp.place? h.tidy (h.sources _ _ ha)
  refine ⟨h.tidy.setUp hsetUp, fun a ability ha => ?_, fun a ability ha => ?_, hproper, fun a => ?_⟩
  · rw [hability] at ha
    rw [Board.card?_isSome_of_place? (hplace ha)]
    exact h.sources a ability ha
  · rw [hability] at ha
    exact h.listens a ability ha
  · refine inStep_of_tends (hability a) (inPlace_of_place? hsame.abilities fun _ => hplace) ?_
      (h.inStep a)
    rw [hsame.entries]
    exact .keeps

/-- What is attached is registered if its card is at one of its locations. -/
theorem Upkept.of_attaches {c : CardId} {design : Design} {card : Card} {ability : Ability}
    (h : e.Upkept) (hproper : e'.Proper) (hattaches : e.Attaches c design card ability e') :
    e'.Upkept := by
  have hsource : ability.source = c :=
    (Design.source_of_build hattaches.built).trans (h.tidy.ids c card hattaches.found)
  refine ⟨hattaches.board ▸ h.tidy, fun a ability' ha => ?_, fun a ability' ha => ?_, hproper,
    fun a => ?_⟩
  · rw [hattaches.board]
    rw [hattaches.ability?] at ha
    split at ha
    · obtain rfl := Option.some.inj ha
      rw [hsource, hattaches.found]
      rfl
    · exact h.sources a ability' ha
  · rw [hattaches.ability?] at ha
    split at ha
    · obtain rfl := Option.some.inj ha
      exact Design.subscriptions_of_build hattaches.built
    · exact h.listens a ability' ha
  · rcases e.eq_next_or_ne a with rfl | ha
    · have hfound := hattaches.ability? ⟨e.abilities.length⟩
      rw [if_pos rfl] at hfound
      have hplace : e'.inPlace ⟨e.abilities.length⟩ = ability.listensIn card.location := by
        simp [Engine.inPlace, hfound, hattaches.board, Board.cardIs, hsource, hattaches.found]
      have hentry := hattaches.enters h.proper
      split at hentry
      · rename_i hlistens
        exact hentry.inStep hfound (hplace.trans hlistens)
      · rename_i haway
        unfold InStep
        rwa [hplace, if_neg haway]
    · have hability := hattaches.ability? a
      rw [if_neg ha] at hability
      have hplace : e'.inPlace a = e.inPlace a := by
        unfold inPlace
        rw [hability, hattaches.board]
      refine inStep_of_tends hability hplace ?_ (h.inStep a)
      rw [hattaches.others a ha]
      exact .keeps

end Engine

/-- Whether an order moves a card with no regard to its abilities, or registers an ability with no
regard to its card. -/
def Order.isByHand : Order → Bool
  | shift .. | register _ | unregister _ => true
  | _ => false

namespace Moment

variable {m : Moment} {d : Deed} {e e' : Engine} {a : AbilityId} {ability : Ability}
  {first second : String} {ghostRock : Nat}

/-- A deed gives no order to move cards or register abilities by hand. -/
def Orderly (m : Moment) (d : Deed) : Prop := ∀ o ∈ m.gives d, o.isByHand = false

instance (m : Moment) (d : Deed) : Decidable (m.Orderly d) :=
  inferInstanceAs (Decidable (∀ o ∈ m.gives d, o.isByHand = false))

/-- An ability is registered while its card is at one of the ability's locations, and has a counter
meanwhile if it has a limit. -/
structure Follows (m : Moment) (a : AbilityId) (ability : Ability) : Prop where
  registered : m.engine.registrar.isRegistered a ↔
    m.engine.board.cardIs ability.source fun card => ability.listensIn card.location
  tracked : m.engine.usage.isTracked a ↔
    m.engine.registrar.isRegistered a ∧ ability.limit.isSome

/-- By a deed before and after which its card is at the ability's locations an ability keeps its
subscriptions. If the card is moved from one location to another, or no event fires, the ability
keeps its counter, but for the use that the deed may count. -/
structure Retains (m : Moment) (d : Deed) (a : AbilityId) (card card' : Card) : Prop where
  subscriptions : (m.after d).engine.registrar.of a = m.engine.registrar.of a
  counter : card.location ≠ card'.location ∨ m.fires? d = none →
    (m.after d).engine.usage.counters.get? a =
      (m.countedBy (m.occurrence d)).usage.counters.get? a

/-! ## Every deed -/

theorem upkept_countedBy (h : m.engine.Upkept) (o : Option (ActivationId × Occurrence)) :
    (m.countedBy o).Upkept := by
  refine h.of_counts (proper_countedBy h.proper o) (m.board_countedBy o) (m.abilities_countedBy o)
    (fun a => (m.entry_countedBy o a).1) fun a hnone => ?_
  have hlimit := (m.entry_countedBy o a).2
  rw [hnone] at hlimit
  exact Option.map_eq_none_iff.mp hlimit

/-- What a deed does, if nothing by hand, leaves registrations in step. -/
theorem Alters.upkept (h : m.Alters d e e') (hupkept : e.Upkept)
    (hsetUp : ∀ f, d = .call (.board f) → e.board.SetUp (f e.board)) (horderly : m.Orderly d) :
    e'.Upkept := by
  have hproper := h.proper hupkept.proper
  cases h with
  | tends h => exact hupkept.of_tends hproper h
  | relocates c h => exact hupkept.of_relocates hproper h
  | refunds huntidy _ _ => exact absurd hupkept.tidy huntidy
  | shifts _ _ hgives _ _ | registers _ hgives _ _ _ | unregisters _ hgives _ _ =>
    exact absurd (horderly _ hgives) (by simp [Order.isByHand])
  | attaches c design card ability h => exact hupkept.of_attaches hproper h
  | hears event _ h =>
    refine hupkept.of_counts hproper h.board h.abilities (fun a => ?_) fun a hnone => ?_
    · rw [h.entries, Engine.Entry.hear_subscriptions]
    · rw [h.entries]
      unfold Engine.Entry.hear
      split
      · rw [hnone]
        rfl
      · exact hnone
  | sets f hd hboard h => exact hupkept.of_setUp (hboard ▸ hsetUp f hd) hproper h

theorem upkept_after (h : m.Sound) (hupkept : m.engine.Upkept) (hsetUp : m.SetsUp d)
    (horderly : m.Orderly d) : (m.after d).engine.Upkept := by
  refine (h.alters d).upkept (upkept_countedBy hupkept _) (fun f hd => ?_) horderly
  rw [board_countedBy]
  exact hsetUp f hd

theorem upkept_run (h : m.Sound) (hupkept : m.engine.Upkept) {ds : List Deed}
    (hsetUp : Along SetsUp m ds) (horderly : Along Orderly m ds) :
    (m.run ds).engine.Upkept := by
  induction ds generalizing m with
  | nil => exact hupkept
  | cons d ds ih =>
    exact ih (h.after d) (upkept_after h hupkept hsetUp.1 horderly.1) hsetUp.2 horderly.2

theorem upkept_start (first second : String) (ghostRock : Nat) :
    (start (.twoPlayer first second ghostRock)).engine.Upkept where
  tidy := Board.tidy_twoPlayer first second ghostRock
  sources a ability hability := by simp [start, Engine.new, Engine.ability?] at hability
  listens a ability hability := by simp [start, Engine.new, Engine.ability?] at hability
  proper := proper_start _
  inStep a := by
    have haway : (start (.twoPlayer first second ghostRock)).engine.inPlace a = false := rfl
    unfold Engine.InStep
    rw [haway, if_neg (by simp)]
    rfl

/-! ## Moves between locations of an ability -/

/-- What a deed does, if nothing by hand, keeps the entry of an ability whose card is in place
before and after, unless an event fires. -/
theorem Alters.entry_kept (h : m.Alters d e e') (hupkept : e.Upkept) (horderly : m.Orderly d)
    (hability : e.ability? a = some ability) (hhere : e.inPlace a) (hthere : e'.inPlace a) :
    e'.entry a = e.entry a ∨
      ∃ event, m.fires? d = some event ∧ e'.board = e.board ∧
        e'.entry a = (e.entry a).hear event.name := by
  have hsome : (e.entry a).subscriptions ≠ [] :=
    (Registrar.isRegistered_iff _ _).mp ((hupkept.isRegistered_iff hability).mpr hhere)
  cases h with
  | tends h => exact .inl ((hhere ▸ h.entries a).eq_of_here hsome)
  | relocates c h => exact .inl ((hthere ▸ h.entries a).eq_of_here hsome)
  | refunds huntidy _ _ => exact absurd hupkept.tidy huntidy
  | shifts _ _ hgives _ _ | registers _ hgives _ _ _ | unregisters _ hgives _ _ =>
    exact absurd (horderly _ hgives) (by simp [Order.isByHand])
  | attaches c design card ability' h =>
    have hlt := (List.getElem?_eq_some_iff.mp hability).1
    exact .inl (h.others a (Nat.ne_of_lt hlt))
  | hears event hfires h => exact .inr ⟨event, hfires, h.board, h.entries a⟩
  | sets f _ _ h => exact .inl (h.entries a)

theorem retains_of_upkept (h : m.Sound) (hupkept : m.engine.Upkept) (horderly : m.Orderly d)
    (hability : m.engine.ability? a = some ability) {card card' : Card}
    (hcard : m.engine.board.card? ability.source = some card)
    (hcard' : (m.after d).engine.board.card? ability.source = some card')
    (hlistens : ability.listensIn card.location) (hlistens' : ability.listensIn card'.location) :
    m.Retains d a card card' := by
  have habilityCounted : (m.countedBy (m.occurrence d)).ability? a = some ability :=
    (Engine.ability?_congr (m.abilities_countedBy _) a).trans hability
  have hhere : (m.countedBy (m.occurrence d)).inPlace a := by
    simp [Engine.inPlace, habilityCounted, board_countedBy, Board.cardIs, hcard, hlistens]
  have hthere : (m.after d).engine.inPlace a := by
    have hability' := (Moment.passage h d).ability? hability
    simp [Engine.inPlace, hability', Board.cardIs, hcard', hlistens']
  have hentry := (h.alters d).entry_kept (upkept_countedBy hupkept _) horderly habilityCounted
    hhere hthere
  have hcounted := (m.entry_countedBy (m.occurrence d) a).1
  constructor
  · show ((m.after d).engine.entry a).subscriptions = (m.engine.entry a).subscriptions
    rw [← hcounted]
    rcases hentry with hsame | ⟨event, -, -, hheard⟩
    · rw [hsame]
    · rw [hheard, Engine.Entry.hear_subscriptions]
  · intro hmoved
    rcases hentry with hsame | ⟨event, hfires, hboard, -⟩
    · exact congrArg Engine.Entry.counter hsame
    · -- No card moves when an event fires.
      rw [board_countedBy] at hboard
      rw [hboard, hcard] at hcard'
      obtain rfl := Option.some.inj hcard'
      rcases hmoved with hne | hnone
      · exact absurd rfl hne
      · rw [hfires] at hnone
        simp at hnone

/-! ## In every run -/

/-- At every moment of a game in which nobody moves cards or registers abilities by hand, whatever
fails, an ability is registered if and only if its card is at one of its locations, and it has a
counter if and only if it is registered and has a limit. If its card is at one of its locations
before and after a deed, its subscriptions and, where the card was moved, its counter are kept. -/
theorem registration_follows {ds : List Deed}
    (hsetUp : Along SetsUp (start (.twoPlayer first second ghostRock)) ds)
    (horderly : Along Orderly (start (.twoPlayer first second ghostRock)) ds)
    (hm : (start (.twoPlayer first second ghostRock)).run ds = m)
    (hability : m.engine.ability? a = some ability) :
    m.Follows a ability ∧
      ∀ d card card', m.Orderly d → m.engine.board.card? ability.source = some card →
        (m.after d).engine.board.card? ability.source = some card' →
        ability.listensIn card.location → ability.listensIn card'.location →
        m.Retains d a card card' := by
  have hsound : m.Sound := hm ▸ (sound_start _).run ds
  have hupkept : m.engine.Upkept := hm ▸
    upkept_run (sound_start _) (upkept_start first second ghostRock) hsetUp horderly
  refine ⟨⟨?_, hupkept.isTracked_iff hability⟩, fun d card card' hd hcard hcard' hl hl' =>
    retains_of_upkept hsound hupkept hd hability hcard hcard' hl hl'⟩
  rw [hupkept.isRegistered_iff hability]
  simp [Engine.inPlace, hability]

/-- A card in hand is given an ability that is set off by every round, in hand and in play, once a
round. The first round begins and the ability is used. -/
def usedInHand : List Deed :=
  [.call (.board fun b => ((Board.createCard ⟨0⟩ "A" .deed .hand).ends b).2),
    .call (.attach ⟨3⟩ {
      kind := .forced
      locations := [.hand, .playArea]
      limit := some ⟨1, .round⟩
      triggers := [(.beginRound, fun _ _ => true)]
      handler := some fun _ => .done }),
    .call (.order .beginRound), .turn, .go, .turn, .turn, .turn, .turn, .go]

/-- The card is played then, and its ability keeps the use that was counted. -/
theorem registration_follows_usedInHand :
    ∃ m ability card card', (start (.twoPlayer "Ann" "Bob" 0)).run usedInHand = m ∧
      Along SetsUp (start (.twoPlayer "Ann" "Bob" 0)) usedInHand ∧
      Along Orderly (start (.twoPlayer "Ann" "Bob" 0)) usedInHand ∧
      m.engine.ability? ⟨0⟩ = some ability ∧ m.Follows ⟨0⟩ ability ∧
      card.location = .hand ∧ card'.location = .playArea ∧
      m.Retains (.call (.order (.move ⟨3⟩ .playArea))) ⟨0⟩ card card' ∧
      (m.after (.call (.order (.move ⟨3⟩ .playArea)))).engine.usage.count? ⟨0⟩ = some 1 := by
  have hsetUp : Along SetsUp (start (.twoPlayer "Ann" "Bob" 0)) usedInHand := by
    refine ⟨?_, by rintro _ ⟨⟩, by rintro _ ⟨⟩, by rintro _ ⟨⟩, by rintro _ ⟨⟩, by rintro _ ⟨⟩,
      by rintro _ ⟨⟩, by rintro _ ⟨⟩, by rintro _ ⟨⟩, by rintro _ ⟨⟩, trivial⟩
    rintro _ ⟨⟩
    exact .created (by decide) "A" .deed .hand
  have horderly : Along Orderly (start (.twoPlayer "Ann" "Bob" 0)) usedInHand := by decide +kernel
  generalize hm : (start (.twoPlayer "Ann" "Bob" 0)).run usedInHand = m
  have hfound : (m.engine.ability? ⟨0⟩).map (fun ability => (ability.source, ability.locations)) =
      some (⟨3⟩, [.hand, .playArea]) := by
    rw [← hm]
    decide +kernel
  have hbefore : (m.engine.board.card? ⟨3⟩).map (·.location) = some .hand := by
    rw [← hm]
    decide +kernel
  have hthen : ((m.after (.call (.order (.move ⟨3⟩ .playArea)))).engine.board.card? ⟨3⟩).map
      (·.location) = some .playArea := by
    rw [← hm]
    decide +kernel
  have hcount : (m.after (.call (.order (.move ⟨3⟩ .playArea)))).engine.usage.count? ⟨0⟩ =
      some 1 := by
    rw [← hm]
    decide +kernel
  obtain ⟨ability, hability, heq⟩ := Option.map_eq_some_iff.mp hfound
  obtain ⟨hsource, hlocations⟩ := Prod.mk.inj heq
  obtain ⟨card, hcard, hlocation⟩ := Option.map_eq_some_iff.mp hbefore
  obtain ⟨card', hcard', hlocation'⟩ := Option.map_eq_some_iff.mp hthen
  obtain ⟨hfollows, hretains⟩ := registration_follows hsetUp horderly hm hability
  refine ⟨m, ability, card, card', rfl, hsetUp, horderly, hability, hfollows, hlocation,
    hlocation', ?_, hcount⟩
  refine hretains _ card card' ?_ (hsource ▸ hcard) (hsource ▸ hcard') ?_ ?_
  · rw [← hm]
    decide +kernel
  · rw [Ability.listensIn, hlocations, hlocation]
    decide
  · rw [Ability.listensIn, hlocations, hlocation']
    decide

end Moment

end Doomtown
