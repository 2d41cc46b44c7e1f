import Doomtown.Proofs.FollowUps
import Doomtown.Proofs.StrandedCards
import Mathlib.Algebra.Order.BigOperators.Group.Finset

/-!
# Uses that are left

A trigger with a limit can resolve so many times until its counter is reset (`Engine.usesLeft`).
What moves no card and touches no entry leaves that alone (`Engine.Leaves`), a resolution takes one
use away (`Engine.allLeft_counting`), and the discard of a played card adds none
(`Engine.Discards.usesLeft_le`): an ability that is registered with it has not been counted before.
The conclusion of an effect does these two things and queues what closes the activation
(`Engine.conclude_ends`).
-/

namespace Doomtown

open Play

/-! ## What is left -/

namespace Ability

variable {a : Ability} {s s' : Engine.Entry} {played : Bool}

/-- How often the ability can resolve in a period. -/
def uses (a : Ability) : Nat := a.limit.elim 0 (·.max)

/-- How often the ability can still resolve: as often as its counter says, or as often as its limit
says if it has no counter but may get one, its card being played. -/
def left (a : Ability) (s : Engine.Entry) (played : Bool) : Nat :=
  s.counter.elim (if played then a.uses else 0) (a.uses - ·.count)

theorem left_le (a : Ability) (s : Engine.Entry) (played : Bool) : a.left s played ≤ a.uses := by
  unfold left
  cases s.counter with
  | none => cases played <;> simp
  | some u => exact Nat.sub_le _ _

/-- What is registered anew once a card is not being played any more has not been counted before. -/
theorem left_of_tends {ability : Option Ability} {here : Bool}
    (h : Engine.Entry.Tends ability here s s') : a.left s' false ≤ a.left s true := by
  cases hcounter : s.counter with
  | none =>
    have hall : a.left s true = a.uses := by rw [left, hcounter]; rfl
    rw [hall]
    exact a.left_le s' false
  | some u =>
    cases h with
    | keeps => rw [left, left, hcounter]; exact Nat.le_refl _
    | @enters a' _ _ _ hnew =>
      -- A counter that is there already is kept.
      have hkept : s'.counter = some u := by
        rw [hnew.counter, hcounter]
        cases a'.limit <;> rfl
      rw [left, left, hkept, hcounter]
      exact Nat.le_refl _
    | leaves => exact Nat.zero_le _

end Ability

namespace Engine

variable {e e' e'' : Engine} {t : AbilityId} {a : Ability} {c : CardId}

/-- How often a trigger can resolve in a period. -/
def usesOf (e : Engine) (t : AbilityId) : Nat :=
  (e.ability? t).elim 0 fun a => if a.kind.isTriggered then a.uses else 0

/-- How often a trigger can still resolve before its counter is reset. -/
def usesLeft (e : Engine) (t : AbilityId) : Nat :=
  (e.ability? t).elim 0 fun a =>
    if a.kind.isTriggered then a.left (e.entry t) (e.board.isPlayed a.source) else 0

/-- All that can be counted of triggers in a period: the sum of their limits. -/
def allUses (e : Engine) : Nat := ∑ n ∈ Finset.range e.abilities.length, e.usesOf ⟨n⟩

/-- All that can still be counted of triggers before a counter is reset. -/
def allLeft (e : Engine) : Nat := ∑ n ∈ Finset.range e.abilities.length, e.usesLeft ⟨n⟩

/-- Two triggers of the same ability compare as what is left of them. -/
theorem usesLeft_le_of (hability : e'.ability? t = e.ability? t)
    (h : ∀ a, e.ability? t = some a → a.left (e'.entry t) (e'.board.isPlayed a.source) ≤
      a.left (e.entry t) (e.board.isPlayed a.source)) : e'.usesLeft t ≤ e.usesLeft t := by
  unfold usesLeft
  rw [hability]
  cases hfound : e.ability? t with
  | none => exact Nat.le_refl 0
  | some a =>
    dsimp only [Option.elim_some]
    split
    · exact h a hfound
    · exact Nat.le_refl 0

theorem usesLeft_le (e : Engine) (t : AbilityId) : e.usesLeft t ≤ e.usesOf t := by
  unfold usesLeft usesOf
  cases e.ability? t with
  | none => exact Nat.le_refl 0
  | some a =>
    dsimp only [Option.elim_some]
    split
    · exact a.left_le _ _
    · exact Nat.le_refl 0

theorem allLeft_le (e : Engine) : e.allLeft ≤ e.allUses :=
  Finset.sum_le_sum fun n _ => e.usesLeft_le ⟨n⟩

/-- Where each ability has as many uses left at most, all of them together have. -/
theorem allLeft_mono (habilities : e'.abilities = e.abilities)
    (h : ∀ t, e'.usesLeft t ≤ e.usesLeft t) : e'.allLeft ≤ e.allLeft := by
  unfold allLeft
  rw [habilities]
  exact Finset.sum_le_sum fun n _ => h ⟨n⟩

/-! ## What is left alone -/

/-- No ability is attached, no entry is touched and no card is moved. -/
structure Leaves (e e' : Engine) : Prop where
  abilities : e'.abilities = e.abilities
  entries : ∀ t, e'.entry t = e.entry t
  places : ∀ c, e'.board.place? c = e.board.place? c

theorem Leaves.refl (e : Engine) : e.Leaves e := ⟨rfl, fun _ => rfl, fun _ => rfl⟩

theorem Leaves.trans (h : e.Leaves e') (h' : e'.Leaves e'') : e.Leaves e'' :=
  ⟨h'.abilities.trans h.abilities, fun t => (h'.entries t).trans (h.entries t),
    fun c => (h'.places c).trans (h.places c)⟩

/-- What changes neither the board nor abilities nor registrations. -/
theorem leaves_of_eq (hboard : e'.board = e.board) (habilities : e'.abilities = e.abilities)
    (hregistrar : e'.registrar = e.registrar) (husage : e'.usage = e.usage) : e.Leaves e' :=
  ⟨habilities, fun _ => by rw [entry, hregistrar, husage, entry], fun _ => by rw [hboard]⟩

/-- A change of the board that moves nothing. -/
theorem leaves_board {b : Board} (h : e.board.Rests b) : e.Leaves { e with board := b } :=
  ⟨rfl, fun _ => rfl, fun c => h.places c (by simp)⟩

theorem Leaves.ability? (h : e.Leaves e') (t : AbilityId) : e'.ability? t = e.ability? t :=
  ability?_congr h.abilities t

theorem Leaves.usesLeft (h : e.Leaves e') (t : AbilityId) : e'.usesLeft t = e.usesLeft t := by
  have hplayed : ∀ c, e'.board.isPlayed c = e.board.isPlayed c := fun c =>
    Board.isPlayed_of_place? (h.places c)
  unfold Engine.usesLeft
  simp only [h.ability?, h.entries, hplayed]

theorem Leaves.allLeft (h : e.Leaves e') : e'.allLeft = e.allLeft := by
  unfold Engine.allLeft
  rw [h.abilities]
  exact Finset.sum_congr rfl fun n _ => h.usesLeft ⟨n⟩

/-! ## A use that is counted -/

/-- The engine once a use of an ability is counted. -/
def counting (e : Engine) (t : AbilityId) : Engine := { e with usage := e.usage.increment t }

theorem counter_counting (e : Engine) (t t' : AbilityId) : ((e.counting t).entry t').counter =
    if t = t' then (e.entry t').counter.map (·.increment) else (e.entry t').counter :=
  IdMap.get?_modify _ _ _ _

theorem usesLeft_counting_le (e : Engine) (t t' : AbilityId) :
    (e.counting t).usesLeft t' ≤ e.usesLeft t' := by
  refine usesLeft_le_of rfl fun a _ => ?_
  unfold Ability.left
  rw [counter_counting]
  split
  · cases (e.entry t').counter with
    | none => exact Nat.le_refl _
    | some u => exact Nat.sub_le_sub_left (Nat.le_succ u.count) a.uses
  · exact Nat.le_refl _

/-- The counter of a trigger has a use left. -/
def HasLeft (e : Engine) (t : AbilityId) : Prop :=
  ∃ a u, e.ability? t = some a ∧ a.kind.isTriggered ∧ (e.entry t).counter = some u ∧
    u.count < a.uses

theorem HasLeft.leaves (h : e.HasLeft t) (hleaves : e.Leaves e') : e'.HasLeft t := by
  obtain ⟨a, u, hability, htriggered, hcounter, hleft⟩ := h
  refine ⟨a, u, (hleaves.ability? t).trans hability, htriggered, ?_, hleft⟩
  rw [hleaves.entries]
  exact hcounter

/-- A use that is counted while one is left is taken from what is left. -/
theorem allLeft_counting (h : e.HasLeft t) : (e.counting t).allLeft < e.allLeft := by
  obtain ⟨a, u, hability, htriggered, hcounter, hleft⟩ := h
  have hlt : (e.counting t).usesLeft t < e.usesLeft t := by
    have hability' : (e.counting t).ability? t = some a := hability
    unfold usesLeft Ability.left
    rw [hability', hability, counter_counting, if_pos rfl, hcounter]
    simp only [Option.elim_some, Option.map_some, htriggered, if_true, AbilityUsage.increment]
    omega
  refine Finset.sum_lt_sum (fun n _ => usesLeft_counting_le e t ⟨n⟩) ⟨t.number, ?_, hlt⟩
  exact Finset.mem_range.mpr (List.getElem?_eq_some_iff.mp hability).1

/-! ## The discard of a played card -/

/-- A card that was being played is discarded, the entries of its abilities are brought in step with
that, and no other card or entry is touched. -/
structure Discards (c : CardId) (e e' : Engine) : Prop where
  abilities : e'.abilities = e.abilities
  others : ∀ t a, e.ability? t = some a → a.source ≠ c → e'.entry t = e.entry t
  entries : ∀ t, (e.entry t).Tends (e.ability? t) (e'.inPlace t) (e'.entry t)
  places : ∀ c', c' ≠ c → e'.board.place? c' = e.board.place? c'
  moved : ∃ id owner, e.board.place? c = some (id, owner, .beingPlayed) ∧
    e'.board.place? c = some (id, owner, .discardPile)

theorem Discards.ability? (h : e.Discards c e') (t : AbilityId) : e'.ability? t = e.ability? t :=
  ability?_congr h.abilities t

theorem Discards.played (h : e.Discards c e') : e.board.isPlayed c := by
  obtain ⟨id, owner, hplace, -⟩ := h.moved
  obtain ⟨card, hcard, heq⟩ := Option.map_eq_some_iff.mp hplace
  obtain ⟨-, hlocation⟩ := Prod.mk.inj (Prod.mk.inj heq).2
  simp [Board.isPlayed, Board.cardIs, hcard, hlocation]

theorem Discards.discarded (h : e.Discards c e') :
    e'.board.cardIs c (·.location = .discardPile) := by
  obtain ⟨id, owner, -, hplace⟩ := h.moved
  obtain ⟨card, hcard, heq⟩ := Option.map_eq_some_iff.mp hplace
  obtain ⟨-, hlocation⟩ := Prod.mk.inj (Prod.mk.inj heq).2
  simp [Board.cardIs, hcard, hlocation]

theorem Discards.not_isPlayed (h : e.Discards c e') : e'.board.isPlayed c = false := by
  obtain ⟨card, hcard, hlocation⟩ := (Option.any_eq_true _ _).mp h.discarded
  simp [Board.isPlayed, Board.cardIs, hcard, of_decide_eq_true hlocation]

theorem Leaves.discards (h : e.Leaves e') (h' : e'.Discards c e'') : e.Discards c e'' where
  abilities := h'.abilities.trans h.abilities
  others t a hability hsource :=
    (h'.others t a (by rwa [h.ability?]) hsource).trans (h.entries t)
  entries t := by
    have hentry := h'.entries t
    rwa [h.entries, h.ability?] at hentry
  places c' hc := (h'.places c' hc).trans (h.places c')
  moved := by
    rw [← h.places c]
    exact h'.moved

theorem Discards.leaves (h : e.Discards c e') (h' : e'.Leaves e'') : e.Discards c e'' where
  abilities := h'.abilities.trans h.abilities
  others t a hability hsource := (h'.entries t).trans (h.others t a hability hsource)
  entries t := by
    rw [h'.entries, inPlace_of_rests h'.places h'.abilities]
    exact h.entries t
  places c' hc := (h'.places c').trans (h.places c' hc)
  moved := by
    rw [h'.places c]
    exact h.moved

/-- A discard adds no uses. -/
theorem Discards.usesLeft_le (h : e.Discards c e') (t : AbilityId) :
    e'.usesLeft t ≤ e.usesLeft t := by
  refine usesLeft_le_of (h.ability? t) fun a hability => ?_
  by_cases hsource : a.source = c
  · rw [hsource, h.not_isPlayed, h.played]
    exact Ability.left_of_tends (h.entries t)
  · rw [h.others t a hability hsource, Board.isPlayed_of_place? (h.places _ hsource)]

/-- A card that was being played is discarded, or cards and entries are left alone. -/
def MayDiscard (c : CardId) (e e' : Engine) : Prop := e.Leaves e' ∨ e.Discards c e'

theorem MayDiscard.abilities (h : e.MayDiscard c e') : e'.abilities = e.abilities :=
  h.elim (fun hleaves => hleaves.abilities) fun hdiscards => hdiscards.abilities

theorem MayDiscard.allLeft_le (h : e.MayDiscard c e') : e'.allLeft ≤ e.allLeft :=
  h.elim (fun hleaves => Nat.le_of_eq hleaves.allLeft) fun hdiscards =>
    allLeft_mono hdiscards.abilities hdiscards.usesLeft_le

/-! ### How a discard goes -/

/-- Abilities stay, and only entries of some are touched. -/
structure TouchesOnly (l : List AbilityId) (e e' : Engine) : Prop where
  abilities : e'.abilities = e.abilities
  others : ∀ t, t ∉ l → e'.entry t = e.entry t

theorem touchesOnly_of_chain {l : List AbilityId}
    (h : Relation.ReflTransGen (TouchesOnly l) e e') : e.TouchesOnly l e' :=
  link_of_chain (fun _ => ⟨rfl, fun _ _ => rfl⟩) (fun h h' =>
    ⟨h'.abilities.trans h.abilities, fun t ht => (h'.others t ht).trans (h.others t ht)⟩) h

theorem Touches.only {l : List AbilityId} (h : e.Touches t e') (ht : t ∈ l) :
    e.TouchesOnly l e' :=
  ⟨h.abilities, fun t' ht' => h.others t' fun heq => ht' (heq ▸ ht)⟩

theorem touchesOnly_register {l : List AbilityId} (ht : t ∈ l) :
    (register t).Chains (TouchesOnly l) := by
  refine .single fun e => ?_
  cases hability : e.ability? t with
  | none =>
    have hstays : ((register t).ends e).2 = e := by
      unfold register
      rw [ends_bind_ok (ends_look e)]
      split
      · rfl
      · rw [ends_bind_error (getAbility_missing hability)]
    rw [hstays]
    exact ⟨rfl, fun _ _ => rfl⟩
  | some ability =>
    obtain ⟨e', hends, htouches, -⟩ := register_touches hability
    rw [hends]
    exact htouches.only ht

theorem touchesOnly_unregister {l : List AbilityId} (ht : t ∈ l) :
    (unregister t).Chains (TouchesOnly l) := by
  refine .single fun e => ?_
  obtain ⟨e', hends, htouches, -⟩ := unregister_touches t e
  rw [hends]
  exact htouches.only ht

/-- To refresh abilities touches no entries but theirs. -/
theorem touchesOnly_refreshEach {l : List AbilityId} (location : Location) :
    ∀ l' : List AbilityId, l' ⊆ l → (refreshEach location l').Chains (TouchesOnly l)
  | [], _ => .answer _
  | t :: rest, hsub => by
    have ht : t ∈ l := hsub List.mem_cons_self
    have hrest := touchesOnly_refreshEach location rest fun t' ht' =>
      hsub (List.mem_cons_of_mem t ht')
    exact .bind (chains_getAbility t) fun _ => .ite (.bind (touchesOnly_register ht) fun _ => hrest)
      (.bind (touchesOnly_unregister ht) fun _ => hrest)

/-- To refresh a card that exists succeeds, brings the entries of its abilities in step with where
it is, and touches no others. -/
theorem refresh_ends {card : Card} (hcard : e.board.card? c = some card) :
    ∃ e', (refresh c).ends e = (.ok (), e') ∧ e'.queue = e.queue ∧ e.Tends e' ∧
      ∀ t a, e.ability? t = some a → a.source ≠ c → e'.entry t = e.entry t := by
  obtain ⟨r, e', hends, htends, hfound⟩ := refresh_tends c e
  obtain ⟨rfl, -⟩ := hfound (by rw [hcard]; rfl)
  have hqueue := stays_of_chain (stays_refresh c e)
  have heach : (refresh c).ends e = (refreshEach card.location (e.abilitiesOf c)).ends e := by
    have hget := getCard_ends c e
    rw [hcard] at hget
    unfold refresh
    rw [ends_bind_ok hget, ends_bind_ok (ends_look e)]
  have honly := touchesOnly_of_chain
    (touchesOnly_refreshEach card.location (e.abilitiesOf c) (List.Subset.refl _) e)
  rw [hends] at hqueue
  rw [← heach, hends] at honly
  refine ⟨e', hends, hqueue, htends, fun t a hability hsource => honly.others t fun ht => ?_⟩
  obtain ⟨a', hability', hsource'⟩ := mem_abilitiesOf.mp ht
  obtain rfl := Option.some.inj (hability.symm.trans hability')
  exact hsource hsource'

/-- How the discard of a played card ends. -/
inductive DiscardEnds (c : CardId) (e : Engine) : Except RulesError Unit × Engine → Prop where
  | idle (hnot : isBeingPlayed e.board c = false) : DiscardEnds c e (.ok (), e)
  /-- It is not listed where it is. -/
  | stuck {card : Card} (hplayed : isBeingPlayed e.board c) (hcard : e.board.card? c = some card)
      (hunlisted : e.board.lists c card = false) :
    DiscardEnds c e (.error (.refused (.notListed c .beingPlayed)), e)
  | discards {e' : Engine} (h : e.Discards c e') (hqueue : e'.queue = e.queue) :
    DiscardEnds c e (.ok (), e')

theorem discardPlayed_ends (c : CardId) (e : Engine) :
    e.DiscardEnds c ((discardPlayed c).ends e) := by
  unfold discardPlayed
  rw [ends_bind_ok (ends_look e)]
  by_cases hplayed : isBeingPlayed e.board c
  · rw [if_pos hplayed, ends_discard]
    obtain ⟨card, hcard, htest⟩ := (Option.any_eq_true _ _).mp hplayed
    have horigin : card.location = .beingPlayed :=
      of_decide_eq_true ((Bool.and_eq_true _ _).mp htest).2
    unfold moveCard
    cases hlists : e.board.lists c card with
    | false =>
      have hmove : (onBoard (Board.moveCard c .discardPile)).ends e =
          (.error (.refused (.notListed c .beingPlayed)), e) := by
        rw [onBoard, ends_within, Board.moveCard_unlisted hcard hlists, horigin]
      rw [ends_bind_error hmove]
      exact .stuck hplayed hcard hlists
    | true =>
      let e₁ : Engine := { e with board := e.board.moved c card .discardPile }
      have hmove : (onBoard (Board.moveCard c .discardPile)).ends e = (.ok card.location, e₁) := by
        rw [onBoard, ends_within, Board.moveCard_ends hcard hlists]
      have hcard₁ : e₁.board.card? c = some (Board.arrived card card.location .discardPile) :=
        Board.card?_moved hcard
      have hmoves : e.board.Moves (some c) e₁.board := Board.moves_moved hcard hlists .discardPile
      obtain ⟨e', hends, hqueue, htends, hothers⟩ := refresh_ends hcard₁
      -- The card was not in play, so its discard raises no event.
      have hafter : (afterMove c card.location .discardPile).ends e₁ = (.ok false, e') := by
        rw [horigin]
        unfold afterMove
        rw [ends_bind_ok hends]
        rfl
      rw [ends_bind_ok hmove, hafter]
      refine .discards ⟨htends.abilities, hothers, fun t => ?_, fun c' hc => ?_,
        card.id, card.owner, ?_, ?_⟩ hqueue
      · rw [htends.inPlace]
        exact htends.entries t
      · rw [htends.board.places c' (by simp)]
        exact hmoves.places c' fun heq => hc (Option.some.inj heq).symm
      · simp [Board.place?, hcard, horigin]
      · rw [htends.board.places c (by simp)]
        simp [Board.place?, hcard₁, Board.arrived]
  · rw [if_neg hplayed]
    exact .idle (by simpa using hplayed)

/-! ## The conclusion of an effect -/

variable {x : ActivationId} {activation : Activation}

/-- What is queued when an effect is concluded: the event that the activation has resolved, and its
end. -/
def closing (a : Ability) (x : ActivationId) (activation : Activation) (timestamp : Nat) :
    List StepKind :=
  [.event ⟨timestamp, .abilityResolved activation.ability a.source activation.player⟩ (.emitted x),
    .complete x]

/-- How the conclusion of an effect ends: the use is counted in any case. -/
inductive ConcludeEnds (a : Ability) (x : ActivationId) (activation : Activation) (e : Engine) :
    Except RulesError Unit × Engine → Prop where
  | closes {e' : Engine} {timestamp : Nat}
      (h : (e.counting activation.ability).MayDiscard a.source e')
      (hqueue : e'.queue = e.queue.pushAll (closing a x activation timestamp)) :
    ConcludeEnds a x activation e (.ok (), e')
  | stuck {e' : Engine} {card : Card} (h : (e.counting activation.ability).Leaves e')
      (hplayed : isBeingPlayed e'.board a.source) (hcard : e'.board.card? a.source = some card)
      (hunlisted : e'.board.lists a.source card = false) :
    ConcludeEnds a x activation e (.error (.refused (.notListed a.source .beingPlayed)), e')

theorem noteHeadline_leaves (e : Engine) (c : CardId) :
    ∃ e', (noteHeadline c).ends e = (.ok (), e') ∧ e'.queue = e.queue ∧ e.Leaves e' := by
  unfold noteHeadline
  rw [ends_bind_ok (ends_look e)]
  split
  · exact ⟨_, rfl, rfl, leaves_board (Board.rests_of_cards_eq rfl rfl rfl rfl rfl rfl)⟩
  · exact ⟨e, rfl, rfl, .refl e⟩

/-- To queue what closes an activation leaves cards and entries alone. -/
theorem close_leaves (e : Engine) (a : Ability) (x : ActivationId) (activation : Activation) :
    ∃ e' timestamp, (do
        raise (.abilityResolved activation.ability a.source activation.player) (.emitted x)
        discard (post (.complete x)) : Play Engine Unit).ends e = (.ok (), e') ∧
      e'.queue = e.queue.pushAll (closing a x activation timestamp) ∧ e.Leaves e' := by
  refine ⟨_, e.board.clock + 1, rfl, rfl, ?_⟩
  exact (leaves_board (b := { e.board with clock := e.board.clock + 1 })
    (Board.rests_of_cards_eq rfl rfl rfl rfl rfl rfl)).trans (leaves_of_eq rfl rfl rfl rfl)

theorem conclude_ends (e : Engine) (a : Ability) (x : ActivationId) (activation : Activation) :
    e.ConcludeEnds a x activation ((conclude a x activation).ends e) := by
  let e₀ := e.counting activation.ability
  obtain ⟨e₁, hheadline, hqueue₁, hleaves₁⟩ := noteHeadline_leaves e₀ a.source
  let e₂ : Engine := { e₁ with
    activations := e₁.activations.modify x ({ · with stage := .executed }) }
  have hleaves₂ : e₀.Leaves e₂ := hleaves₁.trans (leaves_of_eq rfl rfl rfl rfl)
  have hends : (conclude a x activation).ends e = (do
      discardPlayed a.source
      raise (.abilityResolved activation.ability a.source activation.player) (.emitted x)
      discard (post (.complete x)) : Play Engine Unit).ends e₂ := by
    unfold conclude
    exact (ends_bind_ok (ends_change _ e) _).trans (ends_bind_ok hheadline _)
  have hqueue₂ : e₂.queue = e.queue := hqueue₁
  have hdiscards := discardPlayed_ends a.source e₂
  rw [hends, ends_bind]
  generalize (discardPlayed a.source).ends e₂ = ending at hdiscards ⊢
  cases hdiscards with
  | idle =>
    obtain ⟨e', timestamp, hclosed, hqueue, hleaves⟩ := close_leaves e₂ a x activation
    dsimp only
    rw [hclosed]
    exact .closes (.inl (hleaves₂.trans hleaves)) (hqueue₂ ▸ hqueue)
  | stuck hplayed hcard hunlisted => exact .stuck hleaves₂ hplayed hcard hunlisted
  | @discards e₃ hdiscarded hqueue₃ =>
    obtain ⟨e', timestamp, hclosed, hqueue, hleaves⟩ := close_leaves e₃ a x activation
    dsimp only
    rw [hclosed]
    exact .closes (.inr ((hleaves₂.discards hdiscarded).leaves hleaves))
      (hqueue₂ ▸ hqueue₃ ▸ hqueue)

end Engine

end Doomtown
