import Doomtown.Proofs.Alteration
import Doomtown.Proofs.CardTypes
import Doomtown.Proofs.Sources
import Doomtown.Proofs.TakeBack

/-!
# What can still be retracted

The activations of an ability that can be retracted are its stack (`Engine.stack`). Players put an
activation on it when they start an action and take the last one off when they retract it. Nothing
else adds to a stack. What drops one drops it as a whole: the end of the ability's registration,
which happens while its card is at none of its locations, a call that says so, and the event on
which the ability listens for it.

`Engine.Sheds` says of a play that it drops stacks in the first way only, that it offers nothing
and leaves cards of their types. All plays do so but those named above and those that work on
windows: steps (`Engine.sheds_runStep`), orders (`Engine.sheds_order`) and the end of a script
(`Engine.sheds_conclude`). The others have their own lemmas, `Engine.activate_activates`,
`Engine.unregister_ends`, `Engine.answerOffer_ends`, `Engine.openWindow_clears` and
`Engine.addAbility_enrolls`.
-/

namespace Doomtown

open Play

/-- Whether a step offers abilities: a trigger window, or the question whether one shall be used. -/
def StepKind.offers : StepKind → Bool
  | .window _ | .prompt ⟨_, _, .offer _ _⟩ => true
  | _ => false

/-- Whether an order works on what can be retracted itself. -/
def Order.handlesStack : Order → Bool
  | .activate .. | .retract .. | .unregister _ => true
  | _ => false

namespace Engine

variable {e e' e'' : Engine} {a : AbilityId} {x : ActivationId}

/-! ## Stacks -/

/-- The activations of an ability that can be retracted, latest last. -/
def stack (e : Engine) (a : AbilityId) : List ActivationId :=
  (e.retractable.filter (·.1 = a)).map (·.2)

theorem latestRetractable?_eq (e : Engine) (a : AbilityId) :
    e.latestRetractable? a = (e.stack a).getLast? := by
  unfold latestRetractable? stack
  rw [List.getLast?_map]

/-- The latest activation of an ability is the last of its stack. -/
theorem stack_of_latest (h : e.latestRetractable? a = some x) :
    ∃ front, e.stack a = front ++ [x] :=
  List.getLast?_eq_some_iff.mp ((e.latestRetractable?_eq a).symm.trans h)

theorem mem_stack_of_latest (h : e.latestRetractable? a = some x) : x ∈ e.stack a := by
  obtain ⟨front, hfront⟩ := stack_of_latest h
  rw [hfront]
  exact List.mem_append_right _ List.mem_cons_self

theorem mem_stack_iff : x ∈ e.stack a ↔ (a, x) ∈ e.retractable := by
  unfold stack
  rw [List.mem_map]
  constructor
  · rintro ⟨⟨a', x'⟩, ht, rfl⟩
    obtain ⟨hmem, ha⟩ := List.mem_filter.mp ht
    obtain rfl : a' = a := of_decide_eq_true ha
    exact hmem
  · exact fun h => ⟨(a, x), List.mem_filter.mpr ⟨h, by simp⟩, rfl⟩

theorem stack_congr (h : e'.retractable = e.retractable) (a : AbilityId) :
    e'.stack a = e.stack a := by
  unfold stack
  rw [h]

/-- To drop the entries of an ability is to drop its stack and no other. -/
theorem stack_without (h : e'.retractable = e.retractable.filter (·.1 ≠ a)) (a' : AbilityId) :
    e'.stack a' = if a' = a then [] else e.stack a' := by
  unfold stack
  rw [h, List.filter_filter]
  split
  · rename_i ha
    subst ha
    rw [List.map_eq_nil_iff, List.filter_eq_nil_iff]
    simp
  · rename_i ha
    refine congrArg _ (List.filter_congr fun t _ => ?_)
    by_cases ht : t.1 = a'
    · simp [ht, ha]
    · simp [ht]

theorem stack_append (h : e'.retractable = e.retractable ++ [(a, x)]) (a' : AbilityId) :
    e'.stack a' = if a' = a then e.stack a' ++ [x] else e.stack a' := by
  unfold stack
  rw [h, List.filter_append, List.map_append]
  split
  · rename_i ha
    simp [ha]
  · rename_i ha
    simp [Ne.symm ha]

/-- To erase the first entry of an ability is to take the first of its entries, and no other. -/
theorem filter_eraseFirst (l : List (AbilityId × ActivationId)) (a a' : AbilityId) :
    (l.eraseP (·.1 = a)).filter (·.1 = a') =
      if a' = a then (l.filter (·.1 = a')).tail else l.filter (·.1 = a') := by
  induction l with
  | nil => simp
  | cons t rest ih =>
    by_cases ht : t.1 = a
    · -- Here it is erased, and the rest stays.
      rw [List.eraseP_cons_of_pos (by simpa using ht)]
      by_cases ha : a' = a
      · simp [ha, ht]
      · simp [ha, ht, Ne.symm ha]
    · rw [List.eraseP_cons_of_neg (by simpa using ht), List.filter_cons, List.filter_cons, ih]
      by_cases ha : a' = a
      · simp [ha, ht]
      · simp [ha]

/-- With the last entry of an ability the last activation is taken off its stack. -/
theorem stack_dropLatest (h : e'.retractable = dropLatest a e.retractable) (a' : AbilityId) :
    e'.stack a' = if a' = a then (e.stack a').dropLast else e.stack a' := by
  unfold stack
  -- The latest entry is found from behind.
  rw [h, dropLatest, List.filter_reverse, filter_eraseFirst, List.filter_reverse]
  split
  · rw [List.tail_reverse, List.reverse_reverse, List.map_dropLast]
  · rw [List.reverse_reverse]

/-! ## Plays that shed -/

/-- Cards keep their types, nothing is offered, filed, forgotten or retracted, and stacks are left
alone, their abilities registered as before, or they are dropped because their cards are in place no
more. -/
structure Sheds (e e' : Engine) : Prop where
  types : e.board.SameTypes e'.board
  abilities : e'.abilities = e.abilities
  offers : ∀ s ∈ e'.queue.order, s.kind.offers → s ∈ e.queue.order
  filed : ∀ x,
    (e'.activations.get? x).map (·.deactivated) = (e.activations.get? x).map (·.deactivated)
  eachStack : ∀ a,
    e'.stack a = e.stack a ∧ (e.registrar.isRegistered a → e'.registrar.isRegistered a) ∨
      e'.stack a = [] ∧ e'.inPlace a = false

/-- Stacks are shed and no card is moved. -/
structure Trims (e e' : Engine) : Prop extends e.Sheds e' where
  board : e.board.Rests e'.board

theorem Trims.inPlace (h : e.Trims e') (a : AbilityId) : e'.inPlace a = e.inPlace a :=
  inPlace_of_rests (fun c => h.board.places c (by simp)) h.abilities a

/-- What is shed before nothing is moved any more stays shed. -/
theorem Sheds.trims (h : e.Sheds e') (h' : e'.Trims e'') : e.Sheds e'' where
  types := h.types.trans h'.types
  abilities := h'.abilities.trans h.abilities
  offers s hs hw := h.offers s (h'.offers s hs hw) hw
  filed x := (h'.filed x).trans (h.filed x)
  eachStack a := by
    rcases h'.eachStack a with ⟨hsame', hkept'⟩ | hdropped
    · rcases h.eachStack a with ⟨hsame, hkept⟩ | ⟨hnil, haway⟩
      · exact .inl ⟨hsame'.trans hsame, fun hr => hkept' (hkept hr)⟩
      -- What was dropped before was dropped for its place, and nothing is moved since.
      · exact .inr ⟨hsame'.trans hnil, (h'.inPlace a).trans haway⟩
    · exact .inr hdropped

theorem Trims.trans (h : e.Trims e') (h' : e'.Trims e'') : e.Trims e'' :=
  { h.toSheds.trims h' with board := h.board.trans h'.board }

/-- What changes neither cards nor stacks sheds nothing. -/
theorem trims_of_eq (hboard : e'.board = e.board) (habilities : e'.abilities = e.abilities)
    (hregistrar : e'.registrar = e.registrar) (hretractable : e'.retractable = e.retractable)
    (hactivations : e'.activations = e.activations)
    (hqueue : ∀ s ∈ e'.queue.order, s.kind.offers → s ∈ e.queue.order) : e.Trims e' where
  types := hboard ▸ .refl _
  abilities := habilities
  offers := hqueue
  filed _ := by rw [hactivations]
  eachStack a := .inl ⟨stack_congr hretractable a, fun hr => hregistrar ▸ hr⟩
  board := hboard ▸ .refl none _

theorem Trims.refl (e : Engine) : e.Trims e := trims_of_eq rfl rfl rfl rfl rfl fun _ hs _ => hs

theorem trims_of_chain (h : Relation.ReflTransGen Trims e e') : e.Trims e' :=
  Play.link_of_chain .refl .trans h

/-- A change of the board that keeps cards of their types sheds nothing. -/
theorem sheds_board {b : Board} (h : e.board.SameTypes b) : e.Sheds { e with board := b } where
  types := h
  abilities := rfl
  offers _ hs _ := hs
  filed _ := rfl
  eachStack _ := .inl ⟨rfl, id⟩

/-- Before a play nothing was shed. -/
theorem Sheds.after (htypes : e.board.SameTypes e'.board) (habilities : e'.abilities = e.abilities)
    (hregistrar : e'.registrar = e.registrar) (hretractable : e'.retractable = e.retractable)
    (hfiled : ∀ x,
      (e'.activations.get? x).map (·.deactivated) = (e.activations.get? x).map (·.deactivated))
    (hqueue : ∀ s ∈ e'.queue.order, s.kind.offers → s ∈ e.queue.order) (h : e'.Sheds e'') :
    e.Sheds e'' where
  types := htypes.trans h.types
  abilities := h.abilities.trans habilities
  offers s hs hw := hqueue s (h.offers s hs hw) hw
  filed x := (h.filed x).trans (hfiled x)
  eachStack a := by
    rcases h.eachStack a with ⟨hsame, hkept⟩ | hdropped
    · exact .inl ⟨hsame.trans (stack_congr hretractable a), fun hr => hkept (hregistrar ▸ hr)⟩
    · exact .inr hdropped

/-! ### Elementary plays -/

theorem trims_onBoard {α : Type} {p : Play Board α} (hrests : p.Chains Board.Rests)
    (htypes : p.Chains Board.SameTypes) : (onBoard p).Chains Trims :=
  .single fun e => { sheds_board (Board.sameTypes_of_chain (htypes e.board)) with
    board := Board.moves_of_chain (hrests e.board) }

theorem sheds_onBoard {α : Type} {p : Play Board α} (htypes : p.Chains Board.SameTypes)
    (e : Engine) : e.Sheds ((onBoard p).ends e).2 :=
  sheds_board (Board.sameTypes_of_chain (htypes e.board))

theorem trims_post {kind : StepKind} (h : kind.offers = false) : (post kind).Chains Trims := by
  refine .bind (.view _) fun _ => .bind (.change fun e => ?_) fun _ => .answer _
  refine trims_of_eq rfl rfl rfl rfl rfl fun s hs hw => ?_
  rcases StepQueue.mem_order_push.mp hs with hs | rfl
  · exact hs
  · simp [h] at hw

/-- A change of a record that retracts nothing. -/
theorem get?_modify_deactivated {f : Activation → Activation}
    (hf : ∀ activation, (f activation).deactivated = activation.deactivated)
    (activations : IdMap .activation Activation) (x y : ActivationId) :
    ((activations.modify x f).get? y).map (·.deactivated) =
      (activations.get? y).map (·.deactivated) := by
  rw [IdMap.get?_modify]
  split
  · rw [Option.map_map]
    exact Option.map_congr fun activation _ => hf activation
  · rfl

theorem trims_modifyActivation (x : ActivationId) {f : Activation → Activation}
    (hf : ∀ activation, (f activation).deactivated = activation.deactivated) :
    (modifyActivation x f).Chains Trims :=
  .change fun e => { Trims.refl e with
    filed := get?_modify_deactivated hf e.activations x }

theorem trims_message (template : String) (args : List MessageArg)
    (named : List (String × MessageArg)) : (message template args named).Chains Trims :=
  .bind .look fun _ => .log _

theorem trims_raise (data : EventData) (change : EventChange) : (raise data change).Chains Trims :=
  .bind (trims_onBoard Board.rests_takeTimestamp Board.sameTypes_takeTimestamp) fun _ =>
    .discard (trims_post rfl)

theorem trims_withdraw (i : StepId) : (withdraw i).Chains Trims := by
  refine .bind .look fun _ => .ite (.bind (.change fun e => ?_) fun _ =>
    .bind (.trace _) fun _ => .answer _) (.answer _)
  exact trims_of_eq rfl rfl rfl rfl rfl fun s hs _ => (e.queue.order_withdraw_sublist i).subset hs

theorem trims_beginRound : beginRound.Chains Trims := by
  refine .bind (.change fun e => ?_) fun _ => .bind .look fun _ => .bind (.log _) fun _ =>
    trims_raise _ _
  exact {
    sheds_board (b := { e.board with round := e.board.round.beginNext })
      (Board.sameTypes_of_chain (Board.sameTypes_change (f := fun b => { b with
        round := b.round.beginNext }) (fun _ => rfl) e.board)) with
    board := Board.rests_of_cards_eq rfl rfl rfl rfl rfl rfl }

/-! ### Registration -/

/-- To register an ability ends no registration. -/
theorem isRegistered_registerAll (r : Registrar) (a : AbilityId) {a' : AbilityId}
    (l : List (EventName × Listener)) (h : r.isRegistered a') :
    (r.registerAll a l).isRegistered a' := by
  rw [Registrar.isRegistered_iff] at h ⊢
  by_cases ha : a = a'
  · subst ha
    obtain ⟨made, hof, -⟩ := r.of_registerAll a l
    rw [hof]
    simp [h]
  · rwa [Registrar.of_registerAll_other _ _ _ ha]

theorem trims_register (a : AbilityId) : (register a).Chains Trims := by
  refine .bind .look fun _ => .ite (.answer _) (.bind (chains_getAbility a) fun ability =>
    .bind (.change fun e => ?_) fun _ => .trace _)
  exact { Trims.refl e with
    eachStack := fun _ => .inl ⟨rfl, isRegistered_registerAll e.registrar a _⟩ }

/-- The end of a registration drops one stack. -/
theorem unregister_ends (a : AbilityId) (e : Engine) :
    ((unregister a).ends e).2 = { e with
      registrar := e.registrar.unregisterAll a
      usage := e.usage.untrack a
      retractable := e.retractable.filter (·.1 ≠ a) } := by
  unfold unregister
  rw [ends_bind_ok (ends_look e)]
  dsimp only
  rw [ends_bind_ok (ends_change _ _)]
  split <;> rfl

theorem isRegistered_unregisterAll (r : Registrar) {a' : AbilityId} (ha : a' ≠ a) :
    (r.unregisterAll a).isRegistered a' = r.isRegistered a' := by
  rw [Bool.eq_iff_iff, Registrar.isRegistered_iff, Registrar.isRegistered_iff,
    Registrar.of_unregisterAll, if_neg ha]

theorem unregister_trims (haway : e.inPlace a = false) : e.Trims ((unregister a).ends e).2 := by
  rw [unregister_ends]
  refine { Trims.refl e with eachStack := fun a' => ?_ }
  by_cases ha : a' = a
  · subst ha
    exact .inr ⟨(stack_without rfl a').trans (if_pos rfl), haway⟩
  · refine .inl ⟨(stack_without rfl a').trans (if_neg ha), fun hr => ?_⟩
    exact (isRegistered_unregisterAll e.registrar ha).trans hr

/-- To bring abilities of a card in step with its location is to drop the stacks of those that are
in place no more. -/
theorem refreshEach_trims {c : CardId} {card : Card} :
    ∀ (l : List AbilityId) {e : Engine}, e.board.card? c = some card →
      (∀ a ∈ l, ∃ ability, e.ability? a = some ability ∧ ability.source = c) →
      e.Trims ((refreshEach card.location l).ends e).2
  | [], e, _, _ => .refl e
  | a :: rest, e, hcard, hl => by
    obtain ⟨ability, hability, hsource⟩ := hl a List.mem_cons_self
    have hplace : e.inPlace a = ability.listensIn card.location := by
      simp [Engine.inPlace, hability, hsource, Board.cardIs, hcard]
    -- Both ways lead on from a board and abilities that are the same.
    have hrest : ∀ {e₁ : Engine}, e₁.board = e.board → e.Trims e₁ →
        e.Trims ((refreshEach card.location rest).ends e₁).2 := by
      intro e₁ hboard htrims
      refine htrims.trans (refreshEach_trims rest (by rw [hboard, hcard]) fun a' ha' => ?_)
      rw [ability?_congr htrims.abilities]
      exact hl a' (List.mem_cons_of_mem a ha')
    rw [refreshEach, ends_bind_ok (getAbility_ends hability)]
    by_cases hlistens : ability.listensIn card.location
    · simp only [hlistens, if_true]
      obtain ⟨e₁, hends, htouches, -⟩ := register_touches hability
      rw [ends_bind_ok hends]
      have htrims := trims_of_chain (trims_register a e)
      rw [hends] at htrims
      exact hrest htouches.board htrims
    · simp only [hlistens, Bool.false_eq_true, if_false]
      obtain ⟨e₁, hends, htouches, -⟩ := unregister_touches a e
      rw [ends_bind_ok hends]
      have htrims := unregister_trims (e := e) (a := a) (by simpa [hplace] using hlistens)
      rw [hends] at htrims
      exact hrest htouches.board htrims

theorem trims_refresh (c : CardId) : (refresh c).Chains Trims := by
  refine .single fun e => ?_
  have hget := getCard_ends c e
  unfold refresh
  cases hcard : e.board.card? c with
  | none =>
    rw [hcard] at hget
    rw [ends_bind_error hget]
    exact .refl e
  | some card =>
    rw [hcard] at hget
    rw [ends_bind_ok hget, ends_bind_ok (ends_look e)]
    exact refreshEach_trims _ hcard fun a ha => mem_abilitiesOf.mp ha

theorem trims_afterMove (c : CardId) (origin destination : Location) :
    (afterMove c origin destination).Chains Trims := by
  refine .bind (trims_refresh c) fun _ => ?_
  cases moveEvent? c origin destination with
  | some data => exact .bind (trims_raise data _) fun _ => .answer _
  | none => exact .answer _

theorem trims_afterMoves :
    ∀ l : List (CardId × Location × Location), (afterMoves l).Chains Trims
  | [] => .answer _
  | (c, origin, destination) :: rest =>
    .bind (.discard (trims_afterMove c origin destination)) fun _ => trims_afterMoves rest

/-! ### Targets -/

theorem trims_fillSlots (a : Ability) (x : ActivationId) (activation : Activation) :
    ∀ slots : List TargetSlot, (fillSlots a x activation slots).Chains Trims
  | [] => .bind (trims_modifyActivation _ fun _ => rfl) fun _ => .discard (trims_post rfl)
  | slot :: rest => by
    unfold fillSlots
    refine .ite (trims_fillSlots a x activation rest) (.bind .look fun e => ?_)
    rcases slot.choices e.board activation with _ | ⟨target, _ | ⟨other, more⟩⟩
    · exact .bind (trims_message _ _ _) fun _ => trims_modifyActivation _ fun _ => rfl
    · exact .bind (trims_modifyActivation _ fun _ => rfl) fun _ => trims_fillSlots a x activation rest
    · exact .bind .look fun _ => .bind (trims_post rfl) fun _ => trims_modifyActivation _ fun _ => rfl

theorem trims_chooseTarget (x : ActivationId) (slot : String) (choices : List ChosenTarget)
    (n : Nat) : (chooseTarget x slot choices n).Chains Trims := by
  unfold chooseTarget
  cases choices[n]? with
  | none => exact .answer _
  | some target => exact .bind (trims_modifyActivation _ fun _ => rfl) fun _ => .discard (trims_post rfl)

/-! ### Plays that move a card -/

/-- What sheds and then trims sheds. -/
theorem sheds_bind {α β : Type} {p : Play Engine α} {f : α → Play Engine β}
    (hp : e.Sheds (p.ends e).2) (hf : ∀ r, (f r).Chains Trims) : e.Sheds ((p >>= f).ends e).2 := by
  rw [ends_bind]
  rcases hend : p.ends e with ⟨err | r, e₁⟩
  · rw [hend] at hp
    exact hp
  · rw [hend] at hp
    exact hp.trims (trims_of_chain (hf r e₁))

theorem sheds_moveCard (c : CardId) (destination : Location) (e : Engine) :
    e.Sheds ((moveCard c destination).ends e).2 :=
  sheds_bind (sheds_onBoard (Board.sameTypes_moveCard c destination) e) fun origin =>
    trims_afterMove c origin destination

theorem sheds_payCosts (a : Ability) (x : ActivationId) (activation : Activation) (e : Engine) :
    e.Sheds ((payCosts a x activation).ends e).2 := by
  refine sheds_bind (sheds_onBoard (Payment.sameTypes_payAll a.title activation a.costs) e)
    fun r => ?_
  cases r with
  | ok receipts =>
    exact .bind (trims_modifyActivation x fun _ => rfl) fun _ => .bind (trims_afterMoves _) fun _ =>
      .discard (trims_post rfl)
  | error err =>
    cases err with
    | paymentFailed ability cause => exact .bind (trims_modifyActivation x fun _ => rfl) fun _ => .fail _
    | _ => exact .bind (.trace _) fun _ => trims_modifyActivation x fun _ => rfl

theorem sheds_discardPlayed (c : CardId) (e : Engine) :
    e.Sheds ((discardPlayed c).ends e).2 := by
  unfold discardPlayed
  rw [ends_bind_ok (ends_look e)]
  split
  · rw [ends_discard]
    exact sheds_moveCard c .discardPile e
  · exact (Trims.refl e).toSheds

theorem trims_noteHeadline (c : CardId) : (noteHeadline c).Chains Trims :=
  .bind .look fun _ => .ite (trims_onBoard (Board.rests_change_round _)
    (Board.sameTypes_change fun _ => rfl)) (.pure _)

theorem sheds_conclude (a : Ability) (x : ActivationId) (activation : Activation) (e : Engine) :
    e.Sheds ((conclude a x activation).ends e).2 := by
  let e₁ : Engine := { e with usage := e.usage.increment activation.ability }
  obtain ⟨b, hheadline⟩ := noteHeadline_ends e₁ a.source
  have htypes : e.board.SameTypes b := by
    have htrims := trims_of_chain (trims_noteHeadline a.source e₁)
    rw [hheadline] at htrims
    exact htrims.types
  have hrest : ∀ e₂ : Engine, e₂.Sheds ((do
      discardPlayed a.source
      raise (.abilityResolved activation.ability a.source activation.player) (.emitted x)
      discard (post (.complete x)) : Play Engine Unit).ends e₂).2 := fun e₂ =>
    sheds_bind (sheds_discardPlayed a.source e₂) fun _ => .bind (trims_raise _ _) fun _ =>
      .discard (trims_post rfl)
  unfold conclude
  rw [ends_bind_ok (ends_change _ _), ends_bind_ok hheadline, modifyActivation,
    ends_bind_ok (ends_change _ _)]
  -- So far nothing was shed.
  refine Sheds.after ?_ ?_ ?_ ?_ ?_ ?_ (hrest _)
  · exact htypes
  · rfl
  · rfl
  · rfl
  · exact get?_modify_deactivated (fun _ => by rfl) _ x
  · exact fun _ hs _ => hs

/-! ### Steps, answers and orders -/

/-- Of the steps that run no script only windows and events do more than to shed. -/
theorem sheds_runStep {s : Step} (hopening : e.opening s.kind = none)
    (hoffers : s.kind.offers = false) (hevent : ∀ event c, s.kind ≠ .event event c) :
    e.Sheds ((runStep s).ends e).2 := by
  rw [runStep_kind]
  obtain ⟨i, kind⟩ := s
  dsimp only at hopening hoffers hevent ⊢
  cases kind with
  | task label body => simp [Engine.opening] at hopening
  | window w => simp [StepKind.offers] at hoffers
  | event event c => exact absurd rfl (hevent event c)
  | prompt p => exact (Trims.refl e).toSheds
  | complete x =>
    exact (trims_of_chain (trims_modifyActivation x (fun _ => by rfl) e)).toSheds
  | resolve x stage =>
    by_cases hfound : ∃ activation a, e.activations.get? x = some activation ∧ activation.isLive ∧
        e.ability? activation.ability = some a
    · obtain ⟨activation, a, hget, hlive, hability⟩ := hfound
      rw [resolve_live stage hget hlive hability]
      cases stage with
      | payCosts => exact sheds_payCosts a x activation e
      | chooseTargets => exact (trims_of_chain (trims_fillSlots a x activation a.targets e)).toSheds
      | execute => simp [Engine.opening, hget, hability, hlive] at hopening
    · rw [resolve_idle stage fun activation a hget hlive hability =>
        hfound ⟨activation, a, hget, hlive, hability⟩]
      exact (Trims.refl e).toSheds

theorem sheds_order (o : Order) (h : o.handlesStack = false) (e : Engine) :
    e.Sheds (o.carryOut.ends e).2 := by
  have hboard : ∀ {α : Type} {p : Play Board α}, p.Chains Board.SameTypes →
      e.Sheds ((onBoard p).ends e).2 := fun hp => sheds_onBoard hp e
  have htrims : ∀ {α : Type} {p : Play Engine α}, p.Chains Trims → e.Sheds (p.ends e).2 := fun hp =>
    (trims_of_chain (hp e)).toSheds
  cases o with
  | gain p n => exact hboard (Board.sameTypes_gain p n)
  | spend p n => exact hboard (Board.sameTypes_spend p n)
  | modifyRank | setCheatin | restrict => exact hboard (Board.sameTypes_modifyPlayer _ _)
  | boot c => exact hboard (Board.sameTypes_boot c)
  | unboot c => exact hboard (Board.sameTypes_unboot c)
  | sendHome c => exact hboard (Board.sameTypes_sendHome c)
  | addControl | setInfluence | setBlank | setController =>
    exact hboard (Board.sameTypes_modifyCard _ fun _ => rfl)
  | setPhase | setWindow | setActivePlayer => exact hboard (Board.sameTypes_change fun _ => rfl)
  | shift c l =>
    show e.Sheds ((discard (onBoard (Board.moveCard c l))).ends e).2
    rw [ends_discard]
    exact hboard (Board.sameTypes_moveCard c l)
  | move c l =>
    show e.Sheds ((discard (moveCard c l)).ends e).2
    rw [ends_discard]
    exact sheds_moveCard c l e
  | message template args => exact htrims (trims_message template args [])
  | note line => exact htrims (.log _)
  | register a => exact htrims (trims_register a)
  | withdraw i => exact htrims (trims_withdraw i)
  | beginRound => exact htrims trims_beginRound
  | respond p n => exact htrims (.answer _)
  | resume => exact htrims chains_resume
  | activate a p | retract a p | unregister a => simp [Order.handlesStack] at h

/-- A step that starts leaves the other steps behind. -/
theorem trims_queue {q : StepQueue} (hq : ∀ s ∈ q.order, s ∈ e.queue.order) :
    e.Trims { e with queue := q } := trims_of_eq rfl rfl rfl rfl rfl fun s hs _ => hq s hs

theorem trims_finished (e : Engine) : e.Trims e.finished :=
  trims_of_eq rfl rfl rfl rfl rfl fun _ hs _ => hs

/-- A play that runs as a step sheds what it sheds without the queue. -/
theorem Sheds.asStep {q : StepQueue} (h : Sheds { e with queue := q } e')
    (hq : ∀ s ∈ q.order, s ∈ e.queue.order) : e.Sheds e'.finished := by
  have hfinished := h.trims e'.trims_finished
  refine Sheds.after ?_ ?_ ?_ ?_ ?_ ?_ hfinished
  · exact .refl _
  · rfl
  · rfl
  · rfl
  · exact fun _ => rfl
  · exact fun s hs _ => hq s hs

/-! ## Starting, retracting and clearing -/

/-- An answer to an offer changes or drops the record of what is offered, and queues no more than
the payment of its costs. -/
theorem answerOffer_ends (n : Nat) (x : ActivationId) (alternatives : Nat) (e : Engine) :
    ∃ activations q, ((answerWith n (.offer x alternatives)).ends e).2 =
        { e with activations := activations, queue := q } ∧
      (∀ y, (activations.get? y).map (·.deactivated) =
          (e.activations.get? y).map (·.deactivated) ∨
        y = x ∧ activations.get? y = none) ∧
      ∀ s ∈ q.order, s.kind.offers → s ∈ e.queue.order := by
  have hstays : ∀ y, (e.activations.get? y).map (·.deactivated) =
      (e.activations.get? y).map (·.deactivated) ∨ y = x ∧ e.activations.get? y = none :=
    fun _ => .inl rfl
  have hdrop : ∃ activations q, ((dropActivation x).ends e).2 =
        { e with activations := activations, queue := q } ∧
      (∀ y, (activations.get? y).map (·.deactivated) =
          (e.activations.get? y).map (·.deactivated) ∨
        y = x ∧ activations.get? y = none) ∧
      ∀ s ∈ q.order, s.kind.offers → s ∈ e.queue.order := by
    refine ⟨e.activations.erase x, e.queue, rfl, fun y => ?_, fun _ hs _ => hs⟩
    rw [IdMap.get?_erase]
    by_cases hxy : x = y
    · exact .inr ⟨hxy.symm, if_pos hxy⟩
    · exact .inl (by rw [if_neg hxy])
  unfold answerWith
  dsimp only
  split
  · -- The last button declines.
    exact hdrop
  · unfold accept
    rw [ends_bind_ok (ends_look e)]
    cases hget : e.activations.get? x with
    | none => exact ⟨_, _, rfl, hstays, fun _ hs _ => hs⟩
    | some activation =>
      dsimp only
      cases hability : e.ability? activation.ability with
      | none =>
        rw [ends_bind_error (getAbility_missing hability)]
        exact ⟨_, _, rfl, hstays, fun _ hs _ => hs⟩
      | some a =>
        rw [ends_bind_ok (getAbility_ends hability)]
        split
        · refine ⟨_, _, rfl, fun y => .inl ?_, fun s hs hs' => ?_⟩
          · exact get?_modify_deactivated (fun _ => by rfl) e.activations x y
          · rcases StepQueue.mem_order_push.mp hs with hs | rfl
            · exact hs
            · simp [StepKind.offers] at hs'
        -- What has become illegal is dropped as if it were declined.
        · exact hdrop

/-- The record with which an action is entered. -/
def begun (a : AbilityId) (ability : Ability) (p : PlayerId) : Activation :=
  { Activation.new a ability.source p none with stage := .legalityChecked }

theorem stack_entered (e : Engine) (a : AbilityId) (activation : Activation) :
    (e.entered a activation).stack a = e.stack a ++ [⟨e.nextActivation⟩] :=
  (stack_append rfl a).trans (if_pos rfl)

theorem stack_retracted (e : Engine) (a : AbilityId) (x : ActivationId) (activation : Activation)
    (b : Board) : (e.retracted a x activation b).stack a = (e.stack a).dropLast :=
  (stack_dropLatest rfl a).trans (if_pos rfl)

theorem get?_entered (e : Engine) (a : AbilityId) (activation : Activation) :
    (e.entered a activation).activations.get? ⟨e.nextActivation⟩ = some activation :=
  (IdMap.get?_insert ..).trans (if_pos rfl)

theorem get?_retracted {activation : Activation} (hget : e.activations.get? x = some activation)
    (a : AbilityId) (b : Board) :
    (e.retracted a x activation b).activations.get? x =
      some { activation with stage := .deactivated, deactivated := true, prompt := none } :=
  IdMap.get?_modify_self hget _

/-- How an attempt to start an action ends. -/
inductive Activates (e : Engine) (a : AbilityId) (p : PlayerId) :
    Except RulesError Bool × Engine → Prop where
  | unknown (err : RulesError) : Activates e a p (.error err, e)
  | refused : Activates e a p (.ok false, e)
  | illegal : Activates e a p (.ok false, { e with nextActivation := e.nextActivation + 1 })
  | started {ability : Ability} (hability : e.ability? a = some ability)
      (haction : ability.isAction)
      (hlegal : Legality.check e.board e.usage ability (.new a ability.source p none) = .ok ()) :
    Activates e a p (.ok true, e.entered a (begun a ability p))

theorem activate_activates (e : Engine) (a : AbilityId) (p : PlayerId) :
    e.Activates a p ((activate a p).ends e) := by
  unfold activate
  cases hability : e.ability? a with
  | none =>
    rw [ends_bind_error (getAbility_missing hability)]
    exact .unknown _
  | some ability =>
    rw [ends_bind_ok (getAbility_ends hability)]
    by_cases haction : ability.isAction
    · simp only [haction, Bool.not_true, Bool.false_eq_true, if_false]
      have htake : (takeActivationId).ends e =
          (.ok ⟨e.nextActivation⟩, { e with nextActivation := e.nextActivation + 1 }) := rfl
      rw [ends_bind_ok htake, ends_bind_ok (ends_look _)]
      dsimp only
      split
      · exact .illegal
      · rename_i hlegal
        exact .started hability haction hlegal
    · simp only [haction, Bool.not_false, if_true]
      exact .refused

/-- Whether an ability has what can be retracted forgotten when an event fires. -/
def clearsOn (e : Engine) (event : EventName) (a : AbilityId) : Bool :=
  (e.registrar.of a).any fun s => s.event = event && s.listener = .clearActivations

/-- The stacks of some abilities were dropped, and no records but of what was on them. -/
structure Clears (cleared : AbilityId → Bool) (e e' : Engine) : Prop where
  board : e'.board = e.board
  abilities : e'.abilities = e.abilities
  registrar : e'.registrar = e.registrar
  queue : e'.queue = e.queue
  eachStack : ∀ a, e'.stack a = if cleared a then [] else e.stack a
  filed : ∀ x, e'.activations.get? x = e.activations.get? x ∨
    e'.activations.get? x = none ∧ ∃ a, cleared a ∧ x ∈ e.stack a

/-- Nothing was dropped. -/
theorem clears_of_eq {cleared : AbilityId → Bool} (hnone : ∀ a, cleared a = false)
    (hboard : e'.board = e.board) (habilities : e'.abilities = e.abilities)
    (hregistrar : e'.registrar = e.registrar) (hqueue : e'.queue = e.queue)
    (hretractable : e'.retractable = e.retractable) (hactivations : e'.activations = e.activations) :
    e.Clears cleared e' where
  board := hboard
  abilities := habilities
  registrar := hregistrar
  queue := hqueue
  eachStack a := (stack_congr hretractable a).trans (by simp [hnone])
  filed x := .inl (by rw [hactivations])

theorem Clears.trans {cleared cleared' : AbilityId → Bool} (h : e.Clears cleared e')
    (h' : e'.Clears cleared' e'') : e.Clears (fun a => cleared a || cleared' a) e'' where
  board := h'.board.trans h.board
  abilities := h'.abilities.trans h.abilities
  registrar := h'.registrar.trans h.registrar
  queue := h'.queue.trans h.queue
  eachStack a := by
    rw [h'.eachStack, h.eachStack]
    cases cleared a <;> cases cleared' a <;> rfl
  filed x := by
    rcases h'.filed x with hsame | ⟨hgone, a, ha, hmem⟩
    · rcases h.filed x with hsame' | ⟨hgone, a, ha, hmem⟩
      · exact .inl (hsame.trans hsame')
      · exact .inr ⟨hsame.trans hgone, a, by simp [ha], hmem⟩
    · refine .inr ⟨hgone, a, by simp [ha], ?_⟩
      -- What is on a stack later was on it before.
      rw [h.eachStack] at hmem
      split at hmem
      · simp at hmem
      · exact hmem

theorem clearRetractable_clears (a : AbilityId) (e : Engine) :
    e.Clears (a = ·) ((clearRetractable a).ends e).2 where
  board := rfl
  abilities := rfl
  registrar := rfl
  queue := rfl
  eachStack a' := (stack_without rfl a').trans (by simp [eq_comm])
  filed x := by
    refine (get?_forgotten x (e.stack a) e.activations).imp_right ?_
    rintro ⟨-, -, -, hgone, hmem⟩
    exact ⟨hgone, a, by simp, hmem⟩

theorem notify_clears (s : Subscription) (e : Engine) :
    ∃ e', (notify s).ends e = (.ok (), e') ∧
      e.Clears (fun a => s.ability = a && s.listener = .clearActivations) e' := by
  unfold notify
  cases hlistener : s.listener with
  | clearActivations =>
    refine ⟨((clearRetractable s.ability).ends e).2, rfl, ?_⟩
    simpa using clearRetractable_clears s.ability e
  | trigger | resetUsage => exact ⟨_, rfl, clears_of_eq (by simp) rfl rfl rfl rfl rfl rfl⟩

/-- Listeners that are told drop the stacks of those abilities that are to be cleared. -/
theorem notifyEach_clears (l : List Subscription) (e : Engine) :
    ∃ e', (notifyEach l).ends e = (.ok (), e') ∧
      e.Clears (fun a => l.any fun s => s.ability = a && s.listener = .clearActivations) e' := by
  -- The listeners are told one by one, so what they clear adds up.
  induction l generalizing e with
  | nil => exact ⟨e, rfl, clears_of_eq (fun _ => rfl) rfl rfl rfl rfl rfl rfl⟩
  | cons s rest ih =>
    obtain ⟨e₁, hends₁, hclears₁⟩ := notify_clears s e
    obtain ⟨e', hends', hclears'⟩ := ih e₁
    exact ⟨e', (ends_bind_ok hends₁ _).trans hends', hclears₁.trans hclears'⟩

/-- Where an event fires the stacks are dropped that are to be cleared on it, and at most its window
is queued. -/
theorem openWindow_clears (event : GameEvent) (e : Engine) :
    ∃ e₁ : Engine, ((openWindow event).ends e).2 = e₁.requeued event (e₁.collect event).pending ∧
      e.Clears (e.clearsOn event.name) e₁ := by
  obtain ⟨e₁, hnotify, hclears⟩ := notifyEach_clears (e.registrar.listenersFor event.name) e
  have hlisten : (fun a => (e.registrar.listenersFor event.name).any
      fun s => s.ability = a && s.listener = .clearActivations) = e.clearsOn event.name := by
    funext a
    unfold Registrar.listenersFor clearsOn
    rw [Registrar.of_eq_filter, List.any_filter, List.any_filter]
    refine congrArg (e.registrar.subscriptions.any) (funext fun s => ?_)
    rw [Bool.and_left_comm]
  refine ⟨e₁, ?_, hlisten ▸ hclears⟩
  unfold openWindow
  rw [ends_bind_ok (ends_look e), ends_bind_ok hnotify, ends_bind_ok (ends_look e₁)]
  dsimp only
  cases hpending : (e₁.collect event).pending with
  | nil => rfl
  | cons c rest =>
    have hwindow : e₁.collect event = ⟨event, c :: rest⟩ := by
      rw [← hpending]
      rfl
    rw [hwindow]
    rfl

/-- What waits, what is filed and what can be retracted stay as they were, and no registration has
ended. -/
structure Enrolls (e e' : Engine) : Prop where
  queue : e'.queue = e.queue
  activations : e'.activations = e.activations
  retractable : e'.retractable = e.retractable
  registered : ∀ a, e.registrar.isRegistered a → e'.registrar.isRegistered a

theorem Enrolls.trans (h : e.Enrolls e') (h' : e'.Enrolls e'') : e.Enrolls e'' :=
  ⟨h'.queue.trans h.queue, h'.activations.trans h.activations,
    h'.retractable.trans h.retractable, fun a hr => h'.registered a (h.registered a hr)⟩

/-- An ability that is attached is registered at most. -/
theorem addAbility_enrolls (c : CardId) (design : Design) (e : Engine) :
    e.Enrolls ((addAbility c design).ends e).2 := by
  have hstays : ∀ {e e' : Engine}, e'.queue = e.queue → e'.activations = e.activations →
      e'.retractable = e.retractable → e'.registrar = e.registrar → e.Enrolls e' :=
    fun hqueue hactivations hretractable hregistrar =>
      ⟨hqueue, hactivations, hretractable, fun _ hr => hregistrar ▸ hr⟩
  have hregister : ∀ a, (register a).Chains Enrolls := fun a =>
    .bind .look fun _ => .ite (.answer _) (.bind (chains_getAbility a) fun _ =>
      .bind (.change fun e => ⟨rfl, rfl, rfl, fun _ => isRegistered_registerAll e.registrar a _⟩)
        fun _ => .trace _)
  have hchain : (addAbility c design).Chains Enrolls :=
    .bind (.single fun _ => hstays rfl rfl rfl rfl) fun _ => .bind (.ofExcept _) fun _ =>
      .bind .look fun _ => .bind (.trace _) fun _ =>
        .bind (.change fun _ => hstays rfl rfl rfl rfl) fun _ =>
          .ite (.bind (hregister _) fun _ => .answer _) (.answer _)
  have hends := hchain e
  generalize ((addAbility c design).ends e).2 = e' at hends
  induction hends with
  | refl => exact hstays rfl rfl rfl rfl
  | tail _ hlast ih => exact ih.trans hlast

end Engine

end Doomtown
