import Doomtown.Proofs.Filings

/-!
# Menus, clicks and execution agree

An action can be started in four ways: a menu shows whether it can be, a click on its card looks for
one that can be, and it is executed, from the menu or by the click. They all come to one judgement,
`Engine.canActivate`, although an attempt takes a number for its activation before it is judged and
the others do not (`Engine.activate_known`). So the menu disables exactly what execution refuses,
and a click does what the execution of the first action does that the menu would allow
(`Engine.menu_click_execute_agree`).
-/

namespace Doomtown

open Play

namespace Play

variable {σ α β : Type}

/-- What follows an answer without doings is all that is done. -/
theorem answered_bind {play : Play σ α} {a : α} {s : σ} (h : play s = ⟨.ok a, s, []⟩)
    (q : α → Play σ β) : (play >>= q) s = q a s := by
  show play.andThen q s = q a s
  simp only [andThen, h, List.nil_append]

/-- To look at the state does nothing. -/
theorem look_bind (q : σ → Play σ β) (s : σ) : (look >>= q) s = q s s :=
  answered_bind (show look s = ⟨.ok s, s, []⟩ from rfl) q

end Play

namespace Engine

variable {e e' : Engine} {a : AbilityId} {ability : Ability} {c : CardId} {p : PlayerId}

/-! ## Attempts to start an action -/

/-- What a refused attempt leaves: an action that was judged has used up a number. -/
def passedOver (e : Engine) (ability : Ability) : Engine :=
  if ability.isAction then { e with nextActivation := e.nextActivation + 1 } else e

/-- An attempt succeeds exactly where the ability can be activated. -/
theorem activate_known (hability : e.ability? a = some ability) (p : PlayerId) :
    (activate a p).ends e =
      if e.canActivate a p then (.ok true, e.entered a (begun a ability p))
      else (.ok false, e.passedOver ability) := by
  unfold activate canActivate passedOver
  rw [ends_bind_ok (getAbility_ends hability), hability, Option.any_some]
  cases haction : ability.isAction with
  | false => rfl
  | true =>
    -- The number is taken before the check, which does not look at it.
    have htake : (takeActivationId).ends e =
        (.ok ⟨e.nextActivation⟩, { e with nextActivation := e.nextActivation + 1 }) := rfl
    simp only [Bool.not_true, Bool.false_eq_true, if_false, Bool.true_and, if_true]
    rw [ends_bind_ok htake, ends_bind_ok (ends_look _)]
    unfold Legality.isLegal
    dsimp only
    cases Legality.check e.board e.usage ability (.new a ability.source p none) <;> rfl

/-- A play that is refused does not run the queue. -/
theorem settleIf_refused {play : Play Engine Bool} (h : play.ends e = (.ok false, e'))
    (fuel : Nat) : (settleIf fuel play).ends e = (.ok (some false), e') :=
  ends_bind_ok h _

/-- A play that is not refused does not answer that it is. -/
theorem settleIf_not_refused {play : Play Engine Bool} (h : play.ends e = (.ok true, e'))
    (fuel : Nat) : ((settleIf fuel play).ends e).1 ≠ .ok (some false) := by
  unfold settleIf
  rw [ends_bind_ok h, if_pos rfl]
  rcases hsettle : (settle fuel).ends e' with ⟨err | status, e''⟩
  · rw [ends_bind_error hsettle]
    simp
  · rw [ends_bind_ok hsettle]
    cases status <;> simp

/-- Executing is refused exactly where the ability cannot be activated. -/
theorem playAction_refused_iff (hability : e.ability? a = some ability) (p : PlayerId)
    (fuel : Nat) :
    ((playAction fuel a p).ends e).1 = .ok (some false) ↔ e.canActivate a p = false := by
  have hends := activate_known hability p
  unfold playAction
  cases hcan : e.canActivate a p with
  | true =>
    rw [hcan, if_pos rfl] at hends
    simpa using settleIf_not_refused hends fuel
  | false =>
    rw [hcan, if_neg (by simp)] at hends
    rw [settleIf_refused hends fuel]
    simp

/-- A refused execution uses up a number at most. -/
theorem playAction_refused (hability : e.ability? a = some ability) {fuel : Nat}
    (h : (playAction fuel a p).ends e = (.ok (some false), e')) : e' = e.passedOver ability := by
  have hcan := (playAction_refused_iff hability p fuel).mp (congrArg Prod.fst h)
  have hends := activate_known hability p
  rw [hcan, if_neg (by simp)] at hends
  unfold playAction at h
  rw [settleIf_refused hends fuel] at h
  exact (Prod.mk.inj h).2.symm

/-! ## Menus -/

/-- To make a menu entry changes nothing and logs nothing. -/
theorem menuItem_known (hability : e.ability? a = some ability) (arg : String) (p : PlayerId) :
    menuItem a arg p e =
      ⟨.ok ⟨ability.title, "doAction", arg, ability.anyPlayer, !e.canActivate a p⟩, e, []⟩ := by
  have hget : getAbility a e = ⟨.ok ability, e, []⟩ := by
    unfold getAbility
    rw [look_bind, hability]
    rfl
  unfold menuItem
  rw [answered_bind hget]
  rfl

/-! ## Clicks -/

/-- The ability is the first of the card's, in the order of attachment, that clicks start and that
the player can start now. -/
structure FirstToClick (e : Engine) (c : CardId) (p : PlayerId) (a : AbilityId) : Prop where
  clickable : (e.ability? a).any (·.isClickable)
  activates : e.canActivate a p
  first : ∃ earlier later, e.abilitiesOf c = earlier ++ a :: later ∧
    ∀ a' ∈ earlier, (e.ability? a').any (·.isClickable) → e.canActivate a' p = false

theorem clickAction?_eq_some_iff : e.clickAction? c p = some a ↔ e.FirstToClick c p a := by
  unfold clickAction?
  rw [List.find?_eq_some_iff_append]
  simp only [Bool.and_eq_true, Bool.not_eq_true', Bool.and_eq_false_iff]
  constructor
  · rintro ⟨⟨hclick, hcan⟩, earlier, later, heq, hnone⟩
    refine ⟨hclick, hcan, earlier, later, heq, fun a' ha' hclick' => ?_⟩
    exact (hnone a' ha').resolve_left (by simp [hclick'])
  · rintro ⟨hclick, hcan, earlier, later, heq, hnone⟩
    refine ⟨⟨hclick, hcan⟩, earlier, later, heq, fun a' ha' => ?_⟩
    by_cases hclick' : (e.ability? a').any (·.isClickable)
    · exact .inr (hnone a' ha' hclick')
    · exact .inl (by simpa using hclick')

/-- A click is the execution of what it starts; where it starts nothing it leaves all as it was and
logs nothing. -/
theorem click_eq (fuel : Nat) (c : CardId) (p : PlayerId) (e : Engine) :
    click fuel c p e = (e.clickAction? c p).elim ⟨.ok (some false), e, []⟩
      fun a => playAction fuel a p e := by
  unfold click
  rw [look_bind]
  cases e.clickAction? c p <;> rfl

/-! ## The order of attachment -/

theorem abilitiesOf_prefix (h : e.abilities <+: e'.abilities) (c : CardId) :
    e.abilitiesOf c <+: e'.abilitiesOf c := by
  obtain ⟨more, hmore⟩ := h
  -- The numbers of the old abilities come first, and stand for what they stood for.
  have hrange : (List.range e'.abilities.length).map (Id.mk (k := .ability)) =
      (List.range e.abilities.length).map Id.mk ++
        ((List.range more.length).map (e.abilities.length + ·)).map Id.mk := by
    rw [← hmore, List.length_append, List.range_add, List.map_append]
  have hold : ∀ a ∈ (List.range e.abilities.length).map (Id.mk (k := .ability)),
      ((e'.ability? a).any (·.source = c)) = (e.ability? a).any (·.source = c) := by
    intro a ha
    obtain ⟨n, hn, rfl⟩ := List.mem_map.mp ha
    unfold ability?
    rw [← hmore, List.getElem?_append_left (List.mem_range.mp hn)]
  unfold abilitiesOf
  rw [hrange, List.filter_append, List.filter_congr hold]
  exact List.prefix_append _ _

end Engine

namespace Moment

variable {m : Moment}

/-- A deed attaches one ability at most, behind all others. -/
theorem Sound.abilities_after (h : m.Sound) (d : Deed) :
    m.engine.abilities <+: (m.after d).engine.abilities := by
  rcases (h.alters d).abilities with hsame | ⟨c, design, card, ability, hattaches⟩
  · exact (hsame.trans (m.abilities_countedBy _)) ▸ List.prefix_rfl
  · rw [hattaches.abilities, abilities_countedBy]
    exact List.prefix_append _ _

theorem Sound.abilities_run (h : m.Sound) (ds : List Deed) :
    m.engine.abilities <+: (m.run ds).engine.abilities := by
  induction ds generalizing m with
  | nil => exact List.prefix_rfl
  | cons d ds ih => exact (h.abilities_after d).trans (ih (h.after d))

end Moment

/-! ## Agreement -/

namespace Engine

variable {e : Engine} {a : AbilityId} {ability : Ability}

/-- Menu, click and execution agree. An ability is refused exactly where it cannot be activated, and
then at most a number is used up; its menu entry is disabled exactly then, whatever it was made for.
A click on a card is the execution of the first ability attached to the card that clicks start and
that can be activated, or is refused and does nothing at all. -/
theorem menu_click_execute_agree (hability : e.ability? a = some ability) (c : CardId)
    (p : PlayerId) (arg : String) (fuel : Nat) :
    (((playAction fuel a p).ends e).1 = .ok (some false) ↔ e.canActivate a p = false) ∧
      (∀ e', (playAction fuel a p).ends e = (.ok (some false), e') →
        e' = e ∨ e' = { e with nextActivation := e.nextActivation + 1 }) ∧
      (∃ item, menuItem a arg p e = ⟨.ok item, e, []⟩ ∧
        (item.disabled = true ↔ e.canActivate a p = false) ∧
        item.text = ability.title ∧ item.arg = arg ∧ item.anyPlayer = ability.anyPlayer) ∧
      (∀ a', e.clickAction? c p = some a' ↔ e.FirstToClick c p a') ∧
      (∀ (m : Moment) (ds : List Deed), m.Reached → (m.run ds).engine = e →
        m.engine.abilitiesOf c <+: e.abilitiesOf c) ∧
      (∀ a', e.clickAction? c p = some a' → click fuel c p e = playAction fuel a' p e) ∧
      (e.clickAction? c p = none → click fuel c p e = ⟨.ok (some false), e, []⟩) := by
  refine ⟨playAction_refused_iff hability p fuel, fun e' h => ?_,
    ⟨_, menuItem_known hability arg p, by simp, rfl, rfl, rfl⟩,
    fun a' => clickAction?_eq_some_iff, fun m ds hreached hrun => ?_, fun a' h => ?_, fun h => ?_⟩
  · rw [playAction_refused hability h, passedOver]
    split
    · exact .inr rfl
    · exact .inl rfl
  · exact hrun ▸ abilitiesOf_prefix (hreached.sound.abilities_run ds) c
  · rw [click_eq, h]
    rfl
  · rw [click_eq, h]
    rfl

/-- A deed with three actions: one that clicks do not start, one whose condition fails, and one that
a click starts. -/
def threeActions : Engine :=
  ((Moment.start Moment.deedInPlay).run
    [.call (.attach ⟨3⟩ { kind := .action, handler := some fun _ => .done }),
      .call (.attach ⟨3⟩ {
        kind := .action
        clickToActivate := true
        condition := fun _ _ => false
        handler := some fun _ => .done }),
      .call (.attach ⟨3⟩ {
        kind := .action
        clickToActivate := true
        handler := some fun _ => .done })]).engine

/-- The second action is refused and disabled, and a click passes over it. -/
theorem menu_click_execute_agree_threeActions :
    (∃ ability, threeActions.ability? ⟨1⟩ = some ability) ∧
      ((playAction 9 ⟨1⟩ ⟨0⟩).ends threeActions).1 = .ok (some false) ∧
      (∃ item, menuItem ⟨1⟩ "3" ⟨0⟩ threeActions = ⟨.ok item, threeActions, []⟩ ∧ item.disabled) ∧
      threeActions.FirstToClick ⟨3⟩ ⟨0⟩ ⟨2⟩ ∧
      click 9 ⟨3⟩ ⟨0⟩ threeActions = playAction 9 ⟨2⟩ ⟨0⟩ threeActions ∧
      click 9 ⟨4⟩ ⟨0⟩ threeActions = ⟨.ok (some false), threeActions, []⟩ := by
  have hcan : threeActions.canActivate ⟨1⟩ ⟨0⟩ = false := by decide +kernel
  have hability : threeActions.ability? ⟨1⟩ = some _ := rfl
  have hclick : threeActions.clickAction? ⟨3⟩ ⟨0⟩ = some ⟨2⟩ := by decide +kernel
  obtain ⟨hrefused, -, ⟨item, hitem, hdisabled, -⟩, hfirst, -, hclicks, -⟩ :=
    menu_click_execute_agree hability ⟨3⟩ ⟨0⟩ "3" 9
  obtain ⟨-, -, -, -, -, -, hnone⟩ := menu_click_execute_agree hability ⟨4⟩ ⟨0⟩ "3" 9
  exact ⟨⟨_, hability⟩, hrefused.mpr hcan, ⟨item, hitem, hdisabled.mpr hcan⟩,
    (hfirst ⟨2⟩).mp hclick, hclicks ⟨2⟩ hclick, hnone (by decide +kernel)⟩

end Engine

end Doomtown
