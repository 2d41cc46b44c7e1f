import Doomtown.Proofs.Upkeep
import Doomtown.Proofs.UsageLimit
import Doomtown.Proofs.WindowTurns

/-!
# What deeds do to cards and registrations

Most deeds move no card and bring registrations in step at most. `Moment.Alters` lists what the
others do: a card is moved and the registration of its abilities brought in step with its new
location, or one of the orders is given that move cards or register abilities by themselves, or an
ability is attached, or an event fires that begins a new period, or the board is set up. Every deed
is of this list, once the use is counted that it counts (`Moment.Sound.alters`).
-/

namespace Doomtown

open Play

namespace Engine

variable {e e' e'' : Engine} {a : AbilityId} {c : CardId}

/-! ## Moving a card -/

/-- No card is moved, no ability is attached and no entry is touched. -/
structure Idles (e e' : Engine) : Prop where
  board : e.board.Rests e'.board
  abilities : e'.abilities = e.abilities
  entries : ∀ a, e'.entry a = e.entry a

/-- A card is moved at most, and entries are brought in step with where the cards are then, those of
the card's abilities all. -/
structure Relocates (c : CardId) (e e' : Engine) : Prop where
  board : e.board.Moves (some c) e'.board
  abilities : e'.abilities = e.abilities
  entries : ∀ a, (e.entry a).Tends (e.ability? a) (e'.inPlace a) (e'.entry a)
  inStep : ∀ a ∈ e.abilitiesOf c, e'.InStep a

theorem abilitiesOf_eq (h : e'.abilities = e.abilities) (c : CardId) :
    e'.abilitiesOf c = e.abilitiesOf c := by
  have hability := ability?_congr h
  unfold abilitiesOf
  simp only [hability, h]

/-- Where a card was moved on the board and the engine is tended then, the card is relocated. -/
theorem relocates_of_moves {b : Board} (hboard : e.board.Moves (some c) b)
    (htends : Tends { e with board := b } e') (hsteps : ∀ a ∈ e.abilitiesOf c, e'.InStep a) :
    e.Relocates c e' := by
  refine ⟨hboard.trans (htends.board.moves _), htends.abilities, fun a => ?_, hsteps⟩
  rw [htends.inPlace]
  exact htends.entries a

theorem Relocates.tends (h : e.Relocates c e') (h' : e'.Tends e'') : e.Relocates c e'' := by
  refine ⟨h.board.trans (h'.board.moves _), h'.abilities.trans h.abilities, fun a => ?_,
    fun a ha => h'.inStep (h.inStep a ha)⟩
  have hentry := h'.entries a
  rw [ability?_congr h.abilities] at hentry
  rw [h'.inPlace]
  exact (h.entries a).trans hentry

theorem Idles.relocates (h : e.Idles e') (h' : e'.Relocates c e'') : e.Relocates c e'' := by
  refine ⟨(h.board.moves _).trans h'.board, h'.abilities.trans h.abilities, fun a => ?_, ?_⟩
  · have hentry := h'.entries a
    rwa [h.entries, ability?_congr h.abilities] at hentry
  · rw [← abilitiesOf_eq h.abilities c]
    exact h'.inStep

theorem Idles.tends (h : e.Idles e') : e.Tends e' :=
  ⟨h.board, h.abilities, fun a => by rw [h.entries]; exact .keeps⟩

theorem tends_refresh (c : CardId) : (refresh c).Chains Tends := by
  refine .single fun e => ?_
  obtain ⟨r, e', hends, htends, -⟩ := refresh_tends c e
  rw [hends]
  exact htends

theorem tends_afterMove (c : CardId) (origin destination : Location) :
    (afterMove c origin destination).Chains Tends := by
  refine .bind (tends_refresh c) fun _ => ?_
  cases moveEvent? c origin destination with
  | some data => exact .bind (tends_announce data) fun _ => .answer _
  | none => exact .answer _

/-- Behind the move of a card that exists the card's abilities are in step. -/
theorem inStep_afterMove (hcard : (e.board.card? c).isSome) (origin destination : Location) :
    ∀ a ∈ e.abilitiesOf c, ((afterMove c origin destination).ends e).2.InStep a := by
  intro a ha
  obtain ⟨r, e₁, hends, -, hfound⟩ := refresh_tends c e
  obtain ⟨rfl, hsteps⟩ := hfound hcard
  unfold afterMove
  rw [ends_bind_ok hends]
  refine Tends.inStep (tends_of_chain ?_) (hsteps a ha)
  cases moveEvent? c origin destination with
  | some data => exact Play.Chains.bind (tends_announce data) (fun _ => .answer _) e₁
  | none => exact .refl

/-- What holds behind a play and is kept by tending holds behind all that follows and tends. -/
theorem behind_bind {α β : Type} {P : Engine → Prop} (hP : ∀ {e e'}, e.Tends e' → P e → P e')
    {p : Play Engine α} {f : α → Play Engine β} (hf : ∀ r, (f r).Chains Tends)
    (h : P (p.ends e).2) : P ((p >>= f).ends e).2 := by
  rw [ends_bind]
  rcases hend : p.ends e with ⟨err | r, e₁⟩
  · rw [hend] at h
    exact h
  · rw [hend] at h
    exact hP (tends_of_chain (hf r e₁)) h

theorem tends_afterMoves :
    ∀ l : List (CardId × Location × Location), (afterMoves l).Chains Tends
  | [] => .answer _
  | (c, origin, destination) :: rest =>
    .bind (.discard (tends_afterMove c origin destination)) fun _ => tends_afterMoves rest

/-- Behind moves the first of which is of a card that exists the card's abilities are in step. -/
theorem inStep_afterMoves (hcard : (e.board.card? c).isSome) (origin destination : Location)
    (rest : List (CardId × Location × Location)) :
    ∀ a ∈ e.abilitiesOf c,
      ((afterMoves ((c, origin, destination) :: rest)).ends e).2.InStep a := by
  intro a ha
  rw [afterMoves]
  refine behind_bind Tends.inStep (fun _ => tends_afterMoves rest) ?_
  rw [ends_discard]
  exact inStep_afterMove hcard origin destination a ha

/-- A card that is moved is relocated, unless the move fails. -/
theorem moveCard_relocates (c : CardId) (destination : Location) (e : Engine) :
    e.Tends ((moveCard c destination).ends e).2 ∨
      e.Relocates c ((moveCard c destination).ends e).2 := by
  unfold moveCard
  rcases Board.moveCard_cases c destination e.board with ⟨err, hmove⟩ | ⟨card, hcard, hlists, hmove⟩
  · have hends : (onBoard (Board.moveCard c destination)).ends e = (.error err, e) := by
      simp [onBoard, hmove]
    rw [ends_bind_error hends]
    exact .inl (.refl e)
  · let e₁ : Engine := { e with board := e.board.moved c card destination }
    have hends : (onBoard (Board.moveCard c destination)).ends e = (.ok card.location, e₁) := by
      simp [onBoard, hmove, e₁]
    rw [ends_bind_ok hends]
    have hcard₁ : (e₁.board.card? c).isSome := by
      show ((e.board.moved c card destination).card? c).isSome = true
      rw [Board.card?_moved hcard]
      rfl
    exact .inr (relocates_of_moves (Board.moves_moved hcard hlists destination)
      (tends_of_chain (tends_afterMove c card.location destination e₁))
      (inStep_afterMove hcard₁ card.location destination))

/-! ## Paying -/

/-- Abilities and entries are left alone. -/
structure SameEntries (e e' : Engine) : Prop where
  abilities : e'.abilities = e.abilities
  entries : ∀ a, e'.entry a = e.entry a

theorem moves?_eq (r : CostReceipt) : r.moves? = (movedBy? r).map (·.1) := by
  cases r <;> rfl

/-- The receipts of a payment that moved the source name the source first among what was moved. -/
theorem exists_cons_of_accounts {x : Activation} {b b' : Board} {receipts : List CostReceipt}
    (h : Payment.Accounts x b receipts b') (hmoved : ∃ r ∈ receipts, r.moves? = some x.source) :
    ∃ origin destination rest,
      receipts.filterMap movedBy? = (x.source, origin, destination) :: rest := by
  obtain ⟨r, hr, hmoves⟩ := hmoved
  rw [moves?_eq] at hmoves
  obtain ⟨t, ht, -⟩ := Option.map_eq_some_iff.mp hmoves
  have hmem : t ∈ receipts.filterMap movedBy? := List.mem_filterMap.mpr ⟨r, hr, ht⟩
  cases hlist : receipts.filterMap movedBy? with
  | nil => simp [hlist] at hmem
  | cons t' rest =>
    obtain ⟨r', hr', ht'⟩ := List.mem_filterMap.mp (hlist ▸ List.mem_cons_self : t' ∈ _)
    obtain ⟨c, origin, destination⟩ := t'
    have hc := h.source r' hr' c (by rw [moves?_eq, ht']; rfl)
    exact ⟨origin, destination, rest, by rw [hc]⟩

/-- Paying the costs of an activation relocates its source or moves nothing, also if the payment
fails, unless the board was untidy. -/
theorem payCosts_relocates (a : Ability) (x : ActivationId) (activation : Activation) (e : Engine) :
    e.Tends ((payCosts a x activation).ends e).2 ∨
      e.Relocates activation.source ((payCosts a x activation).ends e).2 ∨
      ¬e.board.Tidy ∧ e.board.Stirs ((payCosts a x activation).ends e).2.board ∧
        e.SameEntries ((payCosts a x activation).ends e).2 := by
  have hmoves : e.board.Moves (some activation.source)
      ((Payment.payAll a.title activation a.costs).ends e.board).2 :=
    Payment.moves_payAll a.costs e.board
  rcases hpay : (Payment.payAll a.title activation a.costs).ends e.board with ⟨err | receipts, b'⟩
  · rw [hpay] at hmoves
    rw [payCosts_refused hpay]
    by_cases hb : e.board.Tidy
    · exact .inl ⟨Payment.rests_payAll_failed hb hpay, rfl, fun _ => .keeps⟩
    · exact .inr (.inr ⟨hb, hmoves.stirs, rfl, fun _ => rfl⟩)
  · rw [hpay] at hmoves
    have haccounts := Payment.accounts_payAll hpay
    rw [payCosts_paid hpay]
    let e₁ : Engine := { e with
      board := b'
      activations := e.activations.modify x
        ({ · with receipts := receipts, stage := .costsPaid }) }
    show e.Tends (Play.ends _ e₁).2 ∨ e.Relocates _ (Play.ends _ e₁).2 ∨ _
    have hrest : ∀ moves, (do
        afterMoves moves
        discard (post (.resolve x .chooseTargets)) : Play Engine Unit).Chains Tends := fun moves =>
      .bind (tends_afterMoves moves) fun _ => .discard (tends_post _)
    rcases haccounts.moved with hrests | ⟨hcard, hmoved⟩
    · have htends : e.Tends e₁ := ⟨hrests, rfl, fun _ => .keeps⟩
      exact .inl (htends.trans (tends_of_chain (hrest _ e₁)))
    · -- The source was moved, so that its abilities are in step when the moves are followed up.
      obtain ⟨origin, destination, rest, hlist⟩ := exists_cons_of_accounts haccounts hmoved
      have hcard₁ := Board.card?_isSome_of_stirs hmoves.stirs hcard
      rw [hlist]
      refine .inr (.inl (relocates_of_moves hmoves ?_ fun a ha => ?_))
      · have htends : ({ e with board := b' } : Engine).Tends e₁ :=
          ⟨.refl none _, rfl, fun _ => .keeps⟩
        exact htends.trans (tends_of_chain (hrest _ e₁))
      · exact behind_bind Tends.inStep (fun _ => .discard (tends_post _))
          (inStep_afterMoves hcard₁ origin destination rest a ha)

/-- What concludes a resolution once the use is counted relocates the ability's card or moves
nothing. -/
theorem concluded_relocates (a : Ability) (x : ActivationId) (activation : Activation)
    (e : Engine) :
    let concluded : Play Engine Unit := do
      noteHeadline a.source
      modifyActivation x ({ · with stage := .executed })
      discardPlayed a.source
      raise (.abilityResolved activation.ability a.source activation.player) (.emitted x)
      discard (post (.complete x))
    e.Tends (concluded.ends e).2 ∨ e.Relocates a.source (concluded.ends e).2 := by
  intro concluded
  have hnoted : ∃ e₁, (noteHeadline a.source).ends e = (.ok (), e₁) ∧ e.Idles e₁ := by
    unfold noteHeadline
    rw [ends_bind_ok (ends_look e)]
    split
    · exact ⟨_, rfl, Board.rests_of_cards_eq rfl rfl rfl rfl rfl rfl, rfl, fun _ => rfl⟩
    · exact ⟨e, rfl, .refl none _, rfl, fun _ => rfl⟩
  obtain ⟨e₁, hnoted, hidles₁⟩ := hnoted
  let e₂ : Engine := { e₁ with
    activations := e₁.activations.modify x ({ · with stage := .executed }) }
  have hidles₂ : e.Idles e₂ := ⟨hidles₁.board, hidles₁.abilities, hidles₁.entries⟩
  have hmark : (modifyActivation x ({ · with stage := .executed })).ends e₁ = (.ok (), e₂) := rfl
  have hends : concluded.ends e = (do
      discardPlayed a.source
      raise (.abilityResolved activation.ability a.source activation.player) (.emitted x)
      discard (post (.complete x)) : Play Engine Unit).ends e₂ := by
    show (noteHeadline a.source >>= _).ends e = _
    rw [ends_bind_ok hnoted, ends_bind_ok hmark]
  have hrest : (do
      raise (.abilityResolved activation.ability a.source activation.player) (.emitted x)
      discard (post (.complete x)) : Play Engine Unit).Chains Tends :=
    .bind (handles_tends.raise _ _) fun _ => .discard (tends_post _)
  have hdiscard : e₂.Tends ((discardPlayed a.source).ends e₂).2 ∨
      e₂.Relocates a.source ((discardPlayed a.source).ends e₂).2 := by
    unfold discardPlayed
    rw [ends_bind_ok (ends_look e₂)]
    split
    · rw [ends_discard]
      exact moveCard_relocates a.source .discardPile e₂
    · exact .inl (.refl e₂)
  rw [hends]
  exact behind_bind (P := fun e' => e.Tends e' ∨ e.Relocates a.source e')
    (fun htends h => h.imp (·.trans htends) (·.tends htends)) (fun _ => hrest)
    (hdiscard.imp hidles₂.tends.trans hidles₂.relocates)

/-! ## Attaching -/

/-- An ability is attached, and an entry is made for it if it listens where its card is. -/
structure Attaches (e : Engine) (c : CardId) (design : Design) (card : Card) (ability : Ability)
    (e' : Engine) : Prop where
  found : e.board.card? c = some card
  built : design.build card = .ok ability
  board : e'.board = e.board
  abilities : e'.abilities = e.abilities ++ [ability]
  others : ∀ a : AbilityId, a.number ≠ e.abilities.length → e'.entry a = e.entry a
  entry : if ability.listensIn card.location then
      e.registrar.isRegistered ⟨e.abilities.length⟩ ∧
        e'.entry ⟨e.abilities.length⟩ = e.entry ⟨e.abilities.length⟩ ∨
      (e.entry ⟨e.abilities.length⟩).Enters ability (e'.entry ⟨e.abilities.length⟩)
    else e'.entry ⟨e.abilities.length⟩ = e.entry ⟨e.abilities.length⟩

theorem addAbility_attaches (c : CardId) (design : Design) (e : Engine) :
    ((addAbility c design).ends e).2 = e ∨
      ∃ card ability, e.Attaches c design card ability ((addAbility c design).ends e).2 := by
  have hget := getCard_ends c e
  unfold addAbility
  cases hcard : e.board.card? c with
  | none =>
    rw [hcard] at hget
    rw [ends_bind_error hget]
    exact .inl rfl
  | some card =>
    rw [hcard] at hget
    rw [ends_bind_ok hget]
    cases hbuild : design.build card with
    | error err =>
      rw [ends_bind_error (ends_ofExcept _ e)]
      exact .inl rfl
    | ok ability =>
      rw [ends_bind_ok (ends_ofExcept _ e), ends_bind_ok (ends_look e),
        ends_bind_ok (ends_trace _ e), ends_bind_ok (ends_change _ e)]
      let e₁ : Engine := { e with abilities := e.abilities ++ [ability] }
      have hability : e₁.ability? ⟨e.abilities.length⟩ = some ability := by
        simp [Engine.ability?, e₁]
      refine .inr ⟨card, ability, ?_⟩
      have hentries : ∀ a, e₁.entry a = e.entry a := fun _ => rfl
      by_cases hlistens : ability.listensIn card.location
      · obtain ⟨e₂, hends, htouches, hentry⟩ := register_touches hability
        rw [if_pos hlistens, ends_bind_ok hends]
        refine ⟨hcard, hbuild, htouches.board, htouches.abilities, fun a ha => ?_, ?_⟩
        · refine (htouches.others a fun heq => ha ?_).trans (hentries a)
          rw [heq]
        · rw [if_pos hlistens]
          rcases hentry with ⟨rfl, hregistered⟩ | henters
          · exact .inl ⟨hregistered, hentries _⟩
          · exact .inr henters
      · rw [if_neg hlistens]
        refine ⟨hcard, hbuild, rfl, rfl, fun a _ => hentries a, ?_⟩
        rw [if_neg hlistens]
        exact hentries _

/-! ## Firing -/

/-- The count of an ability goes back to zero if a subscription of the ability says so. -/
def Entry.hear (s : Entry) (event : EventName) : Entry :=
  if s.subscriptions.any fun s => s.event = event && s.listener = .resetUsage then
    { s with counter := s.counter.map (·.reset) }
  else s

/-- Every ability hears of an event. -/
structure Hears (event : EventName) (e e' : Engine) : Prop where
  board : e'.board = e.board
  abilities : e'.abilities = e.abilities
  entries : ∀ a, e'.entry a = (e.entry a).hear event

/-- Listeners that are told reset the counters of those abilities that are to be reset. -/
theorem notifyEach_entries (l : List Subscription) (e : Engine) :
    ∃ e', (notifyEach l).ends e = (.ok (), e') ∧ e'.board = e.board ∧ e'.abilities = e.abilities ∧
      e'.registrar = e.registrar ∧ ∀ a, e'.usage.counters.get? a =
        if l.any (fun s => s.ability = a && s.listener = .resetUsage) then
          (e.usage.counters.get? a).map (·.reset) else e.usage.counters.get? a := by
  induction l generalizing e with
  | nil => exact ⟨e, rfl, rfl, rfl, rfl, fun _ => rfl⟩
  | cons s rest ih =>
    have hnotify : ∃ e₁, (notify s).ends e = (.ok (), e₁) ∧ e₁.board = e.board ∧
        e₁.abilities = e.abilities ∧ e₁.registrar = e.registrar ∧ ∀ a, e₁.usage.counters.get? a =
          if s.ability = a ∧ s.listener = .resetUsage then (e.usage.counters.get? a).map (·.reset)
          else e.usage.counters.get? a := by
      unfold notify
      cases hlistener : s.listener with
      | resetUsage =>
        refine ⟨_, rfl, rfl, rfl, rfl, fun a => ?_⟩
        refine (IdMap.get?_modify _ _ _ _).trans ?_
        simp
      | trigger | clearActivations =>
        exact ⟨_, rfl, rfl, rfl, rfl, fun a => (if_neg fun h => by simp at h).symm⟩
    obtain ⟨e₁, hends₁, hboard₁, habilities₁, hregistrar₁, hcounters₁⟩ := hnotify
    obtain ⟨e', hends', hboard', habilities', hregistrar', hcounters'⟩ := ih e₁
    refine ⟨e', (ends_bind_ok hends₁ _).trans hends', hboard'.trans hboard₁,
      habilities'.trans habilities₁, hregistrar'.trans hregistrar₁, fun a => ?_⟩
    -- To reset a counter twice is to reset it once.
    have htwice : ((e.usage.counters.get? a).map (·.reset)).map (·.reset) =
        (e.usage.counters.get? a).map (·.reset) := by
      rw [Option.map_map]
      rfl
    rw [hcounters', hcounters₁, List.any_cons]
    by_cases hs : s.ability = a ∧ s.listener = .resetUsage
    · rw [if_pos hs, htwice]
      simp [hs]
    · rw [if_neg hs]
      have hfalse : (decide (s.ability = a) && decide (s.listener = .resetUsage)) = false := by
        simpa using hs
      rw [hfalse, Bool.false_or]

/-- Where all that listen to an event are notified, every ability hears of it. -/
theorem notifyEach_hears (event : EventName) (e : Engine) :
    e.Hears event ((notifyEach (e.registrar.listenersFor event)).ends e).2 := by
  obtain ⟨e₁, hends, hboard, habilities, hregistrar, hcounters⟩ :=
    notifyEach_entries (e.registrar.listenersFor event) e
  rw [hends]
  refine ⟨hboard, habilities, fun a => ?_⟩
  have hlisten : (e.registrar.listenersFor event).any
      (fun s => s.ability = a && s.listener = .resetUsage) =
      (e.registrar.of a).any fun s => s.event = event && s.listener = .resetUsage := by
    unfold Registrar.listenersFor
    rw [Registrar.of_eq_filter, List.any_filter, List.any_filter]
    refine congrArg (e.registrar.subscriptions.any) (funext fun s => ?_)
    rw [Bool.and_left_comm]
  unfold Entry.hear entry
  rw [hcounters, hregistrar, hlisten]
  split <;> rfl

/-- Where a window goes on, nobody hears of anything else. -/
theorem Hears.requeued {event : EventName} {e e₁ : Engine} (h : e.Hears event e₁)
    (fired : GameEvent) (pending : List TriggerCandidate) :
    e.Hears event (e₁.requeued fired pending) := by
  cases pending with
  | nil => exact h
  | cons c rest => exact ⟨h.board, h.abilities, h.entries⟩

/-- Where an event fires, every ability hears of it. -/
theorem openWindow_hears (event : GameEvent) (e : Engine) :
    e.Hears event.name ((openWindow event).ends e).2 := by
  obtain ⟨e₁, hnotify, hends⟩ := openWindow_ends event e
  have hears := notifyEach_hears event.name e
  rw [hnotify] at hears
  rw [hends]
  exact hears.requeued event _

theorem rests_openWindow (event : GameEvent) : (openWindow event).Chains Rests :=
  .single fun e => by
    unfold Rests
    rw [(openWindow_hears event e).board]
    exact .refl none _

theorem rests_addAbility (c : CardId) (design : Design) :
    (addAbility c design).Chains Rests :=
  .single fun e => by
    unfold Rests
    rcases addAbility_attaches c design e with hsame | ⟨card, ability, hattaches⟩
    · rw [hsame]
      exact .refl none _
    · rw [hattaches.board]
      exact .refl none _

end Engine

/-! ## All deeds -/

namespace Moment

variable {m : Moment} {d : Deed} {e e' : Engine}

/-- The order that is given by a deed. -/
def gives (m : Moment) (d : Deed) : Option Order :=
  match m.running, d with
  | none, .call (.order o) => some o
  | some ⟨_, .order o _⟩, .go => some o
  | _, _ => none

/-- What a deed does to cards and entries. -/
inductive Alters (m : Moment) (d : Deed) (e e' : Engine) : Prop where
  | tends (h : e.Tends e')
  | relocates (c : CardId) (h : e.Relocates c e')
  /-- A payment is taken back on a board that was untidy before. -/
  | refunds (huntidy : ¬e.board.Tidy) (hstirs : e.board.Stirs e'.board) (h : e.SameEntries e')
  /-- A card is moved with no regard to its abilities. -/
  | shifts (c : CardId) (l : Location) (hgives : m.gives d = some (.shift c l))
      (hstirs : e.board.Stirs e'.board) (h : e.SameEntries e')
  | registers (a : AbilityId) {ability : Ability} (hgives : m.gives d = some (.register a))
      (hability : e.ability? a = some ability) (h : e.Touches a e')
      (henters : (e.entry a).Enters ability (e'.entry a))
  | unregisters (a : AbilityId) (hgives : m.gives d = some (.unregister a)) (h : e.Touches a e')
      (hentry : e'.entry a = .empty)
  | attaches (c : CardId) (design : Design) (card : Card) (ability : Ability)
      (h : e.Attaches c design card ability e')
  | hears (event : GameEvent) (hfires : m.fires? d = some event) (h : e.Hears event.name e')
  /-- The board is set up. -/
  | sets (f : Board → Board) (hd : d = .call (.board f)) (hboard : e'.board = f e.board)
      (h : e.SameEntries e')

/-- The queue and what is filed do not matter. -/
theorem Alters.congr {e₁ e₁' : Engine} (h : m.Alters d e e') (hboard : e₁.board = e.board)
    (habilities : e₁.abilities = e.abilities) (hregistrar : e₁.registrar = e.registrar)
    (husage : e₁.usage = e.usage) (hboard' : e₁'.board = e'.board)
    (habilities' : e₁'.abilities = e'.abilities) (hregistrar' : e₁'.registrar = e'.registrar)
    (husage' : e₁'.usage = e'.usage) : m.Alters d e₁ e₁' := by
  obtain ⟨board, abilities, registrar, usage, _, _, _, _⟩ := e
  obtain ⟨board', abilities', registrar', usage', _, _, _, _⟩ := e'
  obtain ⟨_, _, _, _, _, _, _, _⟩ := e₁
  obtain ⟨_, _, _, _, _, _, _, _⟩ := e₁'
  cases hboard; cases habilities; cases hregistrar; cases husage
  cases hboard'; cases habilities'; cases hregistrar'; cases husage'
  cases h with
  | tends h => exact .tends ⟨h.board, h.abilities, h.entries⟩
  | relocates c h => exact .relocates c ⟨h.board, h.abilities, h.entries, h.inStep⟩
  | refunds huntidy hstirs h => exact .refunds huntidy hstirs ⟨h.abilities, h.entries⟩
  | shifts c l hgives hstirs h => exact .shifts c l hgives hstirs ⟨h.abilities, h.entries⟩
  | registers a hgives hability h henters =>
    exact .registers a hgives hability ⟨h.board, h.abilities, h.others⟩ henters
  | unregisters a hgives h hentry =>
    exact .unregisters a hgives ⟨h.board, h.abilities, h.others⟩ hentry
  | attaches c design card ability h =>
    exact .attaches c design card ability
      ⟨h.found, h.built, h.board, h.abilities, h.others, h.entry⟩
  | hears event hfires h => exact .hears event hfires ⟨h.board, h.abilities, h.entries⟩
  | sets f hd hboard h => exact .sets f hd hboard ⟨h.abilities, h.entries⟩

/-- A play that runs as a step does what it does without the queue. -/
theorem Alters.asStep {q : StepQueue} (h : m.Alters d { e with queue := q } e') :
    m.Alters d e e'.finished :=
  h.congr rfl rfl rfl rfl rfl rfl rfl rfl

/-- A chain of plays that tend the engine tends it. -/
theorem alters_of_chain (h : Relation.ReflTransGen Engine.Tends e e') : m.Alters d e e' :=
  .tends (Engine.tends_of_chain h)

theorem alters_refl (m : Moment) (d : Deed) (e : Engine) : m.Alters d e e := .tends (.refl e)

/-! ### Events -/

/-- While no script runs no use is counted. -/
theorem countedBy_idle (hrunning : m.running = none) (d : Deed) :
    m.countedBy (m.occurrence d) = m.engine := by
  have hnone : ∀ x, m.occurrence d ≠ some (x, .counted) := by
    obtain ⟨e, running⟩ := m
    obtain rfl : running = none := hrunning
    intro x ho
    cases d with
    | turn =>
      obtain ⟨sq, -, ho⟩ := Option.bind_eq_some_iff.mp ho
      unfold Engine.occurrence at ho
      split at ho
      · split at ho <;> simp at ho
      · simp at ho
      · simp at ho
      · simp at ho
    | _ => simp [occurrence] at ho
  cases ho : m.occurrence d with
  | none => rfl
  | some xo =>
    obtain ⟨x, o⟩ := xo
    cases o with
    | counted => exact absurd ho (hnone x)
    | _ => rfl

/-- Where an event fires, every ability hears of it. -/
theorem hears_of_fires {event : GameEvent} (hfires : m.fires? d = some event) :
    (m.countedBy (m.occurrence d)).Hears event.name (m.after d).engine := by
  obtain ⟨e, running⟩ := m
  unfold fires? at hfires
  split at hfires
  · rename_i hrunning
    obtain rfl : running = none := hrunning
    rw [countedBy_idle rfl]
    split at hfires
    · rename_i i event' x q hbegin
      obtain rfl : event = event' := (Option.some.inj hfires).symm
      let e₁ : Engine := ((Engine.markEmitted x).ends { e with queue := q }).2
      have hears := Engine.openWindow_hears event e₁
      have hafter : (Moment.after ⟨e, none⟩ .turn).engine =
          ((Engine.openWindow event).ends e₁).2.finished := by
        show (turn e).engine = _
        unfold turn
        simp only [hbegin, Engine.opening, Engine.asStep_ends, Engine.runStep_kind]
        rfl
      rw [hafter]
      exact ⟨hears.board, hears.abilities, hears.entries⟩
    · simp at hfires
  · rename_i event' hrunning
    obtain rfl : event = event' := (Option.some.inj hfires).symm
    obtain rfl := hrunning
    have hears := Engine.openWindow_hears event e
    exact ⟨hears.board, hears.abilities, hears.entries⟩
  · simp at hfires

/-! ### Orders -/

theorem order_alters (o : Order) (hgives : m.gives d = some o) (e : Engine) :
    m.Alters d e (o.carryOut.ends e).2 := by
  have hboard : ∀ {α : Type} {p : Play Board α}, p.Chains Board.Rests →
      m.Alters d e ((Engine.onBoard p).ends e).2 := fun hp =>
    alters_of_chain (Engine.tends_onBoard hp e)
  have hround : ∀ f : Board → RoundState,
      m.Alters d e ((Engine.onBoard (change fun b => { b with round := f b })).ends e).2 := fun f =>
    hboard (Board.rests_change_round f)
  cases o with
  | gain p n => exact hboard (Board.rests_gain p n)
  | spend p n => exact hboard (Board.rests_spend p n)
  | modifyRank | setCheatin | restrict => exact hboard (Board.rests_modifyPlayer _ fun _ => rfl)
  | boot c => exact hboard (Board.rests_boot c)
  | unboot c => exact hboard (Board.rests_unboot c)
  | sendHome c => exact hboard (Board.rests_sendHome c)
  | addControl | setInfluence | setBlank | setController =>
    exact hboard (Board.rests_modifyCard _ (fun _ => ⟨rfl, rfl, rfl⟩) fun _ h => h)
  | setPhase | setWindow | setActivePlayer => exact hround _
  | shift c l =>
    have hmoves := Board.moves_of_chain (Board.moves_moveCard c l e.board)
    show m.Alters d e ((discard (Engine.onBoard (Board.moveCard c l))).ends e).2
    rw [ends_discard]
    exact .shifts c l hgives hmoves.stirs ⟨rfl, fun _ => rfl⟩
  | move c l =>
    show m.Alters d e ((discard (Engine.moveCard c l)).ends e).2
    rw [ends_discard]
    exact (Engine.moveCard_relocates c l e).elim .tends (.relocates c)
  | message template args => exact alters_of_chain (Engine.tends_message template args [] e)
  | note line => exact alters_of_chain (Play.Chains.log _ e)
  | register a =>
    show m.Alters d e ((Engine.register a).ends e).2
    cases hability : e.ability? a with
    | none =>
      have hstays : ((Engine.register a).ends e).2 = e := by
        unfold Engine.register
        rw [ends_bind_ok (ends_look e)]
        split
        · rfl
        · rw [ends_bind_error (Engine.getAbility_missing hability)]
      rw [hstays]
      exact alters_refl m d e
    | some ability =>
      obtain ⟨e', hends, htouches, ⟨rfl, -⟩ | henters⟩ := Engine.register_touches hability
      · rw [hends]
        exact alters_refl m d e'
      · rw [hends]
        exact .registers a hgives hability htouches henters
  | unregister a =>
    obtain ⟨e', hends, htouches, hentry⟩ := Engine.unregister_touches a e
    show m.Alters d e ((Engine.unregister a).ends e).2
    rw [hends]
    exact .unregisters a hgives htouches hentry
  | activate a p => exact alters_of_chain (Engine.handles_tends.activate a p e)
  | retract a p => exact alters_of_chain (Engine.handles_tends.retract a p e)
  | respond p n => exact alters_refl m d e
  | resume => exact alters_of_chain (Engine.chains_resume e)
  | withdraw i => exact alters_of_chain (Engine.handles_tends.withdraw i e)
  | beginRound => exact alters_of_chain (Engine.tends_beginRound e)

/-! ### Calls, turns and answers -/

theorem call_alters (hrunning : m.running = none) (c : Call) :
    m.Alters (.call c) m.engine (c.play.ends m.engine).2 := by
  obtain ⟨e, running⟩ := m
  obtain rfl : running = none := hrunning
  cases c with
  | order o =>
    rw [Call.play, ends_discard]
    exact order_alters o rfl e
  | board f => exact .sets f rfl rfl ⟨rfl, fun _ => rfl⟩
  | attach c design =>
    rw [Call.play, ends_discard]
    rcases Engine.addAbility_attaches c design e with hstays | ⟨card, ability, hattaches⟩
    · rw [hstays]
      exact alters_refl _ _ e
    · exact .attaches c design card ability hattaches
  | refresh c => exact alters_of_chain (Engine.tends_refresh c e)
  | clear a => exact alters_of_chain (Engine.tends_clearRetractable a e)
  | raise event change => exact alters_of_chain (Engine.handles_tends.raise event _ e)
  | queue label body => exact alters_of_chain (Play.Chains.discard (Engine.tends_post _) e)
  | ask player title buttons source answers =>
    exact alters_of_chain (Play.Chains.discard (Engine.tends_post _) e)

theorem resolve_alters (x : ActivationId) (stage : ResolutionStage) (hstage : stage ≠ .execute)
    (e : Engine) : m.Alters d e ((Engine.resolve x stage).ends e).2 := by
  by_cases hfound : ∃ activation a, e.activations.get? x = some activation ∧ activation.isLive ∧
      e.ability? activation.ability = some a
  · obtain ⟨activation, a, hget, hlive, hability⟩ := hfound
    rw [Engine.resolve_live stage hget hlive hability]
    cases stage with
    | payCosts =>
      rcases Engine.payCosts_relocates a x activation e with htends | hrelocates | hrefunds
      · exact .tends htends
      · exact .relocates activation.source hrelocates
      · exact .refunds hrefunds.1 hrefunds.2.1 hrefunds.2.2
    | chooseTargets => exact alters_of_chain (Engine.tends_fillSlots a x activation a.targets e)
    | execute => exact absurd rfl hstage
  · rw [Engine.resolve_idle stage fun activation a hget hlive hability =>
      hfound ⟨activation, a, hget, hlive, hability⟩]
    exact alters_refl m d e

/-- A step that is done as a whole. -/
theorem whole_alters (hrunning : m.running = none) (hfires : m.fires? .turn = none) {s : Step}
    {q : StepQueue} (hbegin : m.engine.queue.begin? = some (s, q))
    (hopening : m.engine.opening s.kind = none) :
    m.Alters .turn m.engine ((Engine.asStep q (Engine.runStep s)).ends m.engine).2 := by
  obtain ⟨e, running⟩ := m
  obtain rfl : running = none := hrunning
  obtain ⟨i, kind⟩ := s
  rw [Engine.asStep_ends, Engine.runStep_kind]
  refine Alters.asStep (q := q) ?_
  dsimp only at hopening hbegin ⊢
  cases kind with
  | task label body => simp [Engine.opening] at hopening
  | prompt p => exact absurd hbegin StepQueue.begin?_ne_prompt
  | window w => exact alters_of_chain (Engine.handles_tends.advance w _)
  | complete x => exact alters_of_chain (Engine.tends_modifyActivation x _ _)
  | event event change =>
    cases change with
    | script body => simp [Engine.opening] at hopening
    | emitted x => simp [fires?, hbegin] at hfires
  | resolve x stage =>
    by_cases hstage : stage = .execute
    · subst hstage
      -- An effect that is not opened does not take place.
      rw [Engine.resolve_idle .execute fun activation a hget hlive hability => ?_]
      · exact alters_refl _ _ _
      · have hget' : e.activations.get? x = some activation := hget
        have hability' : e.ability? activation.ability = some a := hability
        simp [Engine.opening, hget', hability', hlive] at hopening
    · exact resolve_alters x stage hstage _

theorem turn_alters (hrunning : m.running = none) :
    m.Alters .turn m.engine (m.after .turn).engine := by
  cases hfires : m.fires? .turn with
  | some event => exact .hears event hfires (countedBy_idle hrunning .turn ▸ hears_of_fires hfires)
  | none =>
    have hafter : m.after .turn = turn m.engine := by
      unfold Moment.after
      simp only [hrunning]
    rw [hafter]
    unfold turn
    cases hbegin : m.engine.queue.begin? with
    | none => exact alters_refl _ _ _
    | some sq =>
      obtain ⟨s, q⟩ := sq
      dsimp only
      cases hopening : m.engine.opening s.kind with
      | none => exact whole_alters hrunning hfires hbegin hopening
      | some r => exact .tends (Engine.tends_of_eq rfl rfl rfl rfl)

theorem respond_alters (p : PlayerId) (n : Nat) (e : Engine) :
    m.Alters d e (respond e p n).engine := by
  unfold respond
  cases e.queue.beginAnswer? with
  | none => exact alters_refl m d e
  | some ipq =>
    obtain ⟨i, ⟨view, player, reply⟩, q⟩ := ipq
    dsimp only
    split
    · cases reply with
      | script answers => exact .tends (Engine.tends_of_eq rfl rfl rfl rfl)
      | target x slot choices =>
        dsimp only
        rw [Engine.asStep_ends]
        exact Alters.asStep (alters_of_chain (Engine.tends_chooseTarget x slot choices n _))
      | offer x alternatives =>
        dsimp only
        rw [Engine.asStep_ends]
        refine Alters.asStep (q := q) (alters_of_chain ?_)
        exact Play.Chains.ite (Engine.tends_dropActivation x) (Engine.handles_tends.accept x _) _
    · exact alters_refl m d e

/-! ### Scripts -/

/-- A script that goes on, once the use is counted that is counted with its end. -/
theorem go_alters {task : Task} {script : Script} (h : Sound ⟨e, some ⟨task, script⟩⟩) :
    Alters ⟨e, some ⟨task, script⟩⟩ .go
      (countedBy ⟨e, some ⟨task, script⟩⟩ (occurrence ⟨e, some ⟨task, script⟩⟩ .go))
      (go e task script).engine := by
  have hnone : ∀ {script : Script}, script ≠ .done →
      countedBy ⟨e, some ⟨task, script⟩⟩ (occurrence ⟨e, some ⟨task, script⟩⟩ .go) = e := by
    intro script hscript
    rw [occurrence_go e task hscript]
    rfl
  cases script with
  | done =>
    cases task with
    | plain => exact .tends (Engine.tends_of_eq rfl rfl rfl rfl)
    | event event => exact .hears event rfl (hears_of_fires rfl)
    | effect a x activation =>
      have hget : e.activations.get? x = some activation := h.running a x activation rfl
      have hcounted : countedBy ⟨e, some ⟨.effect a x activation, .done⟩⟩
          (occurrence ⟨e, some ⟨.effect a x activation, .done⟩⟩ .go) =
          { e with usage := e.usage.increment activation.ability } := by
        simp only [occurrence, countedBy, counted, hget]
      rw [hcounted]
      have hrelocates := Engine.concluded_relocates a x activation
        { e with usage := e.usage.increment activation.ability }
      exact Alters.congr (hrelocates.elim .tends (.relocates a.source)) rfl rfl rfl rfl
        rfl rfl rfl rfl
  | fail err =>
    rw [hnone (by simp)]
    exact .tends (Engine.tends_of_eq rfl rfl rfl rfl)
  | look next =>
    rw [hnone (by simp)]
    exact alters_refl _ _ e
  | order o next =>
    rw [hnone (by simp)]
    exact order_alters o rfl e
  | raise event change next =>
    rw [hnone (by simp)]
    exact alters_of_chain (Engine.handles_tends.raise event _ e)
  | queue label body next | prompt player title buttons source answers next =>
    rw [hnone (by simp)]
    exact alters_of_chain (Engine.tends_post _ e)

/-- Every deed is of the list, once the use is counted that it counts. -/
theorem Sound.alters (h : m.Sound) (d : Deed) :
    m.Alters d (m.countedBy (m.occurrence d)) (m.after d).engine := by
  obtain ⟨e, running⟩ := m
  cases running with
  | none =>
    rw [countedBy_idle rfl]
    cases d with
    | call c => exact call_alters rfl c
    | turn => exact turn_alters rfl
    | answer p n => exact respond_alters p n e
    | go => exact alters_refl _ _ e
  | some r =>
    obtain ⟨task, script⟩ := r
    cases d with
    | go => exact go_alters h
    | _ => cases task <;> cases script <;> exact alters_refl _ _ e

end Moment

end Doomtown
