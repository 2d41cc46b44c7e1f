import Doomtown.Proofs.Stacks

/-!
# What deeds do to stacks

`Moment.Curates` lists what a deed may do to what can be retracted: it sheds stacks at most, or it
is one of those that start, retract, register or offer something, or fire an event
(`Moment.curates`). `Moment.Restacks` follows from it for the stack of one ability: a deed leaves it
as it is, puts one activation on it, takes the last one off, or drops it, and then for a reason that
`Moment.Drops` names (`Moment.restacks`).
-/

namespace Doomtown

open Play

namespace Moment

variable {m : Moment} {d : Deed} {a : AbilityId}

/-- What a deed does that may work on stacks. -/
inductive Curates (m : Moment) (d : Deed) : Prop where
  | sheds (h : m.engine.Sheds (m.after d).engine) (hquiet : m.fires? d = none)
  | starts (a : AbilityId) (p : PlayerId) {ability : Ability}
      (hgives : m.gives d = some (.activate a p)) (hability : m.engine.ability? a = some ability)
      (haction : ability.isAction)
      (hlegal : Legality.check m.engine.board m.engine.usage ability
        (.new a ability.source p none) = .ok ())
      (hafter : (m.after d).engine = m.engine.entered a (Engine.begun a ability p))
  | retracts (a : AbilityId) (p : PlayerId) {x : ActivationId} {activation : Activation} {b : Board}
      (hgives : m.gives d = some (.retract a p)) (hlatest : m.engine.latestRetractable? a = some x)
      (hget : m.engine.activations.get? x = some activation)
      (hcan : Engine.canRetract m.engine.board p activation)
      (hpay : (Payment.unpayAll activation.receipts).ends m.engine.board = (.ok (), b))
      (hafter : (m.after d).engine = m.engine.retracted a x activation b)
  | unregisters (a : AbilityId) (hgives : m.gives d = some (.unregister a))
      (hafter : (m.after d).engine = { m.engine with
        registrar := m.engine.registrar.unregisterAll a
        usage := m.engine.usage.untrack a
        retractable := m.engine.retractable.filter (·.1 ≠ a) })
  | clears (a : AbilityId) (hd : d = .call (.clear a))
      (hafter : (m.after d).engine = ((Engine.clearRetractable a).ends m.engine).2)
  | attaches (c : CardId) (design : Design) (hd : d = .call (.attach c design))
      (hafter : (m.after d).engine = ((Engine.addAbility c design).ends m.engine).2)
  | sets (f : Board → Board) (hd : d = .call (.board f))
      (hafter : (m.after d).engine = { m.engine with board := f m.engine.board })
  | offers (i : StepId) (w : TriggerWindow) (hstarts : m.starts? d = some ⟨i, .window w⟩)
  | answers (i : StepId) (view : PromptView) (p : PlayerId) (x : ActivationId) (alternatives : Nat)
      (hstarts : m.starts? d = some ⟨i, .prompt ⟨view, p, .offer x alternatives⟩⟩)
      (hafter : ∃ activations q,
        (m.after d).engine = { m.engine with activations := activations, queue := q } ∧
        (∀ y, (activations.get? y).map (·.deactivated) =
            (m.engine.activations.get? y).map (·.deactivated) ∨
          y = x ∧ activations.get? y = none) ∧
        ∀ s ∈ q.order, s.kind.offers → s ∈ m.engine.queue.order)
  | fires (event : GameEvent) (hfires : m.fires? d = some event)

theorem curates_of_sheds {e : Engine} (h : m.engine.Sheds e) (hafter : (m.after d).engine = e)
    (hquiet : m.fires? d = none) : m.Curates d :=
  .sheds (hafter ▸ h) hquiet

/-- A deed that changes nothing. -/
theorem curates_of_stays (hafter : m.after d = m) (hquiet : m.fires? d = none) : m.Curates d :=
  curates_of_sheds (Engine.Trims.refl _).toSheds (congrArg Moment.engine hafter) hquiet

theorem curates_of_trims {α : Type} {p : Play Engine α} (hp : p.Chains Engine.Trims)
    (hafter : (m.after d).engine = (p.ends m.engine).2) (hquiet : m.fires? d = none) :
    m.Curates d :=
  curates_of_sheds (Engine.trims_of_chain (hp _)).toSheds hafter hquiet

theorem curates_of_order {o : Order} (hgives : m.gives d = some o) (hquiet : m.fires? d = none) :
    m.Curates d := by
  have hafter := (after_gives hgives).1
  cases o with
  | activate a p =>
    have hactivates := m.engine.activate_activates a p
    change (m.after d).engine = ((Engine.activate a p).ends m.engine).2 at hafter
    generalize (Engine.activate a p).ends m.engine = ending at hactivates hafter
    cases hactivates with
    | unknown | refused | illegal =>
      -- At most a number was given away.
      refine curates_of_sheds (Engine.Trims.toSheds ?_) hafter hquiet
      refine Engine.trims_of_eq ?_ ?_ ?_ ?_ ?_ fun _ hs _ => hs <;> rfl
    | started hability haction hlegal => exact .starts a p hgives hability haction hlegal hafter
  | retract a p =>
    have hretracts := m.engine.retract_ends a p
    change (m.after d).engine = ((Engine.retract a p).ends m.engine).2 at hafter
    generalize (Engine.retract a p).ends m.engine = ending at hretracts hafter
    cases hretracts with
    | refused => exact curates_of_sheds (Engine.Trims.refl _).toSheds hafter hquiet
    | failed _ _ _ hpay =>
      exact curates_of_sheds (Engine.sheds_board (Payment.sameTypes_of_unpayAll hpay)) hafter hquiet
    | retracted hlatest hget hcan hpay => exact .retracts a p hgives hlatest hget hcan hpay hafter
  | unregister a => exact .unregisters a hgives (hafter.trans (Engine.unregister_ends a m.engine))
  | _ => exact curates_of_sheds (Engine.sheds_order _ rfl m.engine) hafter hquiet

theorem curates_call (hrunning : m.running = none) (c : Call) : m.Curates (.call c) := by
  obtain ⟨e, running⟩ := m
  obtain rfl : running = none := hrunning
  cases c with
  | order o => exact curates_of_order rfl rfl
  | board f => exact .sets f rfl rfl
  | attach c design => exact .attaches c design rfl (congrArg Prod.snd (ends_discard _ e))
  | refresh c => exact curates_of_trims (Engine.trims_refresh c) rfl rfl
  | clear a => exact .clears a rfl rfl
  | raise event change => exact curates_of_trims (Engine.trims_raise event _) rfl rfl
  | queue label body | ask player title buttons source answers =>
    exact curates_of_trims (.discard (Engine.trims_post rfl)) rfl rfl

theorem curates_turn (hrunning : m.running = none) (hquiet : m.fires? .turn = none) :
    m.Curates .turn := by
  obtain ⟨e, running⟩ := m
  obtain rfl : running = none := hrunning
  have hafter : Moment.after ⟨e, none⟩ .turn = turn e := rfl
  cases hbegin : e.queue.begin? with
  | none => exact curates_of_stays (by rw [hafter, turn, hbegin]) hquiet
  | some sq =>
    obtain ⟨s, q⟩ := sq
    have horder := (StepQueue.frontTaken_begin hbegin).order
    have hq : ∀ t ∈ q.order, t ∈ e.queue.order := fun t ht => by
      rw [horder]
      exact List.mem_cons_of_mem s ht
    simp only [turn, hbegin] at hafter
    cases hopening : e.opening s.kind with
    | some r =>
      rw [hopening] at hafter
      exact curates_of_sheds (Engine.trims_queue hq).toSheds (congrArg Moment.engine hafter) hquiet
    | none =>
      rw [hopening] at hafter
      obtain ⟨i, kind⟩ := s
      cases hoffers : kind.offers with
      | true =>
        -- A prompt waits for its answer, so it is a window.
        obtain ⟨w, rfl⟩ : ∃ w, kind = .window w := by
          cases kind with
          | window w => exact ⟨w, rfl⟩
          | prompt p => exact absurd hbegin StepQueue.begin?_ne_prompt
          | _ => simp [StepKind.offers] at hoffers
        exact .offers i w (by simp [starts?, hbegin])
      | false =>
        refine .sheds ?_ hquiet
        rw [hafter]
        dsimp only
        rw [Engine.asStep_ends]
        refine Engine.Sheds.asStep (q := q) (Engine.sheds_runStep hopening hoffers ?_) hq
        -- An event either runs its script, or it fires at once.
        rintro event c rfl
        cases c with
        | script body => simp [Engine.opening] at hopening
        | emitted x => simp [fires?, hbegin] at hquiet

theorem curates_answer (hrunning : m.running = none) (p : PlayerId) (n : Nat) :
    m.Curates (.answer p n) := by
  obtain ⟨e, running⟩ := m
  obtain rfl : running = none := hrunning
  have hafter : Moment.after ⟨e, none⟩ (.answer p n) = respond e p n := rfl
  cases hbegin : e.queue.beginAnswer? with
  | none => exact curates_of_stays (by rw [hafter, respond, hbegin]) rfl
  | some ipq =>
    obtain ⟨i, prompt, q⟩ := ipq
    have horder := (StepQueue.frontTaken_beginAnswer hbegin).order
    have hq : ∀ t ∈ q.order, t ∈ e.queue.order := fun t ht => by
      rw [horder]
      exact List.mem_cons_of_mem _ ht
    simp only [respond, hbegin] at hafter
    by_cases hvalid : n < prompt.buttons.length ∧ prompt.player = p
    · rw [if_pos hvalid] at hafter
      obtain ⟨view, player, reply⟩ := prompt
      cases reply with
      | script answers =>
        exact curates_of_sheds (Engine.trims_queue hq).toSheds (congrArg Moment.engine hafter) rfl
      | target x slot choices =>
        refine .sheds ?_ rfl
        rw [hafter]
        dsimp only
        rw [Engine.asStep_ends]
        exact Engine.Sheds.asStep (q := q)
          (Engine.trims_of_chain (Engine.trims_chooseTarget x slot choices n _)).toSheds hq
      | offer x alternatives =>
        have hstarts : starts? ⟨e, none⟩ (.answer p n) =
            some ⟨i, .prompt ⟨view, player, .offer x alternatives⟩⟩ := by
          simp only [starts?, hbegin]
          exact if_pos hvalid
        refine .answers i view player x alternatives hstarts ?_
        rw [hafter]
        dsimp only
        rw [Engine.asStep_ends]
        obtain ⟨activations, q', hends, hothers, hoffers⟩ :=
          Engine.answerOffer_ends n x alternatives { e with queue := q }
        rw [hends]
        exact ⟨activations, q'.finish, rfl, hothers, fun s hs hs' => hq s (hoffers s hs hs')⟩
    · rw [if_neg hvalid] at hafter
      exact curates_of_stays hafter rfl

theorem curates_go {e : Engine} {task : Task} {script : Script}
    (hquiet : fires? ⟨e, some ⟨task, script⟩⟩ .go = none) :
    Curates ⟨e, some ⟨task, script⟩⟩ .go := by
  cases script with
  | done =>
    cases task with
    | plain => exact .sheds e.trims_finished.toSheds hquiet
    | event event => simp [fires?] at hquiet
    | effect a x activation =>
      exact .sheds ((Engine.sheds_conclude a x activation e).trims (Engine.trims_finished _)) hquiet
  | fail err => exact .sheds e.trims_finished.toSheds hquiet
  | look next => exact .sheds (Engine.Trims.refl e).toSheds hquiet
  | order o next => exact curates_of_order rfl hquiet
  | raise event change next => exact curates_of_trims (Engine.trims_raise event _) rfl hquiet
  | queue label body next | prompt player title buttons source answers next =>
    exact curates_of_trims (Engine.trims_post rfl) rfl hquiet

/-- Whatever a deed does to stacks, it does in one of these ways. -/
theorem curates (m : Moment) (d : Deed) : m.Curates d := by
  cases hfires : m.fires? d with
  | some event => exact .fires event hfires
  | none =>
    obtain ⟨e, running⟩ := m
    cases running with
    | none =>
      cases d with
      | call c => exact curates_call rfl c
      | turn => exact curates_turn rfl hfires
      | answer p n => exact curates_answer rfl p n
      | go => exact curates_of_stays rfl hfires
    | some r =>
      obtain ⟨task, script⟩ := r
      cases d with
      | go => exact curates_go hfires
      | _ => exact curates_of_stays rfl hfires

/-! ## The stack of one ability -/

variable {event : GameEvent} {i : StepId}

/-- An event fires on the game as it is, but for the step that fires it and the activation that
announces it. -/
theorem after_fires_from (hfires : m.fires? d = some event) :
    ∃ e₀ : Engine, m.after d = ⟨((Engine.openWindow event).ends e₀).2.finished, none⟩ ∧
      e₀.board = m.engine.board ∧ e₀.abilities = m.engine.abilities ∧
      e₀.registrar = m.engine.registrar ∧ e₀.retractable = m.engine.retractable ∧
      (∀ x, (e₀.activations.get? x).map (·.deactivated) =
        (m.engine.activations.get? x).map (·.deactivated)) ∧
      ∀ s ∈ e₀.queue.order, s ∈ m.engine.queue.order := by
  obtain ⟨e, running⟩ := m
  unfold fires? at hfires
  split at hfires
  · rename_i hrunning
    obtain rfl : running = none := hrunning
    split at hfires
    · rename_i i _ x q hbegin
      obtain rfl := Option.some.inj hfires
      -- The event of an activation is noted in its record before it fires.
      refine ⟨((Engine.markEmitted x).ends { e with queue := q }).2, ?_, rfl, rfl, rfl, rfl,
        Engine.get?_modify_deactivated (fun _ => by rfl) e.activations x, fun s hs => ?_⟩
      · show turn e = _
        unfold turn
        simp only [hbegin, Engine.opening, Engine.asStep_ends, Engine.runStep_kind]
        rfl
      · show s ∈ e.queue.order
        rw [(StepQueue.frontTaken_begin hbegin).order]
        exact List.mem_cons_of_mem _ hs
    · simp at hfires
  · rename_i hrunning
    obtain rfl := Option.some.inj hfires
    obtain rfl := hrunning
    exact ⟨e, rfl, rfl, rfl, rfl, rfl, fun _ => rfl, fun _ hs => hs⟩
  · simp at hfires

/-- What is left of the game when the window of an event is opened: the stacks are dropped that are to
be cleared on it, with their records, and no other. -/
structure Opens (m : Moment) (event : GameEvent) (e : Engine) : Prop where
  board : e.board = m.engine.board
  abilities : e.abilities = m.engine.abilities
  registrar : e.registrar = m.engine.registrar
  queue : ∀ s ∈ e.queue.order, s ∈ m.engine.queue.order
  eachStack : ∀ a, e.stack a = if m.engine.clearsOn event.name a then [] else m.engine.stack a
  filed : ∀ x,
    (e.activations.get? x).map (·.deactivated) =
      (m.engine.activations.get? x).map (·.deactivated) ∨
    e.activations.get? x = none ∧ ∃ a, m.engine.clearsOn event.name a ∧ x ∈ m.engine.stack a

/-- Where an event fires, its window is opened at most. -/
theorem opens_of_fires (hfires : m.fires? d = some event) :
    ∃ e : Engine, m.after d =
        ⟨(e.requeued event (e.collect event).pending).finished, none⟩ ∧ m.Opens event e := by
  obtain ⟨e₀, hafter, hboard, habilities, hregistrar, hretractable, hfiled, hqueue⟩ :=
    after_fires_from hfires
  obtain ⟨e, hopened, hclears⟩ := Engine.openWindow_clears event e₀
  have hstack := Engine.stack_congr hretractable
  have hcleared : e₀.clearsOn event.name = m.engine.clearsOn event.name := by
    unfold Engine.clearsOn
    rw [hregistrar]
  refine ⟨e, by rw [hafter, hopened], hclears.board.trans hboard,
    hclears.abilities.trans habilities, hclears.registrar.trans hregistrar, fun s hs => ?_,
    fun a => ?_, fun x => ?_⟩
  · exact hqueue s (hclears.queue ▸ hs)
  · rw [hclears.eachStack, hcleared, hstack]
  · rcases hclears.filed x with hsame | ⟨hgone, a, ha, hmem⟩
    · exact .inl (by rw [hsame, hfiled])
    · exact .inr ⟨hgone, a, hcleared ▸ ha, hstack a ▸ hmem⟩

/-- The window that is queued changes nothing of what is left. -/
theorem stack_after_fires (hfires : m.fires? d = some event) (a : AbilityId) :
    (m.after d).engine.stack a =
        (if m.engine.clearsOn event.name a then [] else m.engine.stack a) ∧
      (m.after d).engine.registrar = m.engine.registrar ∧
      (m.after d).engine.board = m.engine.board := by
  obtain ⟨e, hafter, hopens⟩ := opens_of_fires hfires
  obtain ⟨q, hrequeued⟩ := e.requeued_eq event (e.collect event).pending
  rw [hafter, hrequeued]
  exact ⟨hopens.eachStack a, hopens.registrar, hopens.board⟩

/-- A window with nothing to offer is over. -/
theorem after_window_nil {event : GameEvent}
    (hstarts : m.starts? d = some ⟨i, .window ⟨event, []⟩⟩) :
    ∃ q, m.engine.queue.FrontTaken ⟨i, .window ⟨event, []⟩⟩ q ∧
      (m.after d).engine = Engine.finished { m.engine with queue := q } := by
  cases d with
  | turn =>
    obtain ⟨q, -, hbegin, hafter⟩ := begin?_of_starts hstarts
    simp only [turn, hbegin, Engine.opening, Engine.asStep_ends, Engine.runStep_kind] at hafter
    exact ⟨q, StepQueue.frontTaken_begin hbegin, congrArg Moment.engine hafter⟩
  | answer =>
    obtain ⟨_, _, _, -, -, hstep, -⟩ := beginAnswer?_of_starts hstarts
    simp at hstep
  | _ => cases hr : m.running <;> simp [starts?, hr] at hstarts

/-- A window that offers an ability leaves cards and stacks alone. -/
theorem after_window_frame {w : TriggerWindow} (hstarts : m.starts? d = some ⟨i, .window w⟩) :
    (m.after d).engine.board = m.engine.board ∧
      (m.after d).engine.registrar = m.engine.registrar ∧
      (m.after d).engine.retractable = m.engine.retractable := by
  obtain ⟨event, pending⟩ := w
  cases pending with
  | nil =>
    obtain ⟨q, -, hafter⟩ := after_window_nil hstarts
    rw [hafter]
    exact ⟨rfl, rfl, rfl⟩
  | cons c rest =>
    obtain ⟨back, e₁, -, -, hoffers, hafter⟩ := after_window hstarts
    obtain ⟨q, hrequeued⟩ := e₁.requeued_eq event rest
    rw [hafter, hrequeued]
    cases hoffers with
    | unknown | skipped | entered => exact ⟨rfl, rfl, rfl⟩

/-- Why a stack is dropped. -/
inductive Drops (m : Moment) (d : Deed) (a : AbilityId) : Prop where
  /-- The ability's card is at none of its locations any more. -/
  | away (haway : (m.after d).engine.inPlace a = false)
  | unregistered (hgives : m.gives d = some (.unregister a))
  | cleared (hd : d = .call (.clear a))
  | fired (event : GameEvent) (hfires : m.fires? d = some event)
      (hclears : m.engine.clearsOn event.name a)

/-- What a deed does to the stack of an ability. -/
inductive Restacks (m : Moment) (d : Deed) (a : AbilityId) : Prop where
  | keeps (hstack : (m.after d).engine.stack a = m.engine.stack a)
      (hregistered : m.engine.registrar.isRegistered a →
        (m.after d).engine.registrar.isRegistered a)
      (hquiet : ∀ event, m.fires? d = some event → m.engine.clearsOn event.name a = false)
  | starts (p : PlayerId) {ability : Ability} (hgives : m.gives d = some (.activate a p))
      (hability : m.engine.ability? a = some ability) (haction : ability.isAction)
      (hlegal : Legality.check m.engine.board m.engine.usage ability
        (.new a ability.source p none) = .ok ())
      (hafter : (m.after d).engine = m.engine.entered a (Engine.begun a ability p))
  | retracts (p : PlayerId) {x : ActivationId} {activation : Activation} {b : Board}
      (hgives : m.gives d = some (.retract a p)) (hlatest : m.engine.latestRetractable? a = some x)
      (hget : m.engine.activations.get? x = some activation)
      (hcan : Engine.canRetract m.engine.board p activation)
      (hafter : (m.after d).engine = m.engine.retracted a x activation b)
  | drops (hnil : (m.after d).engine.stack a = []) (hwhy : m.Drops d a)

theorem restacks_of_other (hstack : (m.after d).engine.stack a = m.engine.stack a)
    (hregistered : m.engine.registrar.isRegistered a → (m.after d).engine.registrar.isRegistered a)
    (hquiet : m.fires? d = none) : m.Restacks d a :=
  .keeps hstack hregistered fun event hfires => by simp [hquiet] at hfires

theorem restacks_of_same (hretractable : (m.after d).engine.retractable = m.engine.retractable)
    (hregistrar : (m.after d).engine.registrar = m.engine.registrar)
    (hquiet : m.fires? d = none) : m.Restacks d a :=
  restacks_of_other (Engine.stack_congr hretractable a) (fun hr => hregistrar ▸ hr) hquiet

/-- Calls fire no event. -/
theorem quiet_call (m : Moment) (c : Call) : m.fires? (.call c) = none := by
  obtain ⟨e, running⟩ := m
  rcases running with _ | ⟨task, script⟩
  · rfl
  · cases task <;> cases script <;> rfl

/-- Steps that offer abilities fire no event. -/
theorem quiet_of_offers {s : Step} (hstarts : m.starts? d = some s) (hoffers : s.kind.offers) :
    m.fires? d = none := by
  cases d with
  | turn =>
    obtain ⟨q, hrunning, hbegin, -⟩ := begin?_of_starts hstarts
    obtain ⟨i, kind⟩ := s
    cases kind <;> simp [fires?, hrunning, hbegin, StepKind.offers] at hoffers ⊢
  | _ => cases hr : m.running <;> simp [starts?, fires?, hr] at hstarts ⊢

/-- While an order is given no event fires. -/
theorem quiet_of_gives {o : Order} (hgives : m.gives d = some o) : m.fires? d = none := by
  unfold gives at hgives
  unfold fires?
  split at hgives
  · rename_i hrunning
    simp [hrunning]
  · rename_i hrunning
    simp [hrunning]
  · simp at hgives

/-- Whatever a deed does to the stack of an ability is of this list. -/
theorem restacks (m : Moment) (d : Deed) (a : AbilityId) : m.Restacks d a := by
  cases m.curates d with
  | sheds h hquiet =>
    rcases h.eachStack a with ⟨hsame, hregistered⟩ | ⟨hnil, haway⟩
    · exact restacks_of_other hsame hregistered hquiet
    · exact .drops hnil (.away haway)
  | starts a' p hgives hability haction hlegal hafter =>
    by_cases ha : a' = a
    · subst ha
      exact .starts p hgives hability haction hlegal hafter
    · refine restacks_of_other ?_ (fun hr => by rw [hafter]; exact hr) (quiet_of_gives hgives)
      rw [hafter]
      exact (Engine.stack_append rfl a).trans (if_neg (Ne.symm ha))
  | retracts a' p hgives hlatest hget hcan _ hafter =>
    by_cases ha : a' = a
    · subst ha
      exact .retracts p hgives hlatest hget hcan hafter
    · refine restacks_of_other ?_ (fun hr => by rw [hafter]; exact hr) (quiet_of_gives hgives)
      rw [hafter]
      exact (Engine.stack_dropLatest rfl a).trans (if_neg (Ne.symm ha))
  | unregisters a' hgives hafter =>
    by_cases ha : a = a'
    · subst ha
      refine .drops ?_ (.unregistered hgives)
      rw [hafter]
      exact (Engine.stack_without rfl a).trans (if_pos rfl)
    · refine restacks_of_other ?_ (fun hr => ?_) (quiet_of_gives hgives)
      · rw [hafter]
        exact (Engine.stack_without rfl a).trans (if_neg ha)
      · rw [hafter]
        exact (Engine.isRegistered_unregisterAll m.engine.registrar ha).trans hr
  | clears a' hd hafter =>
    subst hd
    have hretractable : (m.after (.call (.clear a'))).engine.retractable =
        m.engine.retractable.filter (·.1 ≠ a') := by
      rw [hafter]
      rfl
    have hstack := Engine.stack_without hretractable a
    by_cases ha : a = a'
    · subst ha
      exact .drops (hstack.trans (if_pos rfl)) (.cleared rfl)
    · exact restacks_of_other (hstack.trans (if_neg ha)) (fun hr => by rw [hafter]; exact hr)
        (m.quiet_call _)
  | attaches c design hd hafter =>
    subst hd
    have henrolls := Engine.addAbility_enrolls c design m.engine
    rw [← hafter] at henrolls
    exact restacks_of_other (Engine.stack_congr henrolls.retractable a) (henrolls.registered a)
      (m.quiet_call _)
  | sets f hd hafter =>
    subst hd
    exact restacks_of_same (by rw [hafter]) (by rw [hafter]) (m.quiet_call _)
  | offers i w hstarts =>
    obtain ⟨-, hregistrar, hretractable⟩ := after_window_frame hstarts
    exact restacks_of_same hretractable hregistrar (quiet_of_offers hstarts rfl)
  | answers i view p x alternatives hstarts hafter =>
    obtain ⟨activations, q, hafter, -⟩ := hafter
    exact restacks_of_same (by rw [hafter]) (by rw [hafter]) (quiet_of_offers hstarts rfl)
  | fires event hfires =>
    obtain ⟨hstack, hregistrar, -⟩ := stack_after_fires hfires a
    cases hclears : m.engine.clearsOn event.name a with
    | true => exact .drops (hstack.trans (if_pos hclears)) (.fired event hfires hclears)
    | false =>
      refine .keeps (hstack.trans (if_neg (by simp [hclears]))) (fun hr => hregistrar ▸ hr) ?_
      intro event' hfires'
      obtain rfl := Option.some.inj (hfires.symm.trans hfires')
      exact hclears

end Moment

end Doomtown
