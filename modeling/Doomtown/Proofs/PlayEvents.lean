import Doomtown.Proofs.Conservation
import Doomtown.Proofs.Crossings
import Doomtown.Proofs.Suspension

/-!
# Events of cards that enter and leave play

In a run in which a card is moved as in play only, and nobody raises its events by hand, the events
that it has entered play and that it has left it come in turns. The first one says that it has left
if it was in play when it came onto the board, and at every moment the last one says whether it is
in play (`Moment.events_balance`). That holds however the card is moved: by an order, as the payment
of a cost, back when a payment fails, or to the discard pile once it was played.
-/

namespace Doomtown

open Play
open StepQueue (numbered)

theorem StepQueue.filterMap_numbered (c : CardId) (n : Nat) (kinds : List StepKind) :
    (numbered n kinds).filterMap (·.kind.crossing c) = kinds.filterMap (·.crossing c) := by
  induction kinds generalizing n with
  | nil => rfl
  | cons kind kinds ih => rw [numbered, List.filterMap_cons, List.filterMap_cons, ih]

/-! ## What a play adds to the queue -/

namespace Engine

variable {c : CardId} {e e' : Engine}

/-- What the events that have come into the queue say about the side of a card. -/
def news (c : CardId) (e e' : Engine) : List Bool :=
  (e'.queue.order.filter fun s => e.queue.nextId ≤ s.id.number).filterMap (·.kind.crossing c)

/-- The events that have come into the queue lead a card from where it was to where it is. -/
def Accords (c : CardId) (e e' : Engine) : Prop :=
  Crosses (e.board.inPlay? c) (e.news c e') (e'.board.inPlay? c)

/-- Steps that are no events of a card bring no news of it. -/
theorem news_eq_nil (h : ∀ s ∈ e'.queue.order, s ∈ e.queue.order ∨ s.kind.crossing c = none)
    (hids : ∀ s ∈ e.queue.order, s.id.number < e.queue.nextId) : e.news c e' = [] := by
  refine List.filterMap_eq_nil_iff.mpr fun s hs => ?_
  obtain ⟨hmem, hnew⟩ := List.mem_filter.mp hs
  refine (h s hmem).resolve_left fun hold => ?_
  exact absurd (hids s hold) (Nat.not_lt.mpr (of_decide_eq_true hnew))

theorem Reports.accords (h : e.Reports c e')
    (hids : ∀ s ∈ e.queue.order, s.id.number < e.queue.nextId) : e.Accords c e' := by
  obtain ⟨kinds, hqueue, hcrosses⟩ := h
  unfold Accords news
  rwa [hqueue, StepQueue.filter_pushAll hids, StepQueue.filterMap_numbered]

theorem accords_of_news (hnews : e.news c e' = []) (hrests : e.Rests e') : e.Accords c e' := by
  unfold Accords
  rw [hnews, Board.inPlay?_of_moves hrests (by simp)]
  exact .stays _

theorem accords_refl (hids : ∀ s ∈ e.queue.order, s.id.number < e.queue.nextId) :
    e.Accords c e :=
  accords_of_news (news_eq_nil (fun _ hs => .inl hs) hids) (.refl none _)

/-- Nothing comes into the queue when a step starts. -/
theorem accords_started {s : Step} {rest : List Step}
    (hids : ∀ s ∈ e.queue.order, s.id.number < e.queue.nextId)
    (hfront : e.queue.steps = s :: rest) : e.Accords c { e with queue := e.queue.started rest } := by
  refine accords_of_news (news_eq_nil (fun t ht => .inl ?_) hids) (.refl none _)
  refine StepQueue.mem_order_of_mem_steps ?_
  rw [hfront]
  exact List.mem_cons_of_mem _ ht

/-- A play that runs as a step adds to the queue what it adds to what is left of the queue. -/
theorem accords_asStep {s : Step} {rest : List Step} {e₂ : Engine}
    (hids : ∀ s ∈ e.queue.order, s.id.number < e.queue.nextId) (hfront : e.queue.steps = s :: rest)
    (h : Reports c { e with queue := e.queue.started rest } e₂) : e.Accords c e₂.finished := by
  have hids' : ∀ t ∈ (e.queue.started rest).order, t.id.number < (e.queue.started rest).nextId :=
    fun t ht => hids t (StepQueue.mem_order_of_mem_steps (by
      rw [hfront]
      exact List.mem_cons_of_mem _ ht))
  exact h.accords (e := { e with queue := e.queue.started rest }) hids'

/-! ## Orders -/

/-- An order that starts an activation, retracts one or withdraws a step queues no events. -/
theorem news_order {o : Order} (ho : (∃ a p, o = .activate a p) ∨ (∃ a p, o = .retract a p) ∨
      ∃ i, o = .withdraw i) :
    ∀ s ∈ (o.carryOut.ends e).2.queue.order, s ∈ e.queue.order ∨ s.kind.crossing c = none := by
  have hwithdraw : ∀ i, ∀ s ∈ (e.queue.withdraw i).order, s ∈ e.queue.order := fun i s hs =>
    (e.queue.order_withdraw_sublist i).subset hs
  rcases ho with ⟨a, p, rfl⟩ | ⟨a, p, rfl⟩ | ⟨i, rfl⟩
  · intro s hs
    have hqueue := e.activate_queue a p
    split at hqueue
    · change s ∈ ((activate a p).ends e).2.queue.order at hs
      rw [hqueue, StepQueue.order_pushNext] at hs
      rcases List.mem_cons.mp hs with rfl | hs
      · exact .inr rfl
      · exact .inl hs
    · exact .inl (hqueue ▸ hs)
  · intro s hs
    left
    have hends := retract_ends e a p
    change s ∈ ((retract a p).ends e).2.queue.order at hs
    generalize (retract a p).ends e = ending at hends hs
    cases hends with
    | refused => exact hs
    | failed => exact hs
    | @retracted x activation b hlatest hget _ _ =>
      have hqueue : (e.retracted a x activation b).queue =
          withdrawPrompt e.queue activation.prompt := rfl
      rw [hqueue] at hs
      cases hprompt : activation.prompt with
      | none => rwa [hprompt] at hs
      | some i => exact hwithdraw i s (by rwa [hprompt] at hs)
  · intro s hs
    left
    change s ∈ ((withdraw i).ends e).2.queue.order at hs
    unfold withdraw at hs
    rw [ends_bind_ok (ends_look _)] at hs
    split at hs
    · exact hwithdraw i s hs
    · exact hs

theorem accords_order {o : Order} (hids : ∀ s ∈ e.queue.order, s.id.number < e.queue.nextId)
    (hshift : ∀ l, o ≠ .shift c l) : e.Accords c (o.carryOut.ends e).2 := by
  -- The three orders that do more to the queue than to add behind move no card.
  by_cases ho : (∃ a p, o = .activate a p) ∨ (∃ a p, o = .retract a p) ∨ ∃ i, o = .withdraw i
  · have hnews : e.news c (o.carryOut.ends e).2 = [] := news_eq_nil (news_order ho) hids
    refine accords_of_news hnews (rests_of_chain (rests_order o ?_ ?_ e))
    all_goals
      rintro c' l rfl
      simp at ho
  · push Not at ho
    exact (reports_ends (reports_order o ho.1 ho.2.1 ho.2.2 hshift) e).accords hids

end Engine

/-- An order to move a card on the board, past what follows a move. -/
def Order.shifts (c : CardId) : Order → Bool
  | .shift c' _ => c' = c
  | _ => false

namespace Moment

variable {m : Moment} {d : Deed} {c : CardId}

/-! ## What a deed adds to the queue -/

/-- The event that is raised by hand by a deed. -/
def raises? (m : Moment) (d : Deed) : Option EventData :=
  match m.running, d with
  | none, .call (.raise data _) => some data
  | some ⟨_, .raise data _ _⟩, .go => some data
  | _, _ => none

/-- A deed does not move a card past the game, and raises no event of it by hand. Who arranges the
board leaves the card where it is, or puts it there first; its owner has private zones. -/
structure Plain (c : CardId) (m : Moment) (d : Deed) : Prop where
  orders : (m.gives d).any (·.shifts c) = false
  raises : (m.raises? d).bind (·.crossing c) = none
  setUp : ∀ f, d = .call (.board f) → (f m.engine.board).Owned c ∧
    ((m.engine.board.card? c).isSome →
      (f m.engine.board).location? c = m.engine.board.location? c)

section Deeds

variable {e : Engine}

theorem accords_call {call : Call} (hids : ∀ s ∈ e.queue.order, s.id.number < e.queue.nextId)
    (hplain : Plain c ⟨e, none⟩ (.call call)) (hplays : ∀ f, call ≠ .board f) :
    e.Accords c (call.play.ends e).2 := by
  have hreports : ∀ {p : Play Engine Unit}, p.Chains (Engine.SilentOn c) → p.Chains Engine.Rests →
      e.Accords c (p.ends e).2 := fun hsilent hrests =>
    (Engine.reports_ends (Engine.reports_of_silent hsilent hrests) e).accords hids
  have hpost : ∀ kind : StepKind, (discard (Engine.post kind)).Chains Engine.Rests := fun kind =>
    Engine.rests_of_tends (.discard (Engine.tends_post kind))
  cases call with
  | order o =>
    rw [Call.play, ends_discard]
    refine Engine.accords_order hids fun l ho => ?_
    subst ho
    have horders := hplain.orders
    simp [gives, Order.shifts] at horders
  | board f => exact absurd rfl (hplays f)
  | attach card design =>
    exact hreports (Engine.silent_of_stays (.discard (Engine.stays_addAbility card design)))
      (.discard (Engine.rests_addAbility card design))
  | refresh card =>
    exact hreports (Engine.silent_of_stays (Engine.stays_refresh card))
      (Engine.rests_of_tends (Engine.tends_refresh card))
  | clear ability =>
    exact hreports (Engine.silent_of_stays (Engine.stays_clearRetractable ability))
      (Engine.rests_of_tends (Engine.tends_clearRetractable ability))
  | raise event change =>
    exact hreports (Engine.silent_raise hplain.raises _)
      (Engine.rests_of_tends (Engine.handles_tends.raise event _))
  | queue label body => exact hreports (.discard (Engine.silent_post rfl)) (hpost _)
  | ask player title buttons source answers =>
    exact hreports (.discard (Engine.silent_post rfl)) (hpost _)

theorem accords_turn (hids : ∀ s ∈ e.queue.order, s.id.number < e.queue.nextId)
    (howned : e.board.Owned c) : e.Accords c (turn e).engine := by
  unfold turn
  cases hbegin : e.queue.begin? with
  | none => exact Engine.accords_refl hids
  | some sq =>
    obtain ⟨s, q⟩ := sq
    obtain ⟨rest, -, hfront, rfl⟩ := StepQueue.begin?_eq_some hbegin
    dsimp only
    cases hopening : e.opening s.kind with
    | some r =>
      -- The script that opens is run by later deeds.
      exact Engine.accords_started hids hfront
    | none =>
      dsimp only
      rw [Engine.asStep_ends]
      exact Engine.accords_asStep hids hfront (Engine.reports_runStep s hopening howned)

theorem accords_respond (hids : ∀ s ∈ e.queue.order, s.id.number < e.queue.nextId) (p : PlayerId)
    (n : Nat) : e.Accords c (respond e p n).engine := by
  unfold respond
  cases hbegin : e.queue.beginAnswer? with
  | none => exact Engine.accords_refl hids
  | some ipq =>
    obtain ⟨i, ⟨view, player, reply⟩, q⟩ := ipq
    obtain ⟨rest, -, hfront, rfl⟩ := StepQueue.beginAnswer?_eq_some hbegin
    dsimp only
    split
    · have hstep : ∀ {p : Play Engine Unit}, p.Chains (Engine.SilentOn c) →
          p.Chains Engine.Tends →
          e.Accords c ((Engine.asStep (e.queue.started rest) p).ends e).2 := by
        intro p hsilent htends
        rw [Engine.asStep_ends]
        exact Engine.accords_asStep hids hfront (Engine.reports_ends
          (Engine.reports_of_silent hsilent (Engine.rests_of_tends htends)) _)
      cases reply with
      | script answers => exact Engine.accords_started hids hfront
      | target x slot choices =>
        exact hstep (Engine.silent_chooseTarget x slot choices n)
          (Engine.tends_chooseTarget x slot choices n)
      | offer x alternatives =>
        exact hstep (.ite (Engine.silent_dropActivation x) (Engine.silent_accept x _))
          (.ite (Engine.tends_dropActivation x) (Engine.handles_tends.accept x _))
    · exact Engine.accords_refl hids

theorem accords_go {task : Task} {script : Script}
    (hids : ∀ s ∈ e.queue.order, s.id.number < e.queue.nextId)
    (hplain : Plain c ⟨e, some ⟨task, script⟩⟩ .go) : e.Accords c (go e task script).engine := by
  have hpost : ∀ {kind : StepKind}, kind.crossing c = none →
      e.Accords c ((Engine.post kind).ends e).2 := fun hkind =>
    (Engine.reports_ends (Engine.reports_of_silent (Engine.silent_post hkind)
      (Engine.rests_of_tends (Engine.tends_post _))) e).accords hids
  cases script with
  | done => exact (Engine.reports_ends (Engine.reports_close task) e).accords hids
  | fail err => exact Engine.accords_refl hids
  | look next => exact Engine.accords_refl hids
  | order o next =>
    refine Engine.accords_order hids fun l ho => ?_
    subst ho
    have horders := hplain.orders
    simp [gives, Order.shifts] at horders
  | raise event change next =>
    have hraise : (Engine.raise event (.script change)).Chains (Engine.Reports c) :=
      Engine.reports_of_silent (Engine.silent_raise hplain.raises _)
        (Engine.rests_of_tends (Engine.handles_tends.raise event _))
    exact (Engine.reports_ends hraise e).accords hids
  | queue label body next => exact hpost rfl
  | prompt player title buttons source answers next => exact hpost rfl

end Deeds

/-- The events that come into the queue by a deed lead a card from where it was to where it is. -/
theorem accords_after (h : m.Sound) (howned : m.engine.board.Owned c) (hplain : m.Plain c d)
    (hplays : ∀ f, d ≠ .call (.board f)) : m.engine.Accords c (m.after d).engine := by
  obtain ⟨e, running⟩ := m
  have hids : ∀ s ∈ e.queue.order, s.id.number < e.queue.nextId := h.ids
  cases running with
  | none =>
    cases d with
    | call call => exact accords_call hids hplain fun f hf => hplays f (by rw [hf])
    | turn => exact accords_turn hids howned
    | answer p n => exact accords_respond hids p n
    | go => exact Engine.accords_refl hids
  | some r =>
    obtain ⟨task, script⟩ := r
    cases d with
    | go => exact accords_go hids hplain
    | _ => exact Engine.accords_refl hids

/-- Who arranges the board raises no event, and leaves the card where it is if it is there. -/
theorem accords_setUp (h : m.Sound) {f : Board → Board} (hplain : m.Plain c (.call (.board f))) :
    m.engine.news c (m.after (.call (.board f))).engine = [] ∧
      ((m.engine.board.card? c).isSome →
        m.engine.Accords c (m.after (.call (.board f))).engine) := by
  have hnews : m.engine.news c (m.after (.call (.board f))).engine = [] := by
    refine Engine.news_eq_nil (fun s hs => .inl ?_) h.ids
    obtain ⟨e, _ | r⟩ := m
    · exact hs
    · exact hs
  refine ⟨hnews, fun hcard => ?_⟩
  have hlocation : (m.after (.call (.board f))).engine.board.location? c =
      m.engine.board.location? c := by
    obtain ⟨e, _ | r⟩ := m
    · exact (hplain.setUp f rfl).2 hcard
    · rfl
  unfold Engine.Accords Board.inPlay?
  rw [hnews, hlocation]
  exact .stays _

/-- The owner of a card keeps the private zones. -/
theorem owned_after (h : m.Sound) (howned : m.engine.board.Owned c) (hplain : m.Plain c d) :
    (m.after d).engine.board.Owned c := by
  rcases h.stirs d with hstirs | ⟨f, rfl, hboard⟩
  · intro hcard
    rw [Board.card?_isSome_stirs hstirs] at hcard
    exact (Board.isHomed_stirs hstirs c).trans (howned hcard)
  · rw [hboard]
    exact (hplain.setUp f rfl).1

/-! ## In a run -/

/-- What the events that are raised in a run say about the side of a card. -/
def crossings (c : CardId) : Moment → List Deed → List Bool
  | _, [] => []
  | m, d :: ds => (m.arrivals d).filterMap (·.kind.crossing c) ++ crossings c (m.after d) ds

/-- Whether a card was in play when it came onto the board. -/
def startsInPlay? (c : CardId) : Moment → List Deed → Option Bool
  | m, [] => m.engine.board.inPlay? c
  | m, d :: ds => (m.engine.board.inPlay? c).or (startsInPlay? c (m.after d) ds)

theorem startsInPlay?_of_some {b : Bool} (h : m.engine.board.inPlay? c = some b) (ds : List Deed) :
    startsInPlay? c m ds = some b := by
  cases ds with
  | nil => exact h
  | cons d ds => rw [startsInPlay?, h, Option.some_or]

/-- The events that are raised in a run lead a card from where it came onto the board to where it
is. -/
theorem crosses_run (h : m.Sound) (howned : m.engine.board.Owned c) {ds : List Deed}
    (hplain : Along (Plain c) m ds) :
    Crosses (startsInPlay? c m ds) (crossings c m ds) ((m.run ds).engine.board.inPlay? c) := by
  induction ds generalizing m with
  | nil => exact .stays _
  | cons d ds ih =>
    -- Only who arranges the board can put the card onto it.
    have hnow : m.engine.Accords c (m.after d).engine ∨
        m.engine.board.inPlay? c = none ∧ m.engine.news c (m.after d).engine = [] := by
      by_cases hplays : ∀ f, d ≠ .call (.board f)
      · exact .inl (accords_after h howned hplain.1 hplays)
      · push Not at hplays
        obtain ⟨f, rfl⟩ := hplays
        obtain ⟨hnews, haccords⟩ := accords_setUp h hplain.1
        cases hcard : m.engine.board.card? c with
        | some card => exact .inl (haccords (by rw [hcard]; rfl))
        | none => exact .inr ⟨by simp [Board.inPlay?, Board.location?, hcard], hnews⟩
    -- Before the card is on the board nothing is said of it.
    have hfirst : Crosses (startsInPlay? c m (d :: ds)) (m.engine.news c (m.after d).engine)
        (startsInPlay? c (m.after d) ds) := by
      cases hside : m.engine.board.inPlay? c with
      | some b =>
        have haccords := hnow.resolve_right (by simp [hside])
        unfold Engine.Accords at haccords
        rw [hside] at haccords
        obtain ⟨b', hside'⟩ := Option.isSome_iff_exists.mp haccords.isSome
        rwa [startsInPlay?_of_some hside, startsInPlay?_of_some hside', ← hside']
      | none =>
        have hnews : m.engine.news c (m.after d).engine = [] := by
          rcases hnow with haccords | ⟨-, hnews⟩
          · unfold Engine.Accords at haccords
            rw [hside] at haccords
            exact haccords.eq_nil
          · exact hnews
        rw [hnews, startsInPlay?, hside, Option.none_or]
        exact .stays _
    exact hfirst.trans (ih (h.after d) (owned_after h howned hplain.1) hplain.2)

/-- The events that a card has entered play and that it has left it balance: they come in turns,
the first one says that the card has changed sides since it came onto the board, and the last one
says on which side it is. -/
structure EventsBalance (starts : Option Bool) (raised : List Bool) (ends : Option Bool) :
    Prop where
  alternate : raised.IsChain (· ≠ ·)
  /-- The first event is that the card has left play exactly if it was in play at first. -/
  first : ∀ entered, raised.head? = some entered → starts = some !entered
  /-- Where none was raised the card is where it was at first. -/
  last : ends = raised.getLast?.or starts

/-- In a run in which a card is moved as in play only and nobody raises its events by hand, its
events balance at every moment. -/
theorem events_balance {b : Board} (howned : b.Owned c) {ds : List Deed}
    (hplain : Along (Plain c) (start b) ds) :
    EventsBalance (startsInPlay? c (start b) ds) (crossings c (start b) ds)
      (((start b).run ds).engine.board.inPlay? c) := by
  have hcrosses := crosses_run (sound_start b) howned hplain
  exact ⟨hcrosses.alternate, fun _ hhead => hcrosses.head hhead, hcrosses.last⟩

/-- A round sets off a deed twice. The first payment fails once the deed is discarded, so it is put
back into play; the second one discards it. Then it is moved into play. -/
def failedPayment : List Deed :=
  [.call (.board fun b => ((Board.createCard ⟨0⟩ "A" .deed .playArea).ends b).2),
    .call (.attach ⟨3⟩ {
      kind := .forced
      triggers := [(.beginRound, fun _ _ => true)]
      costs := [.discardSelf, .bootSelf]
      handler := some fun _ => .done }),
    .call (.attach ⟨3⟩ {
      kind := .forced
      triggers := [(.beginRound, fun _ _ => true)]
      costs := [.discardSelf]
      handler := some fun _ => .done }),
    .call (.order .beginRound), .turn, .go, .turn, .turn, .turn, .turn,
    .call (.order (.move ⟨3⟩ .playArea))]

theorem plain_failedPayment :
    Along (Plain ⟨3⟩) (start (.twoPlayer "Ann" "Bob" 0)) failedPayment := by
  refine ⟨⟨rfl, rfl, ?_⟩, ⟨rfl, rfl, nofun⟩, ⟨rfl, rfl, nofun⟩, ⟨rfl, rfl, nofun⟩,
    ⟨rfl, rfl, nofun⟩, ⟨rfl, rfl, nofun⟩, ⟨rfl, rfl, nofun⟩, ⟨rfl, rfl, nofun⟩,
    ⟨rfl, rfl, nofun⟩, ⟨rfl, rfl, nofun⟩, ⟨rfl, rfl, nofun⟩, trivial⟩
  rintro _ ⟨⟩
  exact ⟨fun _ => rfl, fun h => by cases h⟩

theorem events_balance_failedPayment :
    (Board.twoPlayer "Ann" "Bob" 0).Owned ⟨3⟩ ∧
      Along (Plain ⟨3⟩) (start (.twoPlayer "Ann" "Bob" 0)) failedPayment ∧
      crossings ⟨3⟩ (start (.twoPlayer "Ann" "Bob" 0)) failedPayment = [false, true] ∧
      EventsBalance (startsInPlay? ⟨3⟩ (start (.twoPlayer "Ann" "Bob" 0)) failedPayment)
        (crossings ⟨3⟩ (start (.twoPlayer "Ann" "Bob" 0)) failedPayment)
        (((start (.twoPlayer "Ann" "Bob" 0)).run failedPayment).engine.board.inPlay? ⟨3⟩) := by
  have howned : (Board.twoPlayer "Ann" "Bob" 0).Owned ⟨3⟩ := fun h => by cases h
  exact ⟨howned, plain_failedPayment, by decide +kernel, events_balance howned plain_failedPayment⟩

end Moment

end Doomtown
