import Doomtown.Proofs.Alteration
import Doomtown.Proofs.BeingPlayed
import Doomtown.Proofs.Posting
import Mathlib.Data.List.Chain

/-!
# Cards that enter and leave play

What follows a card's move queues an event if the card has entered or left the play area. Costs move
the source of an activation on the board, perhaps several times, and what follows these moves comes
afterwards, one after the other, as the receipts tell (`Payment.Travels`). If a cost fails the card
is moved back, and nothing follows. On every path the events that are queued tell each time that the
card has crossed the border of the play area, in order, and no more (`Engine.Reports`).
-/

namespace Doomtown

open Play

/-! ## Sides of the border -/

/-- Events that a card has entered play, `true`, or left it, lead the card from the side on which it
was to the side on which it is. What is no card is on no side and has no events. -/
inductive Crosses : Option Bool → List Bool → Option Bool → Prop where
  | stays (side : Option Bool) : Crosses side [] side
  | crosses (inPlay : Bool) {later : List Bool} {side : Option Bool}
      (h : Crosses (some inPlay) later side) : Crosses (some !inPlay) (inPlay :: later) side

namespace Crosses

variable {s s' s'' : Option Bool} {l l' : List Bool}

theorem trans (h : Crosses s l s') (h' : Crosses s' l' s'') : Crosses s (l ++ l') s'' := by
  induction h with
  | stays => exact h'
  | crosses inPlay _ ih => exact .crosses inPlay (ih h')

/-- What is no card has no events. -/
theorem eq_nil (h : Crosses none l s') : l = [] := by
  cases h
  rfl

/-- What is a card remains one. -/
theorem isSome {b : Bool} (h : Crosses (some b) l s') : s'.isSome := by
  generalize hs : some b = s at h
  induction h generalizing b with
  | stays => rw [← hs]; rfl
  | crosses inPlay _ ih => exact ih rfl

/-- The first event says that the card has changed sides. -/
theorem head (h : Crosses s l s') {inPlay : Bool} (hhead : l.head? = some inPlay) :
    s = some !inPlay := by
  cases h with
  | stays => simp at hhead
  | crosses b h => rw [Option.some.inj hhead]

/-- The card is on the side of which the last event says so, or where it was. -/
theorem last (h : Crosses s l s') : s' = l.getLast?.or s := by
  induction h with
  | stays => rfl
  | @crosses b later side _ ih =>
    rw [ih, List.getLast?_cons]
    cases later.getLast? <;> rfl

/-- Events that the card has entered play and that it has left it come in turns. -/
theorem alternate (h : Crosses s l s') : l.IsChain (· ≠ ·) := by
  induction h with
  | stays => exact .nil
  | crosses b h ih =>
    refine List.isChain_cons.mpr ⟨fun b' hb' => ?_, ih⟩
    have hside := h.head hb'
    rintro rfl
    cases b <;> simp at hside

end Crosses

namespace Board

variable {b b' : Board} {c : CardId}

/-- If there is a card, its owner has private zones. -/
def Owned (b : Board) (c : CardId) : Prop := (b.card? c).isSome → b.isHomed c

/-- Where a card is. -/
def location? (b : Board) (c : CardId) : Option Location := (b.card? c).map (·.location)

/-- Whether a card is in play. -/
def inPlay? (b : Board) (c : CardId) : Option Bool :=
  (b.location? c).map fun l => decide (l = .playArea)

theorem location?_of_place? (h : b'.place? c = b.place? c) : b'.location? c = b.location? c := by
  have hlocation := congrArg (Option.map fun place => place.2.2) h
  simpa [place?, location?, Option.map_map, Function.comp_def] using hlocation

theorem location?_of_moves {moving : Option CardId} (h : b.Moves moving b') (hc : moving ≠ some c) :
    b'.location? c = b.location? c :=
  location?_of_place? (h.places c hc)

theorem inPlay?_of_moves {moving : Option CardId} (h : b.Moves moving b') (hc : moving ≠ some c) :
    b'.inPlay? c = b.inPlay? c := by
  rw [inPlay?, inPlay?, location?_of_moves h hc]

/-- What is no card is nowhere, whatever is played. -/
theorem location?_none_stirs (h : b.Stirs b') (hnone : b.location? c = none) :
    b'.location? c = none := by
  have hcard := card?_isSome_stirs h c
  unfold location? at hnone ⊢
  rw [Option.map_eq_none_iff] at hnone ⊢
  simpa [hnone] using hcard

theorem location?_moved {card : Card} (hcard : b.card? c = some card) (destination : Location) :
    (b.moved c card destination).location? c = some destination := by
  rw [location?, card?_moved hcard]
  rfl

end Board

namespace Engine

/-- What the event of a move says about the side of a card. -/
def moveCrossing (c : CardId) (move : CardId × Location × Location) : Option Bool :=
  (moveEvent? move.1 move.2.1 move.2.2).bind (·.crossing c)

variable {c c' : CardId}

/-- The move of another card says nothing. -/
theorem moveCrossing_other (hc : c' ≠ c) (origin destination : Location) :
    moveCrossing c (c', origin, destination) = none := by
  unfold moveCrossing moveEvent?
  split
  · simp [EventData.crossing, hc]
  · split <;> simp [EventData.crossing, hc]

/-- The move of a card has an event if the card changes sides. -/
theorem crosses_move (c : CardId) (origin destination : Location) :
    Crosses (some (decide (origin = .playArea))) (moveCrossing c (c, origin, destination)).toList
      (some (decide (destination = .playArea))) := by
  unfold moveCrossing moveEvent?
  by_cases ho : origin = .playArea <;> by_cases hd : destination = .playArea
  · simpa [ho, hd] using Crosses.stays (some true)
  · simpa [ho, hd, EventData.crossing] using Crosses.crosses false (.stays (some false))
  · simpa [ho, hd, EventData.crossing] using Crosses.crosses true (.stays (some true))
  · simpa [ho, hd] using Crosses.stays (some false)

/-- When a card is moved on the board, the event of the move leads each card from where it was to
where it is. -/
theorem crosses_moved {b : Board} {card : Card} (hcard : b.card? c' = some card) (c : CardId)
    (destination : Location) :
    Crosses (b.inPlay? c) (moveCrossing c (c', card.location, destination)).toList
      ((b.moved c' card destination).inPlay? c) := by
  by_cases hc : c' = c
  · subst hc
    have hbefore : b.location? c' = some card.location := by
      rw [Board.location?, hcard]
      rfl
    rw [Board.inPlay?, Board.inPlay?, hbefore, Board.location?_moved hcard]
    exact crosses_move c' card.location destination
  · have hother : (b.moved c' card destination).location? c = b.location? c := by
      rw [Board.location?, Board.card?_moved_other hc, Board.location?]
    rw [moveCrossing_other hc, Board.inPlay?, Board.inPlay?, hother]
    exact .stays _

/-! ## What follows a move -/

variable {e e' e'' : Engine}

/-- What follows the move of a card that exists queues the event of the move. -/
theorem afterMove_posts (hcard : (e.board.card? c').isSome) (origin destination : Location) :
    ∃ r e' kinds, (afterMove c' origin destination).ends e = (.ok r, e') ∧ e.Tends e' ∧
      e'.queue = e.queue.pushAll kinds ∧
      ∀ c, kinds.filterMap (·.crossing c) = (moveCrossing c (c', origin, destination)).toList := by
  obtain ⟨r, e₁, hends, htends, hfound⟩ := refresh_tends c' e
  obtain ⟨rfl, -⟩ := hfound hcard
  have hstays : e₁.queue = e.queue := by
    have hstays := stays_of_chain (stays_refresh c' e)
    rwa [hends] at hstays
  have hchain := tends_of_chain (tends_afterMove c' origin destination e)
  unfold afterMove at hchain ⊢
  rw [ends_bind_ok hends] at hchain ⊢
  unfold moveCrossing
  cases hevent : moveEvent? c' origin destination with
  | none => exact ⟨false, e₁, [], rfl, htends, hstays, fun _ => rfl⟩
  | some data =>
    rw [hevent] at hchain
    refine ⟨true, _, [.event ⟨e₁.board.clock + 1, data⟩ (.script .done)], rfl, hchain, ?_,
      fun c => ?_⟩
    · rw [← hstays]
      rfl
    · rw [Option.bind_some, List.filterMap_cons]
      cases hcrossing : data.crossing c <;> simp [StepKind.crossing, hcrossing]

/-- So does what follows several moves, for each of them. -/
theorem afterMoves_posts :
    ∀ (l : List (CardId × Location × Location)) {e : Engine},
      (∀ t ∈ l, (e.board.card? t.1).isSome) →
      ∃ e' kinds, (afterMoves l).ends e = (.ok (), e') ∧ e.Tends e' ∧
        e'.queue = e.queue.pushAll kinds ∧
        ∀ c, kinds.filterMap (·.crossing c) = l.filterMap (moveCrossing c)
  | [], e, _ => ⟨e, [], rfl, .refl e, rfl, fun _ => rfl⟩
  | (c', origin, destination) :: rest, e, h => by
    obtain ⟨r, e₁, kinds, hends, htends, hqueue, hkinds⟩ :=
      afterMove_posts (h _ List.mem_cons_self) origin destination
    obtain ⟨e', kinds', hends', htends', hqueue', hkinds'⟩ :=
      afterMoves_posts rest (e := e₁) fun t ht =>
        Board.card?_isSome_of_stirs htends.board.stirs (h t (List.mem_cons_of_mem _ ht))
    refine ⟨e', kinds ++ kinds', ?_, htends.trans htends', ?_, fun c => ?_⟩
    · have hdiscard : (discard (afterMove c' origin destination)).ends e = (.ok (), e₁) := by
        rw [ends_discard, hends]
        rfl
      rw [afterMoves, ends_bind_ok hdiscard, hends']
    · rw [StepQueue.pushAll_append, ← hqueue, hqueue']
    · rw [List.filterMap_append, hkinds, hkinds', List.filterMap_cons]
      cases moveCrossing c (c', origin, destination) <;> rfl

/-! ## Where payments lead -/

end Engine

namespace Payment

variable {title : String} {x : Activation} {c : CardId} {b b' : Board} {origin l : Option Location}
  {paid : List CostReceipt}

/-- Receipts, the latest first, whose moves lead a card from one location to another. -/
inductive Travels (c : CardId) (origin : Option Location) :
    List CostReceipt → Option Location → Prop where
  | stays : Travels c origin [] origin
  | skips {paid : List CostReceipt} {r : CostReceipt} {l : Option Location}
      (h : Travels c origin paid l) (hr : r.moves? ≠ some c) : Travels c origin (r :: paid) l
  | moves {paid : List CostReceipt} {l : Location} (h : Travels c origin paid (some l))
      (destination : Location) :
    Travels c origin (.moved c l destination :: paid) (some destination)

namespace Travels

/-- The receipt of a cost leads on to where the card is once the cost is paid. -/
theorem pays {cost : Cost} {r : CostReceipt} (h : Travels c origin paid (b.location? c))
    (hpays : cost.Pays b x r b') : Travels c origin (r :: paid) (b'.location? c) := by
  by_cases hr : r.moves? = some c
  · -- A receipt of a move is one of the source, from where it was.
    obtain rfl := source_of_pays hpays hr
    cases hpays with
    | boot => simp [CostReceipt.moves?] at hr
    | spend => simp [CostReceipt.moves?] at hr
    | @move _ destination card _ hcard =>
      have hbefore : b.location? x.source = some card.location := by
        rw [Board.location?, hcard]
        rfl
      rw [hbefore] at h
      rw [Board.location?_moved hcard]
      exact .moves h destination
  · have hstays : b'.location? c = b.location? c := by
      cases hmoves : r.moves? with
      | none => exact Board.location?_of_moves (rests_of_pays hpays hmoves) (by simp)
      | some c' =>
        obtain rfl := source_of_pays hpays hmoves
        exact Board.location?_of_moves (moves_of_pays hpays) (hmoves ▸ hr)
    exact .skips (hstays ▸ h) hr

/-- To revert the receipts is to go the way back. -/
theorem reverts (h : Travels c origin paid l) (hlocation : b.location? c = l)
    (hundoable : ∀ r ∈ paid, r.Undoable b) :
    ((revertAll paid).ends b).2.location? c = origin := by
  -- The latest receipt is reverted first, so the induction goes back with the payment.
  induction h generalizing b with
  | stays => exact hlocation
  | @skips paid r l _ hr ih =>
    obtain ⟨b₁, hrevert⟩ := hundoable r List.mem_cons_self b .refl
    have hmoves : b.Moves r.moves? b₁ := by
      have hmoves := Board.moves_of_chain (r.moves_revert (fun _ hc => hc) b)
      rwa [hrevert] at hmoves
    rw [revertAll_cons hrevert]
    exact ih ((Board.location?_of_moves hmoves hr).trans hlocation) fun r' hr' =>
      (hundoable r' (List.mem_cons_of_mem r hr')).stirs hmoves.stirs
  | @moves paid l _ destination ih =>
    obtain ⟨b₁, hrevert⟩ := hundoable _ List.mem_cons_self b .refl
    have hmoves := Board.moves_of_chain (Board.moves_moveCard c l b)
    have hback : (discard (Board.moveCard c l)).ends b = (.ok (), b₁) := hrevert
    rw [ends_discard] at hback
    rw [revertAll_cons hrevert]
    rcases Board.moveCard_cases c l b with ⟨err, hends⟩ | ⟨card, hcard, -, hends⟩
    · simp [hends, Except.map] at hback
    · rw [hends] at hback hmoves
      obtain rfl : b.moved c card l = b₁ := congrArg Prod.snd hback
      exact ih (Board.location?_moved hcard l) fun r' hr' =>
        (hundoable r' (List.mem_cons_of_mem _ hr')).stirs hmoves.stirs

/-- A card that receipts name as moved is a card. -/
theorem isSome (h : Travels c origin paid l) {r : CostReceipt} (hr : r ∈ paid)
    (hmoves : r.moves? = some c) : l.isSome := by
  induction h with
  | stays => simp at hr
  | skips _ hother ih =>
    rcases List.mem_cons.mp hr with rfl | hr
    · exact absurd hmoves hother
    · exact ih hr
  | moves => rfl

/-- The events of the moves, in the order of payment, lead the card to the side on which it is. -/
theorem crosses (h : Travels c origin paid l) :
    Crosses (origin.map fun l => decide (l = .playArea))
      ((paid.reverse.filterMap Engine.movedBy?).filterMap (Engine.moveCrossing c))
      (l.map fun l => decide (l = .playArea)) := by
  induction h with
  | stays => exact .stays _
  | @skips paid r l _ hr ih =>
    have hnone : ([r].filterMap Engine.movedBy?).filterMap (Engine.moveCrossing c) = [] := by
      cases hmove : Engine.movedBy? r with
      | none => simp [hmove]
      | some t =>
        obtain ⟨c', origin, destination⟩ := t
        have hc : c' ≠ c := by simpa [Engine.moves?_eq, hmove] using hr
        simp [hmove, Engine.moveCrossing_other hc]
    rw [List.reverse_cons, List.filterMap_append, List.filterMap_append, hnone, List.append_nil]
    exact ih
  | @moves paid l _ destination ih =>
    rw [List.reverse_cons, List.filterMap_append, List.filterMap_append]
    refine ih.trans ?_
    have hmove := Engine.crosses_move c l destination
    cases hcrossing : Engine.moveCrossing c (c, l, destination) with
    | none => simpa [Engine.movedBy?, hcrossing] using hmove
    | some _ => simpa [Engine.movedBy?, hcrossing] using hmove

end Travels

/-- If the costs are paid, the receipts lead each card from where it was to where it is. -/
theorem travels_payAll {costs : List Cost} {receipts : List CostReceipt}
    (h : (payAll title x costs).ends b = (.ok receipts, b')) (c : CardId) :
    Travels c (b.location? c) receipts.reverse (b'.location? c) := by
  rw [payAll_ends] at h
  split at h
  · have houtcome : Outcome title (fun _ paid b' => Travels c (b.location? c) paid (b'.location? c))
        ((payFrom title x [] costs).ends b) :=
      outcome_payFrom (fun h _ hpays => h.pays hpays) costs [] .stays
    rw [h] at houtcome
    cases houtcome with
    | paid htravels => rwa [List.reverse_reverse]
  · simp at h

/-- What the receipts of a payment name as moved is a card. -/
theorem isSome_of_movedBy {costs : List Cost} {receipts : List CostReceipt}
    (h : (payAll title x costs).ends b = (.ok receipts, b')) :
    ∀ t ∈ receipts.filterMap Engine.movedBy?, (b'.card? t.1).isSome := by
  intro t ht
  obtain ⟨r, hr, hmove⟩ := List.mem_filterMap.mp ht
  have hmoves : r.moves? = some t.1 := by rw [Engine.moves?_eq, hmove, Option.map_some]
  have hlocation := (travels_payAll h t.1).isSome (List.mem_reverse.mpr hr) hmoves
  rwa [Board.location?, Option.isSome_map] at hlocation

/-- If the payment fails, the source is where it was, provided that its owner has private zones. -/
theorem location?_source_payAll_failed {costs : List Cost} {err : RulesError}
    (h : (payAll title x costs).ends b = (.error err, b')) (hhomed : b.isHomed x.source) :
    b'.location? x.source = b.location? x.source := by
  rw [payAll_ends] at h
  split at h
  · have houtcome : Outcome title (fun _ paid b' => Reversible x paid b' ∧
        Travels x.source (b.location? x.source) paid (b'.location? x.source))
        ((payFrom title x [] costs).ends b) :=
      outcome_payFrom (fun h _ hpays => ⟨h.1.pays hpays, h.2.pays hpays⟩) costs []
        ⟨⟨hhomed, by simp⟩, .stays⟩
    rw [h] at houtcome
    cases houtcome with
    | reverted hpaid hreverts =>
      rw [← hreverts]
      exact hpaid.2.reverts rfl hpaid.1.2
  · obtain rfl : b = b' := congrArg Prod.snd h
    rfl

/-- So is each card: no other one is moved. -/
theorem location?_payAll_failed {costs : List Cost} {err : RulesError}
    (h : (payAll title x costs).ends b = (.error err, b'))
    (howned : b.Owned c) : b'.location? c = b.location? c := by
  have hmoves : b.Moves (some x.source) ((payAll title x costs).ends b).2 := moves_payAll costs b
  rw [h] at hmoves
  by_cases hc : x.source = c
  · subst hc
    cases hcard : (b.card? x.source).isSome with
    | false =>
      have hnone : b.location? x.source = none := by
        simpa [Board.location?] using hcard
      rw [hnone]
      exact Board.location?_none_stirs hmoves.stirs hnone
    | true => exact location?_source_payAll_failed h (howned hcard)
  · exact Board.location?_of_moves hmoves (by simpa using hc)

end Payment

namespace Engine

variable {c : CardId} {e e' e'' : Engine}

/-! ## Plays that report crossings -/

/-- Steps are queued, and the events among them lead a card from where it was to where it is. -/
def Reports (c : CardId) (e e' : Engine) : Prop :=
  ∃ kinds : List StepKind, e'.queue = e.queue.pushAll kinds ∧
    Crosses (e.board.inPlay? c) (kinds.filterMap (·.crossing c)) (e'.board.inPlay? c)

theorem Reports.trans (h : e.Reports c e') (h' : e'.Reports c e'') : e.Reports c e'' := by
  obtain ⟨kinds, hqueue, hcrosses⟩ := h
  obtain ⟨kinds', hqueue', hcrosses'⟩ := h'
  refine ⟨kinds ++ kinds', by rw [StepQueue.pushAll_append, ← hqueue, hqueue'], ?_⟩
  rw [List.filterMap_append]
  exact hcrosses.trans hcrosses'

/-- Where no event is queued and the card stays where it is, there is nothing to report. -/
theorem reports_of_location (hsilent : e.SilentOn c e')
    (hlocation : e'.board.location? c = e.board.location? c) : e.Reports c e' := by
  obtain ⟨kinds, hnone, hqueue⟩ := hsilent
  refine ⟨kinds, hqueue, ?_⟩
  have hkinds : kinds.filterMap (·.crossing c) = [] := List.filterMap_eq_nil_iff.mpr hnone
  rw [hkinds, Board.inPlay?, Board.inPlay?, hlocation]
  exact .stays _

theorem reports_refl (c : CardId) (e : Engine) : e.Reports c e :=
  reports_of_location (silent_of_queue rfl) rfl

theorem reports_of_chain (h : Relation.ReflTransGen (Reports c) e e') : e.Reports c e' :=
  link_of_chain (reports_refl c) .trans h

section Plays

variable {α : Type} {p : Play Engine α}

theorem reports_ends (hp : p.Chains (Reports c)) (e : Engine) : e.Reports c (p.ends e).2 :=
  reports_of_chain (hp e)

theorem reports_of_silent (hsilent : p.Chains (SilentOn c)) (hrests : p.Chains Rests) :
    p.Chains (Reports c) :=
  .single fun e => reports_of_location (silent_of_chain (hsilent e))
    (Board.location?_of_moves (rests_of_chain (hrests e)) (by simp))

/-- What is moved as in play is reported. -/
theorem reports_moveCard (c' : CardId) (destination : Location) :
    (moveCard c' destination).Chains (Reports c) := by
  refine .single fun e => ?_
  unfold moveCard
  rcases Board.moveCard_cases c' destination e.board with ⟨err, hends⟩ | ⟨card, hcard, -, hends⟩
  · have hmove : (onBoard (Board.moveCard c' destination)).ends e = (.error err, e) := by
      rw [onBoard, ends_within, hends]
    rw [ends_bind_error hmove]
    exact reports_refl c e
  · let e₁ : Engine := { e with board := e.board.moved c' card destination }
    have hmove : (onBoard (Board.moveCard c' destination)).ends e = (.ok card.location, e₁) := by
      rw [onBoard, ends_within, hends]
    have hcard₁ : (e₁.board.card? c').isSome := by
      show ((e.board.moved c' card destination).card? c').isSome
      rw [Board.card?_moved hcard]
      rfl
    obtain ⟨r, e', kinds, hends', htends, hqueue, hkinds⟩ :=
      afterMove_posts hcard₁ card.location destination
    rw [ends_bind_ok hmove, hends']
    refine ⟨kinds, hqueue, ?_⟩
    have hcrosses : Crosses (e.board.inPlay? c) _ (e₁.board.inPlay? c) :=
      crosses_moved hcard c destination
    rwa [hkinds, Board.inPlay?_of_moves htends.board (by simp)]

/-! ## Stages of activations -/

/-- Costs that are paid report each move; costs whose payment fails leave the card where it is. -/
theorem reports_payCosts (a : Ability) (x : ActivationId) (activation : Activation)
    (howned : e.board.Owned c) : e.Reports c ((payCosts a x activation).ends e).2 := by
  rcases hpay : (Payment.payAll a.title activation a.costs).ends e.board with ⟨err | receipts, b⟩
  · rw [payCosts_refused hpay]
    exact reports_of_location (silent_of_queue rfl) (Payment.location?_payAll_failed hpay howned)
  · let e₁ : Engine := { e with
      board := b
      activations := e.activations.modify x
        ({ · with receipts := receipts, stage := .costsPaid }) }
    obtain ⟨e₂, kinds, hends, htends, hqueue, hkinds⟩ :=
      afterMoves_posts (receipts.filterMap movedBy?) (e := e₁) (Payment.isSome_of_movedBy hpay)
    -- The moves are made by the payment, and all their events come after it, as the receipts tell.
    have hmoves : e.Reports c e₂ := by
      refine ⟨kinds, hqueue, ?_⟩
      have hcrosses := (Payment.travels_payAll hpay c).crosses
      rw [List.reverse_reverse, ← hkinds] at hcrosses
      rwa [Board.inPlay?_of_moves htends.board (by simp)]
    rw [payCosts_paid hpay, ends_bind_ok hends]
    have hpost : (discard (post (.resolve x .chooseTargets))).Chains (Reports c) :=
      reports_of_silent (.discard (silent_post rfl)) (rests_of_tends (.discard (tends_post _)))
    exact hmoves.trans (reports_ends hpost e₂)

theorem reports_conclude (a : Ability) (x : ActivationId) (activation : Activation) :
    (conclude a x activation).Chains (Reports c) := by
  have hchange : ∀ {f : Engine → Engine}, (∀ e, (f e).queue = e.queue ∧ (f e).board = e.board) →
      (change f).Chains (Reports c) := fun hf =>
    reports_of_silent (silent_change fun e => (hf e).1) (rests_change fun e => (hf e).2)
  refine .bind (hchange fun _ => ⟨rfl, rfl⟩) fun _ => .bind ?_ fun _ =>
    .bind (hchange fun _ => ⟨rfl, rfl⟩) fun _ => .bind ?_ fun _ => .bind ?_ fun _ => ?_
  · exact .bind .look fun _ => .ite
      (reports_of_silent (silent_onBoard _) (rests_onBoard (Board.rests_change_round _))) (.pure _)
  · exact .bind .look fun _ => .ite (.discard (reports_moveCard _ _)) (.pure _)
  · exact reports_of_silent (silent_raise rfl _) (rests_of_tends (handles_tends.raise _ _))
  · exact reports_of_silent (.discard (silent_post rfl)) (rests_of_tends (.discard (tends_post _)))

theorem reports_close : ∀ task : Task, task.close.Chains (Reports c)
  | .plain => .answer _
  | .event event => reports_of_silent (silent_openWindow event) (rests_openWindow event)
  | .effect a x activation => reports_conclude a x activation

/-- A step that runs no script. -/
theorem reports_runStep (s : Step) (hopening : e.opening s.kind = none)
    (howned : e.board.Owned c) : e.Reports c ((runStep s).ends e).2 := by
  rw [runStep_kind]
  obtain ⟨i, kind⟩ := s
  cases kind with
  | task label body => simp [opening] at hopening
  | prompt p => exact reports_refl c e
  | window w =>
    exact reports_ends
      (reports_of_silent (silent_advance w) (rests_of_tends (handles_tends.advance w))) e
  | complete x => exact reports_of_location (silent_of_queue rfl) rfl
  | event event change =>
    cases change with
    | script body => simp [opening] at hopening
    | emitted x =>
      refine reports_ends (reports_of_silent (.bind (silent_modifyActivation x _) fun _ =>
        silent_openWindow event) (.bind (rests_of_tends (tends_modifyActivation x _)) fun _ =>
        rests_openWindow event)) e
  | resolve x stage =>
    by_cases hfound : ∃ activation a, e.activations.get? x = some activation ∧
        activation.isLive ∧ e.ability? activation.ability = some a
    · obtain ⟨activation, a, hget, hlive, hability⟩ := hfound
      show e.Reports c ((resolve x stage).ends e).2
      rw [resolve_live stage hget hlive hability]
      cases stage with
      | payCosts => exact reports_payCosts a x activation howned
      | chooseTargets =>
        exact reports_ends (reports_of_silent (silent_fillSlots a x activation a.targets)
          (rests_of_tends (tends_fillSlots a x activation a.targets))) e
      | execute => simp [opening, hget, hability, hlive] at hopening
    · -- A stage that comes too late does nothing.
      show e.Reports c ((resolve x stage).ends e).2
      rw [resolve_idle stage fun activation a hget hlive hability =>
        hfound ⟨activation, a, hget, hlive, hability⟩]
      exact reports_refl c e

/-! ## Orders -/

/-- All orders but those that start an activation, retract one or withdraw a step, unless they shift
the card on the board. -/
theorem reports_order (o : Order) (hactivate : ∀ a p, o ≠ .activate a p)
    (hretract : ∀ a p, o ≠ .retract a p) (hwithdraw : ∀ i, o ≠ .withdraw i)
    (hshift : ∀ l, o ≠ .shift c l) : o.carryOut.Chains (Reports c) := by
  by_cases hmove : ∃ c' l, o = .move c' l
  · obtain ⟨c', l, rfl⟩ := hmove
    exact .discard (reports_moveCard c' l)
  have hsilent : o.carryOut.Chains (SilentOn c) :=
    silent_order o hactivate hretract hwithdraw fun c' l ho => hmove ⟨c', l, ho⟩
  by_cases hother : ∃ c' l, o = .shift c' l
  · -- Another card is shifted.
    obtain ⟨c', l, rfl⟩ := hother
    refine .single fun e => reports_of_location (silent_of_chain (hsilent e)) ?_
    show ((discard (onBoard (Board.moveCard c' l))).ends e).2.board.location? c = _
    rw [ends_discard]
    exact Board.location?_of_moves (Board.moves_of_chain (Board.moves_moveCard c' l e.board))
      (by rintro ⟨⟩; exact hshift l rfl)
  · exact reports_of_silent hsilent (rests_order o (fun c' l ho => hmove ⟨c', l, ho⟩)
      fun c' l ho => hother ⟨c', l, ho⟩)

end Plays

end Engine

end Doomtown
