import Doomtown.Proofs.ChainTurns

/-!
# Chains of triggers end

Where limits bound all triggers and their effects are calm, an event that is raised sets off a chain
of activations that comes to an end, with no more effects than the limits add up to
(`Moment.trigger_chain_ends`). The event itself may reset the counters, which its first turn does
before anything else (`Engine.turn_raised`).
-/

namespace Doomtown

open Play

namespace Engine

variable {e e' : Engine} {data : EventData}

/-! ## All turns of a chain -/

/-- How the queue stops. -/
inductive Halts {α : Type} : Except RulesError (Option α) × Engine → Prop where
  /-- Nothing waits, or a prompt is at the front. -/
  | rests {answer : α} {e : Engine} (hidle : e.queue.running = none) (h : e.queue.Rests) :
    Halts (.ok (some answer), e)
  | unpaid {title : String} {cause : RulesError} {e : Engine} :
    Halts (.error (.paymentFailed title cause), e)

/-- The queue stops at a card that is being played for an ability and cannot be discarded. -/
inductive Sticks {α : Type} : Except RulesError (Option α) × Engine → Prop where
  | unlisted {c : CardId} {e : Engine} (h : e.Unlisted c) :
    Sticks (.error (.refused (.notListed c .beingPlayed)), e)

theorem Halts.map {α β : Type} {f : α → β} {r : Except RulesError (Option α)} (h : Halts (r, e)) :
    Halts (r.map (Option.map f), e) := by
  cases h with
  | rests hidle h => exact .rests hidle h
  | unpaid => exact .unpaid

theorem Sticks.map {α β : Type} {f : α → β} {r : Except RulesError (Option α)}
    (h : Sticks (r, e)) : Sticks (r.map (Option.map f), e) := by
  cases h with
  | unlisted h => exact .unlisted h

/-- A chain of triggers ends: every turn leaves less that can come yet, or what waits nearer to its
end. -/
theorem Chained.ends {e : Engine} (h : e.Chained) :
    ∃ fuel, Halts ((settle fuel).ends e) ∨ Sticks ((settle fuel).ends e) := by
  have hturn := h.turn
  generalize hending : Engine.turn.ends e = ending at hturn
  cases hturn with
  | rests hrests =>
    refine ⟨1, .inl ?_⟩
    rw [settle_status h.idle hrests]
    exact .rests h.idle hrests
  | unpaid =>
    refine ⟨1, .inl ?_⟩
    rw [settle_succ, ends_bind_error hending]
    exact .unpaid
  | stuck hunlisted =>
    refine ⟨1, .inr ?_⟩
    rw [settle_succ, ends_bind_error hending]
    exact .unlisted hunlisted
  | @goes e' h' hnears =>
    obtain ⟨fuel, hends⟩ := h'.ends
    refine ⟨fuel + 1, ?_⟩
    rw [settle_succ, ends_bind_ok hending]
    exact hends
-- Uses that are left come first: an effect takes one of them and queues steps in its place.
termination_by (e.budget, StepQueue.load e.queue.steps)
decreasing_by
  rcases hnears with hless | ⟨hsame, hless⟩
  · exact Prod.Lex.left _ _ hless
  · rw [hsame]
    exact Prod.Lex.right _ hless

/-- The effects that begin in a chain are no more than the uses that are left. -/
theorem Chained.effectsRun_le (h : e.Chained) (fuel : Nat) : e.effectsRun fuel ≤ e.allLeft := by
  induction fuel generalizing e with
  | zero => exact Nat.zero_le _
  | succ fuel ih =>
    have hturn := h.turn
    unfold effectsRun
    generalize hending : Engine.turn.ends e = ending at hturn
    cases hturn with
    | rests hrests =>
      rw [begins_of_rests hrests]
      exact Nat.zero_le _
    | unpaid hbegins =>
      rw [hbegins]
      exact Nat.zero_le _
    | stuck _ hbegins => exact hbegins
    | goes h' _ hbegins =>
      have hrest := ih h'
      dsimp only
      omega

/-! ## The event that sets a chain off -/

/-- The engine once an event is queued that changes nothing itself. -/
def raised (e : Engine) (data : EventData) : Engine := ((raise data (.script .done)).ends e).2

theorem steps_raised (data : EventData) (hidle : e.queue.running = none)
    (hnil : e.queue.steps = []) :
    (e.raised data).queue.running = none ∧ (e.raised data).queue.steps =
      [⟨e.queue.nextStep, .event ⟨e.board.clock + 1, data⟩ (.script .done)⟩] := by
  have hqueue : (e.raised data).queue =
      e.queue.push (.event ⟨e.board.clock + 1, data⟩ (.script .done)) := rfl
  rw [hqueue]
  simp [StepQueue.push, hidle, hnil]

/-- With its first turn the event has opened its window, and a chain is running. -/
theorem turn_raised (hreached : Moment.Reached ⟨e, none⟩) (hnil : e.queue.steps = [])
    (hlabelled : e.board.Labelled) (hlimited : e.Limited) (hcalm : (e.raised data).CalmEffects) :
    (e.raised data).begins = 0 ∧ ∃ e', turn.ends (e.raised data) = (.ok none, e') ∧ e'.Chained ∧
      e'.abilities = e.abilities := by
  have hidle₀ : e.queue.running = none := by simpa using hreached.ready.running
  obtain ⟨hidle, hfront⟩ := steps_raised data hidle₀ hnil
  have hreached₁ : Moment.Reached ⟨e.raised data, none⟩ :=
    hreached.leads (leads_of_chain (call_leads (.raise data .done) e))
  let e₀ : Engine := { e.raised data with queue := (e.raised data).queue.started [] }
  let event : GameEvent := ⟨e.board.clock + 1, data⟩
  have hproper : e₀.Proper := hreached₁.proper
  have hlimited₀ : e₀.Limited := hlimited
  -- Counters may be reset now; what is left is counted from here on.
  obtain ⟨e₁, windows, hends, hears, hsteps, hrunning, hwindows⟩ :=
    openWindow_lines hproper hlimited₀ rfl event
  have hturn : turn.ends (e.raised data) = (.ok none, e₁.finished) := by
    rw [turn_runs hidle hfront (by simp), runStep_kind]
    have hfire : (fire event (.script .done)).ends e₀ = (openWindow event).ends e₀ := rfl
    dsimp only
    rw [hfire, hends]
  have hreached₂ := hreached₁.leads (leads_of_chain (turn_leads (e.raised data)))
  rw [hturn] at hreached₂
  have hfinished : e₁.finished.queue.steps = windows := by
    have hnone : e₁.queue.steps = [] := hsteps
    simp [finished, StepQueue.finish, StepQueue.children, hrunning, hnone]
  refine ⟨?_, e₁.finished, hturn, ⟨hreached₂, ?_, ?_, hcalm.turn hturn, ?_⟩, hears.abilities⟩
  · unfold begins Moment.turn
    rw [StepQueue.begin?_front hidle hfront (by simp)]
    simp [opening, Moment.effect?]
  · show e₁.board.Labelled
    rw [hears.board]
    exact hlabelled
  · exact hlimited.congr hears.abilities
  · rw [hfinished]
    exact Lined.finished (.pending hwindows)

/-- To raise an event is to queue it and to run the queue. -/
theorem raiseEvent_ends (fuel : Nat) (data : EventData) (e : Engine) :
    (raiseEvent fuel data .done).ends e =
      (((settle fuel).ends (e.raised data)).1.map (Option.map fun _ => ()),
        ((settle fuel).ends (e.raised data)).2) := by
  have hraise : (raise data (.script .done)).ends e = (.ok (), e.raised data) := rfl
  unfold raiseEvent andSettle
  rw [ends_bind_ok hraise, ends_bind]
  rcases (settle fuel).ends (e.raised data) with ⟨_ | _, _⟩ <;> rfl

theorem allUses_congr (h : e'.abilities = e.abilities) : e'.allUses = e.allUses := by
  unfold allUses usesOf
  simp only [ability?_congr h, h]

end Engine

namespace Moment

variable {b : Board} {ds : List Deed} {data : EventData}

/-- In a state in which nothing waits, let every trigger have a limit that stops it, and costs that
move no card, and let its effects be calm. Then an event that is raised comes to an end: the queue
is empty or stands at a prompt, or a payment has failed, or a card that was played for an ability is
not listed where it is and cannot be discarded. However many turns the queue is given, no more
effects begin than the limits of the triggers add up to. -/
theorem trigger_chain_ends (hidle : ((start b).run ds).running = none)
    (hempty : ((start b).run ds).engine.queue.pending = [])
    (hlabelled : ((start b).run ds).engine.board.Labelled)
    (hlimited : ((start b).run ds).engine.Limited)
    (hcalm : (((start b).run ds).engine.raised data).CalmEffects) :
    (∃ fuel, Engine.Halts ((Engine.raiseEvent fuel data .done).ends ((start b).run ds).engine) ∨
      Engine.Sticks ((Engine.raiseEvent fuel data .done).ends ((start b).run ds).engine)) ∧
    ∀ fuel, (((start b).run ds).engine.raised data).effectsRun fuel ≤
      ((start b).run ds).engine.allUses := by
  have hreached : Reached ⟨((start b).run ds).engine, none⟩ := ⟨b, ds, by rw [← hidle]⟩
  generalize ((start b).run ds).engine = e at hempty hlabelled hlimited hcalm hreached ⊢
  obtain ⟨hnone, e', hturn, hchained, habilities⟩ :=
    Engine.turn_raised hreached (List.append_eq_nil_iff.mp hempty).1 hlabelled hlimited hcalm
  constructor
  · obtain ⟨fuel, hends⟩ := hchained.ends
    refine ⟨fuel + 1, ?_⟩
    rw [Engine.raiseEvent_ends, Engine.settle_succ, ends_bind_ok hturn]
    exact hends.imp Engine.Halts.map Engine.Sticks.map
  · intro fuel
    cases fuel with
    | zero => exact Nat.zero_le _
    | succ fuel =>
      calc (e.raised data).effectsRun (fuel + 1) = e'.effectsRun fuel := by
            rw [Engine.effectsRun, hnone, hturn, Nat.zero_add]
        _ ≤ e'.allLeft := hchained.effectsRun_le fuel
        _ ≤ e'.allUses := e'.allLeft_le
        _ = e.allUses := Engine.allUses_congr habilities

/-! ### Chains that are run to their end -/

end Moment

/-- Whether nothing is left of a script. -/
def Script.isDone : Script → Bool
  | .done => true
  | _ => false

namespace Engine

/-- Whether the queue has not stopped within some turns. -/
def runsOut (fuel : Nat) (e : Engine) : Bool :=
  match (settle fuel).ends e with
  | (.ok none, _) => true
  | _ => false

/-- More turns do nothing once the queue has stopped. -/
theorem settle_more {n : Nat} (h : e.runsOut n = false) (k : Nat) :
    (settle (n + k)).ends e = (settle n).ends e := by
  induction n generalizing e with
  | zero => simp [runsOut, settle_zero] at h
  | succ n ih =>
    have hsucc : n + 1 + k = n + k + 1 := Nat.add_right_comm n 1 k
    unfold runsOut at h
    rw [settle_succ, ends_bind] at h
    rw [hsucc, settle_succ, settle_succ, ends_bind, ends_bind]
    rcases hturn : turn.ends e with ⟨_ | _ | status, e'⟩
    · rfl
    · rw [hturn] at h
      exact ih h
    · rfl

/-- Effects of which nothing is left when they begin are calm, where the queue stops. -/
theorem calmEffects_of_isDone {n : Nat} (hstops : e.runsOut n = false)
    (hdone : ∀ k < n, (Moment.turn ((settle k).ends e).2).running.all (·.rest.isDone)) :
    e.CalmEffects := by
  intro k e₁ hk e₂ a x activation script hturn _
  -- A queue that goes on after so many turns has not stopped before.
  have hless : k < n := by
    by_contra hnot
    obtain ⟨more, rfl⟩ := Nat.exists_eq_add_of_le (Nat.not_lt.mp hnot)
    rw [settle_more hstops] at hk
    simp [runsOut, hk] at hstops
  have hscript := hdone k hless
  rw [hk] at hscript
  simp only [hturn, Option.all_some] at hscript
  cases script with
  | done => exact .done
  | _ => simp [Script.isDone] at hscript

/-- Whether the queue stops so after a play. -/
def isHalt {α : Type} : Except RulesError (Option α) → Bool
  | .ok (some _) | .error (.paymentFailed ..) => true
  | _ => false

theorem Halts.isHalt {α : Type} {r : Except RulesError (Option α)} (h : Halts (r, e)) :
    Engine.isHalt r := by
  cases h <;> rfl

/-- An event does not come to a halt if its chain does so for no number of turns up to its end. -/
theorem not_halts_raiseEvent {n : Nat} (hstops : (e.raised data).runsOut n = false)
    (hnot : ∀ k < n + 1, isHalt ((settle k).ends (e.raised data)).1 = false) (fuel : Nat) :
    ¬Halts ((raiseEvent fuel data .done).ends e) := by
  intro hhalts
  rw [raiseEvent_ends] at hhalts
  have hhalt : isHalt ((settle fuel).ends (e.raised data)).1 := by
    have hsame : ∀ r : Except RulesError (Option QueueStatus),
        isHalt (r.map (Option.map fun _ => ())) = isHalt r := by
      rintro (err | _ | _)
      · cases err <;> rfl
      · rfl
      · rfl
    rw [← hsame]
    exact hhalts.isHalt
  by_cases hless : fuel < n + 1
  · rw [hnot fuel hless] at hhalt
    simp at hhalt
  · obtain ⟨more, rfl⟩ := Nat.exists_eq_add_of_le (Nat.le_of_succ_le (Nat.not_lt.mp hless))
    rw [settle_more hstops, hnot n (Nat.lt_succ_self n)] at hhalt
    simp at hhalt

end Engine

namespace Moment

/-- A deed has an ability that resolves twice at most and that its own resolution sets off again. -/
def resolvesTwice : List Deed :=
  [.call (.attach ⟨3⟩ {
      kind := .forced
      triggers := [(.shootoutFinished, fun _ _ => true), (.abilityResolved, fun _ _ => true)]
      handler := some fun _ => .done
      limit := some ⟨2, .shootout⟩ })]

/-- The limit is reached. -/
theorem trigger_chain_ends_resolvesTwice :
    (((start deedInPlay).run resolvesTwice).engine.raised .shootoutFinished).effectsRun 20 = 2 ∧
      ((start deedInPlay).run resolvesTwice).engine.allUses = 2 ∧
      (∃ fuel, Engine.Halts ((Engine.raiseEvent fuel .shootoutFinished .done).ends
          ((start deedInPlay).run resolvesTwice).engine) ∨
        Engine.Sticks ((Engine.raiseEvent fuel .shootoutFinished .done).ends
          ((start deedInPlay).run resolvesTwice).engine)) ∧
      ∀ fuel, (((start deedInPlay).run resolvesTwice).engine.raised .shootoutFinished).effectsRun
        fuel ≤ ((start deedInPlay).run resolvesTwice).engine.allUses := by
  refine ⟨by decide +kernel, by decide +kernel, trigger_chain_ends rfl rfl
    (Board.labelled_insert rfl rfl) ?_ (Engine.calmEffects_of_isDone (n := 20) ?_ ?_)⟩
  · unfold Engine.Limited
    decide +kernel
  · decide +kernel
  · decide +kernel

/-- Two players, and an action card that is being played and belongs to neither. -/
def strangersAction : Board :=
  { Board.twoPlayer "Ann" "Bob" 0 with
    cards := IdMap.empty.insert ⟨3⟩
      { Card.new ⟨3⟩ "A" .action ⟨2⟩ with location := .beingPlayed }
    nextNumber := 4 }

/-- The first player has the use of an ability of the card. -/
def usedByFirst : List Deed :=
  [.call (.attach ⟨3⟩ {
      kind := .forced
      cardAbility := false
      locations := [.beingPlayed]
      limit := some ⟨1, .round⟩
      triggers := [(.shootoutFinished, fun _ _ => true)]
      responsible := some fun _ _ => some ⟨0⟩
      handler := some fun _ => .done })]

/-- No zone lists the card, for its owner has none: it cannot be discarded once the ability has
resolved, and the event ends in an error. -/
theorem not_halts_strangersAction :
    ((start strangersAction).run usedByFirst).running = none ∧
      ((start strangersAction).run usedByFirst).engine.queue.pending = [] ∧
      ((start strangersAction).run usedByFirst).engine.board.Labelled ∧
      ((start strangersAction).run usedByFirst).engine.Limited ∧
      (((start strangersAction).run usedByFirst).engine.raised .shootoutFinished).CalmEffects ∧
      ∀ fuel, ¬Engine.Halts ((Engine.raiseEvent fuel .shootoutFinished .done).ends
        ((start strangersAction).run usedByFirst).engine) := by
  refine ⟨rfl, rfl, Board.labelled_insert rfl rfl, ?_,
    Engine.calmEffects_of_isDone (n := 5) ?_ ?_, Engine.not_halts_raiseEvent (n := 5) ?_ ?_⟩
  · unfold Engine.Limited
    decide +kernel
  · decide +kernel
  · decide +kernel
  · decide +kernel
  · decide +kernel

end Moment

end Doomtown
