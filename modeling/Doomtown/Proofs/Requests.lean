import Doomtown.Engine.Menu
import Doomtown.Proofs.Course

/-!
# Requests

What players and the game ask of the engine from outside. A request is one deed at most, and what
follows it the queue does by itself (`Request.run`).
-/

namespace Doomtown

open Play

/-! ## Running the queue -/

/-- Nothing waits, or a prompt does that is to be answered first. -/
def StepQueue.Rests (q : StepQueue) : Prop := q.steps = [] ∨ q.frontPrompt?.isSome

instance (q : StepQueue) : Decidable q.Rests := inferInstanceAs (Decidable (_ ∨ _))

/-- Where the queue does not rest, a step is at its front that can start. -/
theorem StepQueue.front_of_not_rests (q : StepQueue) (h : ¬q.Rests) :
    ∃ s rest, q.steps = s :: rest ∧ ∀ p, s.kind ≠ .prompt p := by
  obtain ⟨steps, running, nextId⟩ := q
  cases steps with
  | nil => exact absurd (.inl rfl) h
  | cons s rest =>
    refine ⟨s, rest, rfl, fun p hp => h (.inr ?_)⟩
    obtain ⟨i, kind⟩ := s
    obtain rfl : kind = .prompt p := hp
    rfl

namespace Engine

variable {e e' : Engine} {fuel : Nat}

/-- Where the queue rests, a turn does nothing but to say where it stands. -/
theorem turn_rests (hidle : e.queue.running = none) (hrests : e.queue.Rests) :
    turn.ends e = (.ok (some e.status), e) := by
  unfold turn status
  rw [ends_bind_ok (ends_look e)]
  rcases hrests with hnil | hprompt
  · have hnone : e.queue.frontPrompt? = none := by simp [StepQueue.frontPrompt?, hnil]
    have hbegin : e.queue.begin? = none := by simp [StepQueue.begin?, hidle, hnil]
    simp only [hnone, hbegin]
    rfl
  · obtain ⟨prompt, hsome⟩ := Option.isSome_iff_exists.mp hprompt
    simp only [hsome]
    rfl

/-- Where the queue rests, running it does no more. -/
theorem settle_status (hidle : e.queue.running = none) (hrests : e.queue.Rests) (fuel : Nat) :
    (settle (fuel + 1)).ends e = (.ok (some e.status), e) := by
  rw [settle_succ, ends_bind_ok (turn_rests hidle hrests)]
  rfl

theorem settle_rests (hidle : e.queue.running = none) (hrests : e.queue.Rests) (fuel : Nat) :
    ∃ status, (settle (fuel + 1)).ends e = (.ok (some status), e) :=
  ⟨e.status, settle_status hidle hrests fuel⟩

/-- Where the queue rests, a run of it stops at once. -/
theorem settle_stops {status : QueueStatus} (hidle : e.queue.running = none)
    (hrests : e.queue.Rests) (h : (settle fuel).ends e = (.ok (some status), e')) : e' = e := by
  cases fuel with
  | zero =>
    rw [settle_zero] at h
    simp at h
  | succ fuel =>
    obtain ⟨status', hsettle⟩ := settle_rests hidle hrests fuel
    rw [hsettle] at h
    exact (Prod.mk.inj h).2.symm

/-- Where a step that is no prompt is at the front, a turn runs it. -/
theorem turn_runs {s : Step} {rest : List Step} (hidle : e.queue.running = none)
    (hfront : e.queue.steps = s :: rest) (hkind : ∀ p, s.kind ≠ .prompt p) :
    turn.ends e =
      match (runStep s).ends { e with queue := e.queue.started rest } with
      | (.ok _, e₁) => (.ok none, e₁.finished)
      | (.error err, e₁) => (.error err, e₁.finished) := by
  obtain ⟨i, kind⟩ := s
  have hnone : e.queue.frontPrompt? = none := by
    unfold StepQueue.frontPrompt?
    rw [hfront]
    cases kind with
    | prompt p => exact absurd rfl (hkind p)
    | _ => rfl
  have hbegin : e.queue.begin? = some (⟨i, kind⟩, e.queue.started rest) :=
    StepQueue.begin?_front hidle hfront hkind
  have hturn : turn.ends e =
      (do asStep (e.queue.started rest) (runStep ⟨i, kind⟩); answer none :
        Play Engine (Option QueueStatus)).ends e := by
    unfold turn
    rw [ends_bind_ok (ends_look e)]
    simp only [hnone, hbegin]
  rw [hturn, ends_bind, asStep_ends]
  rcases (runStep ⟨i, kind⟩).ends { e with queue := e.queue.started rest } with ⟨_ | _, _⟩ <;> rfl

/-- Running the queue starts the step then. -/
theorem settle_runs {s : Step} {rest : List Step} (hidle : e.queue.running = none)
    (hfront : e.queue.steps = s :: rest) (hkind : ∀ p, s.kind ≠ .prompt p) (fuel : Nat) :
    (settle (fuel + 1)).ends e =
      match (runStep s).ends { e with queue := e.queue.started rest } with
      | (.ok _, e₁) => (settle fuel).ends e₁.finished
      | (.error err, e₁) => (.error err, e₁.finished) := by
  rw [settle_succ, ends_bind, turn_runs hidle hfront hkind]
  rcases (runStep s).ends { e with queue := e.queue.started rest } with ⟨_ | _, _⟩ <;> rfl

end Engine

/-! ## Requests -/

/-- What can be asked of the engine while no step runs. -/
inductive Request where
  /-- What does not run the queue. -/
  | call (c : Call)
  | settle
  | activate (a : AbilityId) (p : PlayerId)
  | click (c : CardId) (p : PlayerId)
  | retract (a : AbilityId) (p : PlayerId)
  | answer (p : PlayerId) (n : Nat)
  | raise (event : EventData) (change : Script)
  | beginRound
  | move (c : CardId) (destination : Location)
  | ask (player : PlayerId) (view : PromptView) (answers : Nat → Script)

namespace Request

/-- What the engine does when it is asked, with as many turns of the queue as it may take. -/
def play (fuel : Nat) : Request → Play Engine Unit
  | call c => c.play
  | settle => discard (Engine.settle fuel)
  | activate a p => discard (Engine.playAction fuel a p)
  | click c p => discard (Engine.click fuel c p)
  | retract a p => discard (Engine.takeBack fuel a p)
  | answer p n => discard (Engine.respond fuel p n)
  | raise event change => discard (Engine.raiseEvent fuel event change)
  | beginRound => discard (Engine.startRound fuel)
  | move c destination => discard (Engine.relocate fuel c destination)
  | ask player view answers => discard (Engine.ask fuel ⟨view, player, .script answers⟩)

/-- The deed that is asked for, if any. -/
def deed? (e : Engine) : Request → Option Deed
  | call c => some (.call c)
  | settle => none
  | activate a p => some (.call (.order (.activate a p)))
  | click c p => (e.clickAction? c p).map fun a => .call (.order (.activate a p))
  | retract a p => some (.call (.order (.retract a p)))
  | answer p n => some (.answer p n)
  | raise event change => some (.call (.raise event change))
  | beginRound => some (.call (.order .beginRound))
  | move c destination => some (.call (.order (.move c destination)))
  | ask player view answers =>
    some (.call (.ask player view.title view.buttons view.source answers))

end Request

namespace Engine

variable {e e₁ e' : Engine} {d : Deed} {fuel : Nat}

/-- A deed, and what follows it by itself, leads from one state of the engine to another. -/
def Entails (e : Engine) (d : Deed) (e' : Engine) : Prop :=
  ∃ ds, (∀ d ∈ ds, Deed.Unasked d) ∧ Moment.run ⟨e, none⟩ (d :: ds) = ⟨e', none⟩

theorem Entails.trans (h : e.Entails d e₁) (h' : e₁.Proceeds e') : e.Entails d e' := by
  obtain ⟨ds, hunasked, hds⟩ := h
  obtain ⟨ds', hunasked', hds'⟩ := h'
  refine ⟨ds ++ ds', fun d hd => ?_, ?_⟩
  · exact (List.mem_append.mp hd).elim (hunasked d) (hunasked' d)
  · rw [← List.cons_append, Moment.run_append, hds, hds']

theorem settle_run (fuel : Nat) (e : Engine) : e.Proceeds ((settle fuel).ends e).2 :=
  proceeds_of_chain (settle_proceeds fuel e)

/-- What runs the queue after it has done a deed entails nothing else. -/
theorem entails_andSettle {α : Type} {p : Play Engine α} (h : e.Entails d (p.ends e).2) :
    e.Entails d ((andSettle fuel p).ends e).2 := by
  unfold andSettle
  rw [ends_bind]
  rcases hp : p.ends e with ⟨err | a, e₁⟩
  · rw [hp] at h
    exact h
  · rw [hp] at h
    dsimp only
    rw [bind_pure_comp, ends_map]
    exact h.trans (settle_run fuel e₁)

theorem entails_settleIf {p : Play Engine Bool} (h : e.Entails d (p.ends e).2) :
    e.Entails d ((settleIf fuel p).ends e).2 := by
  unfold settleIf
  rw [ends_bind]
  rcases hp : p.ends e with ⟨err | b, e₁⟩
  · rw [hp] at h
    exact h
  · rw [hp] at h
    cases b with
    | false => exact h
    | true =>
      dsimp only
      rw [if_pos rfl, bind_pure_comp, ends_map]
      exact h.trans (settle_run fuel e₁)

/-- A call is one deed. -/
theorem entails_call (e : Engine) (c : Call) : e.Entails (.call c) (c.play.ends e).2 :=
  ⟨[], by simp, rfl⟩

theorem entails_order (e : Engine) (o : Order) :
    e.Entails (.call (.order o)) (o.carryOut.ends e).2 := by
  have h := e.entails_call (.order o)
  rwa [Call.play, ends_discard] at h

theorem entails_playAction (fuel : Nat) (a : AbilityId) (p : PlayerId) (e : Engine) :
    e.Entails (.call (.order (.activate a p))) ((playAction fuel a p).ends e).2 :=
  entails_settleIf (e.entails_order (.activate a p))

end Engine

namespace Request

/-- A request is its deed and what the queue does by itself. -/
theorem run (r : Request) (fuel : Nat) (e : Engine) :
    ∃ ds, (∀ d ∈ ds, Deed.Unasked d) ∧
      Moment.run ⟨e, none⟩ ((r.deed? e).toList ++ ds) = ⟨((r.play fuel).ends e).2, none⟩ := by
  have hentails : ∀ {d : Deed} {α : Type} {p : Play Engine α}, e.Entails d (p.ends e).2 →
      ∃ ds, (∀ d ∈ ds, Deed.Unasked d) ∧
        Moment.run ⟨e, none⟩ (d :: ds) = ⟨((discard p).ends e).2, none⟩ := by
    intro d α p h
    rw [ends_discard]
    exact h
  cases r with
  | call c => exact e.entails_call c
  | settle =>
    unfold play
    rw [ends_discard]
    exact Engine.settle_run fuel e
  | activate a p => exact hentails (Engine.entails_playAction fuel a p e)
  | click c p =>
    cases hclicked : e.clickAction? c p with
    | none =>
      refine ⟨[], by simp, ?_⟩
      simp [play, deed?, Engine.click, ends_discard, ends_bind, hclicked, Moment.run]
    | some a =>
      -- A click that finds an action plays it.
      have hclick : (Engine.click fuel c p).ends e = (Engine.playAction fuel a p).ends e := by
        unfold Engine.click
        rw [ends_bind_ok (ends_look e), hclicked]
      have hplay := hentails (Engine.entails_playAction fuel a p e)
      rw [ends_discard, ← hclick, ← ends_discard] at hplay
      have hdeed : (click c p).deed? e = some (.call (.order (.activate a p))) := by
        simp [deed?, hclicked]
      rw [hdeed]
      exact hplay
  | retract a p => exact hentails (Engine.entails_settleIf (e.entails_order (.retract a p)))
  | answer p n => exact hentails (Engine.entails_settleIf (Engine.answerPrompt_run p n e))
  | raise event change =>
    exact hentails (Engine.entails_andSettle (e.entails_call (.raise event change)))
  | beginRound => exact hentails (Engine.entails_andSettle (e.entails_order .beginRound))
  | move c destination =>
    refine hentails (Engine.entails_settleIf ?_)
    have h : e.Entails _ ((discard (Engine.moveCard c destination)).ends e).2 :=
      e.entails_order (.move c destination)
    rwa [ends_discard] at h
  | ask player view answers =>
    refine hentails (Engine.entails_andSettle ?_)
    have h := e.entails_call (.ask player view.title view.buttons view.source answers)
    rwa [Call.play, ends_discard] at h

end Request

namespace Match

/-- What becomes of the engine in a match is a run. -/
theorem runWith_run {μ : Type} (choose : Chooser μ) (turns fuel : Nat) (m : Match μ) :
    m.engine.Leads ((runWith choose turns fuel).ends m).2.engine := by
  have hchain := runWith_leads choose turns fuel m
  generalize ((runWith choose turns fuel).ends m).2 = m' at hchain
  induction hchain with
  | refl => exact ⟨[], rfl⟩
  | tail _ hlast ih => exact ih.trans hlast

end Match

end Doomtown
