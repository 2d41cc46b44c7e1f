import Doomtown.Proofs.Alteration

/-!
# What the engine plays on the board

The engine changes its board by time stamps, moves and payments, as orders say, and where the use of
a headline is noted. `Board.Suits` says of a relation between boards that stamps, moves and payments
keep to it. Then all that the engine does for a deed keeps to it, but for what is set up, what an
order does to the board, and that note (`Board.Suits.after`).
-/

namespace Doomtown

open Play

/-- Board plays that look something up change nothing. -/
theorem Board.chains_getCard {R : Board → Board → Prop} (c : CardId) : (getCard c).Chains R :=
  .bind .look fun b => by
    cases b.card? c with
    | some card => exact .answer _
    | none => exact .fail _

theorem Board.chains_getPlayer {R : Board → Board → Prop} (p : PlayerId) :
    (getPlayer p).Chains R :=
  .bind .look fun b => by
    cases b.player? p with
    | some player => exact .answer _
    | none => exact .fail _

/-- The boards of two engines are related. -/
def Engine.Boards (R : Board → Board → Prop) (e e' : Engine) : Prop := R e.board e'.board

/-- What a relation between boards needs for all plays of the engine to keep to it. -/
structure Board.Suits (R : Board → Board → Prop) : Prop where
  refl : ∀ b, R b b
  trans : ∀ {b b' b''}, R b b' → R b' b'' → R b b''
  takeTimestamp : Board.takeTimestamp.Chains R
  moveCard : ∀ c destination, (Board.moveCard c destination).Chains R
  payAll : ∀ title x costs, (Payment.payAll title x costs).Chains R

namespace Board.Suits

open Engine

variable {R : Board → Board → Prop} {e e' : Engine} (h : Suits R)

include h

theorem boards_of_chain (hchain : Relation.ReflTransGen (Boards R) e e') : R e.board e'.board :=
  link_of_chain (R := Boards R) (fun _ => h.refl _) h.trans hchain

/-- A change elsewhere than on the board. -/
theorem change {f : Engine → Engine} (hf : ∀ e, (f e).board = e.board) :
    (Play.change f).Chains (Boards R) :=
  .change fun e => by rw [Boards, hf]; exact h.refl _

theorem onBoard {α : Type} {p : Play Board α} (hp : p.Chains R) :
    (Engine.onBoard p).Chains (Boards R) := by
  refine .single fun e => ?_
  rw [Engine.onBoard, ends_within]
  exact link_of_chain (R := R) h.refl h.trans (hp e.board)

/-! ## Plays of the engine -/

theorem post (kind : StepKind) : (Engine.post kind).Chains (Boards R) :=
  .bind (.view _) fun _ => .bind (h.change fun _ => rfl) fun _ => .answer _

theorem postNext (kind : StepKind) : (Engine.postNext kind).Chains (Boards R) :=
  .bind (.view _) fun _ => .bind (h.change fun _ => rfl) fun _ => .answer _

theorem register (a : AbilityId) : (Engine.register a).Chains (Boards R) :=
  .bind .look fun _ => .ite (.answer _) (.bind (chains_getAbility a) fun _ =>
    .bind (h.change fun _ => rfl) fun _ => .trace _)

theorem unregister (a : AbilityId) : (Engine.unregister a).Chains (Boards R) :=
  .bind .look fun _ => .bind (h.change fun _ => rfl) fun _ => .ite (.trace _) (.answer _)

theorem refreshEach (location : Location) :
    ∀ l : List AbilityId, (Engine.refreshEach location l).Chains (Boards R)
  | [] => .answer _
  | a :: rest => .bind (chains_getAbility a) fun _ =>
      .ite (.bind (h.register a) fun _ => refreshEach location rest)
        (.bind (h.unregister a) fun _ => refreshEach location rest)

theorem refresh (c : CardId) : (Engine.refresh c).Chains (Boards R) :=
  .bind (h.onBoard (chains_getCard c)) fun card => .bind .look fun _ =>
    h.refreshEach card.location _

theorem addAbility (c : CardId) (d : Design) : (Engine.addAbility c d).Chains (Boards R) :=
  .bind (h.onBoard (chains_getCard c)) fun _ => .bind (.ofExcept _) fun _ =>
    .bind .look fun _ => .bind (.trace _) fun _ => .bind (h.change fun _ => rfl)
      fun _ => .ite (.bind (h.register _) fun _ => .answer _) (.answer _)

theorem raise (data : EventData) (c : EventChange) : (Engine.raise data c).Chains (Boards R) :=
  .bind (h.onBoard h.takeTimestamp) fun _ => .discard (h.post _)

theorem afterMove (c : CardId) (origin destination : Location) :
    (Engine.afterMove c origin destination).Chains (Boards R) := by
  refine .bind (h.refresh c) fun _ => ?_
  cases moveEvent? c origin destination with
  | some data => exact .bind (h.raise data _) fun _ => .answer _
  | none => exact .answer _

/-- A move, and what it entails. -/
theorem relocate (c : CardId) (destination : Location) :
    (Engine.moveCard c destination).Chains (Boards R) :=
  .bind (h.onBoard (h.moveCard c destination)) fun origin => h.afterMove c origin destination

theorem afterMoves :
    ∀ l : List (CardId × Location × Location), (Engine.afterMoves l).Chains (Boards R)
  | [] => .answer _
  | (c, origin, destination) :: rest =>
    .bind (.discard (h.afterMove c origin destination)) fun _ => afterMoves rest

theorem modifyActivation (x : ActivationId) (f : Activation → Activation) :
    (Engine.modifyActivation x f).Chains (Boards R) := h.change fun _ => rfl

theorem payCosts (a : Ability) (x : ActivationId) (activation : Activation) :
    (Engine.payCosts a x activation).Chains (Boards R) := by
  refine .bind (.attempt (h.onBoard (h.payAll a.title activation a.costs))) fun r => ?_
  rcases r with err | receipts
  · cases err with
    | paymentFailed => exact .bind (h.modifyActivation x _) fun _ => .fail _
    | _ => exact .bind (.trace _) fun _ => h.modifyActivation x _
  · exact .bind (h.modifyActivation x _) fun _ => .bind (h.afterMoves _) fun _ =>
      .discard (h.post _)

theorem fillSlots (a : Ability) (x : ActivationId) (activation : Activation) :
    ∀ slots : List TargetSlot, (Engine.fillSlots a x activation slots).Chains (Boards R)
  | [] => .bind (h.modifyActivation x _) fun _ => .discard (h.post _)
  | slot :: rest => by
    unfold Engine.fillSlots
    refine .ite (fillSlots a x activation rest) (.bind .look fun e => ?_)
    rcases slot.choices e.board activation with _ | ⟨target, _ | ⟨other, more⟩⟩
    · exact .bind (.bind .look fun _ => .log _) fun _ => h.modifyActivation x _
    · exact .bind (h.modifyActivation x _) fun _ => fillSlots a x activation rest
    · exact .bind .look fun _ => .bind (h.post _) fun _ => h.modifyActivation x _

theorem notifyEach : ∀ l : List Subscription, (Engine.notifyEach l).Chains (Boards R)
  | [] => .answer _
  | s :: rest => by
    refine .bind ?_ fun _ => notifyEach rest
    unfold notify
    cases s.listener with
    | resetUsage => exact h.change fun _ => rfl
    | clearActivations => exact h.change fun _ => rfl
    | trigger => exact .answer _

theorem openWindow (event : GameEvent) : (Engine.openWindow event).Chains (Boards R) :=
  .bind .look fun _ => .bind (h.notifyEach _) fun _ => .bind .look fun _ =>
    .ite (.answer _) (.bind (.trace _) fun _ => .discard (h.post _))

theorem advance (w : TriggerWindow) : (Engine.advance w).Chains (Boards R) := by
  refine .single fun e => ?_
  obtain ⟨event, pending⟩ := w
  cases pending with
  | nil => exact h.refl _
  | cons c rest =>
    -- An offer does not touch the board at all.
    obtain ⟨e₁, hoffers, hends⟩ := advance_ends e event c rest
    obtain ⟨q, hq⟩ := requeued_eq e₁ event rest
    rw [hends, hq]
    show R e.board e₁.board
    rw [hoffers.untouched.1.board]
    exact h.refl _

theorem accept (x : ActivationId) (choice : Option Nat) :
    (Engine.accept x choice).Chains (Boards R) := by
  refine .bind .look fun e => ?_
  cases e.activations.get? x with
  | none => exact .answer _
  | some activation =>
    exact .bind (chains_getAbility _) fun a => .ite
      (.bind (h.modifyActivation x _) fun _ => .discard (h.post _)) (h.change fun _ => rfl)

theorem answerWith (n : Nat) {reply : Answer} (hreply : ∀ answers, reply ≠ .script answers) :
    (Engine.answerWith n reply).Chains (Boards R) := by
  cases reply with
  | script answers => exact absurd rfl (hreply answers)
  | offer x alternatives => exact .ite (h.change fun _ => rfl) (h.accept x _)
  | target x slot choices =>
    show (chooseTarget x slot choices n).Chains _
    unfold chooseTarget
    cases choices[n]? with
    | none => exact .answer _
    | some target => exact .bind (h.modifyActivation x _) fun _ => .discard (h.post _)

/-- A step that runs no script. -/
theorem runStep (s : Step) (hwhole : e.opening s.kind = none) :
    R e.board ((Engine.runStep s).ends e).2.board := by
  rw [runStep_kind]
  obtain ⟨i, kind⟩ := s
  cases kind with
  | task label body => simp [opening] at hwhole
  | prompt p => exact h.refl _
  | window w => exact h.boards_of_chain (h.advance w e)
  | complete x => exact h.refl _
  | event event change =>
    cases change with
    | script body => simp [opening] at hwhole
    | emitted x =>
      exact h.boards_of_chain (Play.Chains.bind (h.modifyActivation x _)
        (fun _ => h.openWindow event) e)
  | resolve x stage =>
    dsimp only at hwhole ⊢
    unfold resolve
    rw [ends_bind_ok (ends_look e)]
    cases hget : e.activations.get? x with
    | none => exact h.refl _
    | some activation =>
      dsimp only
      -- Nothing is resolved for an activation that has come to its end.
      by_cases hlive : activation.isLive
      · simp only [hlive, Bool.not_true, Bool.false_eq_true, if_false]
        cases hability : e.ability? activation.ability with
        | none =>
          rw [ends_bind_error (getAbility_missing hability)]
          exact h.refl _
        | some a =>
          rw [ends_bind_ok (getAbility_ends hability)]
          cases stage with
          | payCosts => exact h.boards_of_chain (h.payCosts a x activation e)
          | chooseTargets => exact h.boards_of_chain (h.fillSlots a x activation a.targets e)
          | execute => simp [opening, hget, hability, hlive] at hwhole
      · simp only [hlive, Bool.not_false, if_true]
        exact h.refl _

theorem activate (a : AbilityId) (p : PlayerId) : (Engine.activate a p).Chains (Boards R) := by
  have htake : takeActivationId.Chains (Boards R) :=
    .bind (.view _) fun _ => .bind (h.change fun _ => rfl) fun _ => .answer _
  refine .bind (chains_getAbility a) fun ability => .ite (.bind (.trace _) fun _ => .answer _)
    (.bind htake fun x => .bind .look fun e => ?_)
  cases Legality.check e.board e.usage ability (.new a ability.source p none) with
  | error reason => exact .bind (.trace _) fun _ => .answer _
  | ok _ =>
    exact .bind (h.change fun _ => rfl) fun _ => .bind (h.change fun _ => rfl) fun _ =>
      .bind (.discard (h.postNext _)) fun _ => .answer _

theorem withdraw (i : StepId) : (Engine.withdraw i).Chains (Boards R) :=
  .bind .look fun _ => .ite (.bind (h.change fun _ => rfl) fun _ => .bind (.trace _) fun _ =>
    .answer _) (.answer _)

/-- What is left of a last stage once the use is noted. -/
theorem ended (a : Ability) (x : ActivationId) (activation : Activation) : (do
    Engine.modifyActivation x ({ · with stage := .executed })
    discardPlayed a.source
    Engine.raise (.abilityResolved activation.ability a.source activation.player) (.emitted x)
    discard (Engine.post (.complete x)) : Play Engine Unit).Chains (Boards R) :=
  .bind (h.modifyActivation x _) fun _ =>
    .bind (.bind .look fun _ => .ite (.discard (h.relocate _ _)) (.pure _)) fun _ =>
      .bind (h.raise _ _) fun _ => .discard (h.post _)

/-- An effect is concluded with a note that a headline was used. -/
theorem conclude {a : Ability} (hnote : (noteHeadline a.source).Chains (Boards R))
    (x : ActivationId) (activation : Activation) :
    (Engine.conclude a x activation).Chains (Boards R) :=
  .bind (h.change fun _ => rfl) fun _ => .bind hnote fun _ => h.ended a x activation

/-! ## Deeds -/

/-- What is asked of the engine, but for orders and set-ups. -/
theorem call (c : Call) (hboard : ∀ f, c = .board f → R e.board (f e.board))
    (horder : ∀ o, c = .order o → R e.board (o.carryOut.ends e).2.board) :
    R e.board (c.play.ends e).2.board := by
  cases c with
  | board f => exact hboard f rfl
  | order o =>
    rw [Call.play, ends_discard]
    exact horder o rfl
  | attach card design =>
    exact h.boards_of_chain (Play.Chains.discard (h.addAbility card design) e)
  | refresh card => exact h.boards_of_chain (h.refresh card e)
  | clear ability => exact h.refl _
  | raise event change => exact h.boards_of_chain (h.raise event _ e)
  | queue label body => exact h.boards_of_chain (Play.Chains.discard (h.post _) e)
  | ask player title buttons source answers =>
    exact h.boards_of_chain (Play.Chains.discard (h.post _) e)

theorem turn (e : Engine) : R e.board (Moment.turn e).engine.board := by
  unfold Moment.turn
  cases hbegin : e.queue.begin? with
  | none => exact h.refl _
  | some sq =>
    obtain ⟨s, q⟩ := sq
    dsimp only
    cases hopening : e.opening s.kind with
    -- A step that opens a script does no more than that: what the script does are deeds to come.
    | some r => exact h.refl _
    | none =>
      dsimp only
      rw [asStep_ends]
      exact h.runStep (e := { e with queue := q }) s hopening

theorem respond (e : Engine) (p : PlayerId) (n : Nat) :
    R e.board (Moment.respond e p n).engine.board := by
  unfold Moment.respond
  cases hbegin : e.queue.beginAnswer? with
  | none => exact h.refl _
  | some ipq =>
    obtain ⟨i, prompt, q⟩ := ipq
    -- An answer is taken in whole unless a script goes on with it.
    have hwhole : ∀ reply, (∀ answers, reply ≠ .script answers) →
        R e.board ((asStep q (Engine.answerWith n reply)).ends e).2.board := by
      intro reply hreply
      have hkeeps := h.boards_of_chain (h.answerWith n hreply { e with queue := q })
      rw [asStep_ends]
      exact hkeeps
    dsimp only
    split
    · cases prompt.answer with
      | script answers => exact h.refl _
      | target x slot choices => exact hwhole _ (by simp)
      | offer x alternatives => exact hwhole _ (by simp)
    · exact h.refl _

/-- A script that goes on, but for orders and the end of an effect. -/
theorem go (task : Task) (script : Script)
    (horder : ∀ o next, script = .order o next → R e.board (o.carryOut.ends e).2.board)
    (hclose : ∀ a x activation, task = .effect a x activation → script = .done →
      R e.board ((Engine.conclude a x activation).ends e).2.board) :
    R e.board (Moment.go e task script).engine.board := by
  cases script with
  | done =>
    cases task with
    | plain => exact h.refl _
    | event event =>
      have hkeeps := h.boards_of_chain (h.openWindow event e)
      exact hkeeps
    | effect a x activation => exact hclose a x activation rfl rfl
  | order o next => exact horder o next rfl
  | raise event change next =>
    have hkeeps := h.boards_of_chain (h.raise event (.script change) e)
    exact hkeeps
  | _ => exact h.refl _

/-- All that the engine does for a deed, but for what is set up, what an order does and how an
effect is concluded. -/
theorem after (m : Moment) (d : Deed)
    (hboard : ∀ f, m.running = none → d = .call (.board f) → R m.engine.board (f m.engine.board))
    (horder : ∀ o, m.gives d = some o → R m.engine.board (o.carryOut.ends m.engine).2.board)
    (hclose : ∀ a x activation, m.running = some ⟨.effect a x activation, .done⟩ →
      R m.engine.board ((Engine.conclude a x activation).ends m.engine).2.board) :
    R m.engine.board (m.after d).engine.board := by
  obtain ⟨e, running⟩ := m
  cases running with
  | none =>
    cases d with
    | call c =>
      exact h.call c (fun f hf => hboard f rfl (by rw [hf])) fun o ho =>
        horder o (by rw [ho]; rfl)
    | turn => exact h.turn e
    | answer p n => exact h.respond e p n
    | go => exact h.refl _
  | some r =>
    obtain ⟨task, script⟩ := r
    cases d with
    | go =>
      refine h.go task script (fun o next hscript => ?_) fun a x activation htask hscript => ?_
      · subst hscript
        exact horder o (by cases task <;> rfl)
      · subst htask hscript
        exact hclose a x activation rfl
    | _ => exact h.refl _

end Board.Suits

end Doomtown
