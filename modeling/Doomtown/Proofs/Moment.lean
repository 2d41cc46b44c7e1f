import Doomtown.Engine.Match
import Doomtown.Proofs.Play

/-!
# Runs, moment by moment

A script gives its orders one at a time, and each order finds the game as those before have left it.
A moment is an engine with what is left of the script that runs, and `Moment.after` says what a deed
makes of it: one order, or a whole step if the step runs no script. A run is a list of deeds. Every
state to which players and scripts can bring the engine is the engine of a moment of a run, whatever
the number of steps that a play of the queue may take (`Engine.settle_leads` and its kin).
-/

namespace Doomtown

open Play

/-! ## What a script is part of -/

namespace Engine

/-- The script of an effect; an effect that does not come about has none. -/
def effectScript (a : Ability) (b : Board) (x : Activation) : Script :=
  if fizzles a b x then .done
  else match a.effect? x with
    | some effect => effect x
    | none => .done

/-- What is left of an activation's last stage once its effect has run. -/
def conclude (a : Ability) (x : ActivationId) (activation : Activation) : Play Engine Unit := do
  change fun e => { e with usage := e.usage.increment activation.ability }
  noteHeadline a.source
  modifyActivation x ({ · with stage := .executed })
  discardPlayed a.source
  raise (.abilityResolved activation.ability a.source activation.player) (.emitted x)
  discard (post (.complete x))

/-- What is left of an event once its change is applied. -/
def openWindow (event : GameEvent) : Play Engine Unit := do
  notifyEach ((← look).registrar.listenersFor event.name)
  let window := (← look).collect event
  if window.pending.isEmpty then answer ()
  else
    trace (s!"trigger window for {event.name.tag} opened with " ++
      s!"{window.pending.length} abilities")
    discard (post (.window window))

/-- The step that ran has ended. -/
def finished (e : Engine) : Engine := { e with queue := e.queue.finish }

end Engine

/-- What the running script is part of. -/
inductive Task where
  /-- A step or an answer that is all script. -/
  | plain
  /-- The change behind an event. -/
  | event (event : GameEvent)
  /-- The effect of an activation. -/
  | effect (ability : Ability) (x : ActivationId) (activation : Activation)

/-- What is left to do once the script has ended. -/
def Task.close : Task → Play Engine Unit
  | .plain => answer ()
  | .event e => Engine.openWindow e
  | .effect a x activation => Engine.conclude a x activation

/-- A script that runs: what it is part of, and what is left of it. -/
structure Running where
  task : Task
  rest : Script

/-- The script that a step runs, if it runs one. -/
def Engine.opening (e : Engine) : StepKind → Option Running
  | .task _ body => some ⟨.plain, body⟩
  | .event event (.script body) => some ⟨.event event, body⟩
  | .resolve x .execute =>
    match e.activations.get? x with
    | none => none
    | some activation =>
      match e.ability? activation.ability with
      | none => none
      | some a =>
        if activation.isLive then
          some ⟨.effect a x activation, effectScript a e.board activation⟩
        else none
  | _ => none

/-! ## Deeds -/

/-- What is asked of the engine from outside while no step runs. -/
inductive Call where
  | order (o : Order)
  /-- Set up the board. -/
  | board (f : Board → Board)
  /-- Attach an ability to a card. -/
  | attach (card : CardId) (design : Design)
  /-- Bring the registration of a card's abilities in step with its location. -/
  | refresh (card : CardId)
  /-- Forget which activations of an ability can be retracted. -/
  | clear (ability : AbilityId)
  | raise (event : EventData) (change : Script)
  | queue (label : String) (body : Script)
  | ask (player : PlayerId) (title : String) (buttons : List String) (source : Option CardId)
      (answers : Nat → Script)

/-- What the engine does when it is asked. -/
def Call.play : Call → Play Engine Unit
  | order o => discard o.carryOut
  | board f => change fun e => { e with board := f e.board }
  | attach card design => discard (Engine.addAbility card design)
  | refresh card => Engine.refresh card
  | clear ability => Engine.clearRetractable ability
  | raise event change => Engine.raise event (.script change)
  | queue label body => discard (Engine.post (.task label body))
  | ask player title buttons source answers =>
    discard (Engine.post (.prompt ⟨⟨title, buttons, source⟩, player, .script answers⟩))

/-- What moves a run on. -/
inductive Deed where
  | call (c : Call)
  /-- Start the step at the front. -/
  | turn
  /-- Answer the prompt at the front. -/
  | answer (player : PlayerId) (choice : Nat)
  /-- Go on with the script that runs. -/
  | go

/-- What the queue does by itself, without anybody asking for it. -/
def Deed.Unasked : Deed → Prop
  | turn | go => True
  | call _ | answer .. => False

/-- An engine, and the script that runs on it, if one does. -/
structure Moment where
  engine : Engine
  running : Option Running

namespace Moment

/-- A step starts: its script begins, or it is done as a whole. -/
def turn (e : Engine) : Moment :=
  match e.queue.begin? with
  | none => ⟨e, none⟩
  | some (s, q) =>
    match e.opening s.kind with
    | some running => ⟨{ e with queue := q }, some running⟩
    | none => ⟨((Engine.asStep q (Engine.runStep s)).ends e).2, none⟩

/-- A prompt is answered: the script of the answer begins, or all is done that the answer does. -/
def respond (e : Engine) (p : PlayerId) (n : Nat) : Moment :=
  match e.queue.beginAnswer? with
  | none => ⟨e, none⟩
  | some (_, prompt, q) =>
    if n < prompt.buttons.length ∧ prompt.player = p then
      match prompt.answer with
      | .script answers => ⟨{ e with queue := q }, some ⟨.plain, answers n⟩⟩
      | other => ⟨((Engine.asStep q (Engine.answerWith n other)).ends e).2, none⟩
    else ⟨e, none⟩

/-- A script goes on: it looks, or gives one order. With its end the step ends. -/
def go (e : Engine) (task : Task) : Script → Moment
  | .done => ⟨(task.close.ends e).2.finished, none⟩
  | .fail _ => ⟨e.finished, none⟩
  | .look next => ⟨e, some ⟨task, next e.sight⟩⟩
  | .order o next => ⟨(o.carryOut.ends e).2, some ⟨task, next (o.carryOut.ends e).1⟩⟩
  | .raise event change next =>
    ⟨((Engine.raise event (.script change)).ends e).2, some ⟨task, next⟩⟩
  | .queue label body next =>
    ⟨((Engine.post (.task label body)).ends e).2, some ⟨task, next e.queue.nextStep⟩⟩
  | .prompt player title buttons source answers next =>
    ⟨((Engine.post (.prompt ⟨⟨title, buttons, source⟩, player, .script answers⟩)).ends e).2,
      some ⟨task, next e.queue.nextStep⟩⟩

/-- The moment after a deed. While a script runs it can only go on. -/
def after (m : Moment) (d : Deed) : Moment :=
  match m.running, d with
  | none, .call c => ⟨(c.play.ends m.engine).2, none⟩
  | none, .turn => turn m.engine
  | none, .answer p n => respond m.engine p n
  | some r, .go => go m.engine r.task r.rest
  | _, _ => m

/-- The moment after some deeds. -/
def run (m : Moment) (ds : List Deed) : Moment := ds.foldl after m

/-- An engine on a board before anything happened. -/
def start (b : Board) : Moment := ⟨.new b, none⟩

/-- Two players at noon, of whom the first has a deed in play. -/
def deedInPlay : Board :=
  { Board.twoPlayer "Ann" "Bob" 0 with
    cards := IdMap.empty.insert ⟨3⟩ { Card.new ⟨3⟩ "A" .deed ⟨0⟩ with location := .playArea }
    playArea := ⟨.playArea, ⟨2⟩, [⟨3⟩]⟩
    round := { RoundState.new ⟨0⟩ with window := some .noon }
    nextNumber := 4 }

/-- Something holds of each deed of a run and of the moment at which it is done. -/
def Along (P : Moment → Deed → Prop) : Moment → List Deed → Prop
  | _, [] => True
  | m, d :: ds => P m d ∧ Along P (m.after d) ds

instance {P : Moment → Deed → Prop} [∀ m d, Decidable (P m d)] :
    ∀ (m : Moment) (ds : List Deed), Decidable (Along P m ds)
  | _, [] => .isTrue trivial
  | m, d :: ds =>
    have := instDecidableAlong (P := P) (m.after d) ds
    inferInstanceAs (Decidable (_ ∧ _))

theorem run_append (m : Moment) (ds ds' : List Deed) : m.run (ds ++ ds') = (m.run ds).run ds' :=
  List.foldl_append

theorem run_cons (m : Moment) (d : Deed) (ds : List Deed) : m.run (d :: ds) = (m.after d).run ds :=
  rfl

theorem along_append {P : Moment → Deed → Prop} :
    ∀ {m : Moment} {ds ds' : List Deed},
      Along P m (ds ++ ds') ↔ Along P m ds ∧ Along P (m.run ds) ds'
  | _, [], _ => by simp [Along, run]
  | m, d :: ds, ds' => by
    rw [List.cons_append, Along, Along, along_append, run_cons, and_assoc]

theorem Along.imp {P Q : Moment → Deed → Prop} (h : ∀ m d, P m d → Q m d) :
    ∀ {m : Moment} {ds : List Deed}, Along P m ds → Along Q m ds
  | _, [], _ => trivial
  | m, d :: _, ⟨hd, hds⟩ => ⟨h m d hd, hds.imp h⟩

end Moment

/-! ## Steps that run a script -/

namespace Engine

/-- An ability that exists is found. -/
theorem getAbility_ends {e : Engine} {a : AbilityId} {ability : Ability}
    (h : e.ability? a = some ability) : (getAbility a).ends e = (.ok ability, e) := by
  unfold getAbility
  rw [ends_bind_ok (ends_look e), h]
  rfl

/-- To look up an ability changes nothing. -/
theorem chains_getAbility {R : Engine → Engine → Prop} (a : AbilityId) :
    (getAbility a).Chains R :=
  .bind .look fun e => by
    cases e.ability? a with
    | some ability => exact .answer _
    | none => exact .fail _

/-- To go on while a script runs changes nothing. -/
theorem chains_resume {R : Engine → Engine → Prop} : (Order.carryOut .resume).Chains R := by
  refine .bind .look fun e => ?_
  cases e.queue.frontPrompt? with
  | some p => exact .bind (.trace _) fun _ => .answer _
  | none => exact .answer _

theorem getAbility_missing {e : Engine} {a : AbilityId} (h : e.ability? a = none) :
    (getAbility a).ends e = (.error (.unknownId a.number), e) := by
  unfold getAbility
  rw [ends_bind_ok (ends_look e), h]
  rfl

/-- The message of an effect changes nothing. -/
theorem takeEffect_ends (a : Ability) (activation : Activation) (e : Engine) :
    (takeEffect a activation).ends e = (match a.effect? activation with
      | some effect => effect activation
      | none => Script.done).run.ends e := by
  have heffect : (match a.effect? activation with
      | some effect => (effect activation).run
      | none => answer ()).ends e = (match a.effect? activation with
        | some effect => effect activation
        | none => Script.done).run.ends e := by
    cases a.effect? activation <;> rfl
  rw [← heffect]
  unfold takeEffect
  cases a.message <;> rfl

/-- An activation's last stage is its effect's script and the conclusion. -/
theorem execute_ends (a : Ability) (x : ActivationId) (activation : Activation) (e : Engine) :
    (execute a x activation).ends e =
      (do (effectScript a e.board activation).run; conclude a x activation : Play Engine Unit).ends
        e := by
  unfold execute effectScript
  rw [ends_bind_ok (ends_look e)]
  by_cases hf : fizzles a e.board activation
  · simp only [hf, if_true]
    rfl
  · simp only [hf, Bool.false_eq_true, if_false]
    rw [ends_bind, takeEffect_ends, ← ends_bind]
    rfl

/-- A stage in time is what the ability makes of it. -/
theorem resolve_live {e : Engine} {x : ActivationId} {activation : Activation} {a : Ability}
    (stage : ResolutionStage) (hget : e.activations.get? x = some activation)
    (hlive : activation.isLive) (hability : e.ability? activation.ability = some a) :
    (resolve x stage).ends e = (match stage with
      | .payCosts => payCosts a x activation
      | .chooseTargets => fillSlots a x activation a.targets
      | .execute => execute a x activation).ends e := by
  unfold resolve
  rw [ends_bind_ok (ends_look e)]
  simp only [hget, hlive, Bool.not_true, Bool.false_eq_true, if_false]
  refine (ends_bind_ok (getAbility_ends hability) _).trans ?_
  cases stage <;> rfl

/-- What a step does is done once it is traced. -/
theorem runStep_kind (s : Step) (e : Engine) :
    (runStep s).ends e = (match s.kind with
      | .task _ body => body.run
      | .resolve x stage => resolve x stage
      | .complete x => complete x
      | .event event c => fire event c
      | .window w => advance w
      | .prompt _ => fail (.refused .promptUnanswered) : Play Engine Unit).ends e := by
  unfold runStep
  refine (ends_bind_ok (ends_trace _ e) _).trans ?_
  cases s.kind <;> rfl

/-- A step that runs a script is a task, or the change behind an event, or the effect of an
activation that is live and whose ability exists. -/
theorem opening_cases {e : Engine} {kind : StepKind} {r : Running} (h : e.opening kind = some r) :
    (∃ label body, kind = .task label body ∧ r = ⟨.plain, body⟩) ∨
      (∃ event body, kind = .event event (.script body) ∧ r = ⟨.event event, body⟩) ∨
      ∃ x activation a, kind = .resolve x .execute ∧
        e.activations.get? x = some activation ∧ e.ability? activation.ability = some a ∧
        activation.isLive ∧ r = ⟨.effect a x activation, effectScript a e.board activation⟩ := by
  unfold opening at h
  split at h
  case h_1 label body => exact .inl ⟨label, body, rfl, (Option.some.inj h).symm⟩
  case h_2 event body => exact .inr (.inl ⟨event, body, rfl, (Option.some.inj h).symm⟩)
  case h_3 x =>
    split at h
    · simp at h
    · rename_i activation hget
      split at h
      · simp at h
      · rename_i a hability
        split at h
        · rename_i hlive
          exact .inr (.inr ⟨x, activation, a, rfl, hget, hability, hlive, (Option.some.inj h).symm⟩)
        · simp at h
  case h_4 => simp at h

/-- A step that runs a script does nothing else but to close it. -/
theorem runStep_ends {e : Engine} {s : Step} {r : Running} (h : e.opening s.kind = some r)
    (q : StepQueue) :
    (runStep s).ends { e with queue := q } =
      (do r.rest.run; r.task.close : Play Engine Unit).ends { e with queue := q } := by
  rw [runStep_kind]
  rcases opening_cases h with ⟨label, body, hkind, rfl⟩ | ⟨event, body, hkind, rfl⟩ |
    ⟨x, activation, a, hkind, hget, hability, hlive, rfl⟩
  · rw [hkind]
    show body.run.ends _ = (do body.run; answer () : Play Engine Unit).ends _
    rw [ends_bind]
    rcases body.run.ends { e with queue := q } with ⟨_ | _, _⟩ <;> rfl
  · rw [hkind]
    rfl
  · rw [hkind]
    show (resolve x .execute).ends _ = _
    rw [resolve_live (e := { e with queue := q }) .execute hget hlive hability]
    exact execute_ends a x activation _

/-- A step that runs as a play leaves what the play leaves, with its own steps in front. -/
theorem asStep_ends (q : StepQueue) (p : Play Engine Unit) (e : Engine) :
    (asStep q p).ends e =
      ((p.ends { e with queue := q }).1, (p.ends { e with queue := q }).2.finished) := by
  unfold asStep
  rw [ends_bind_ok (ends_change _ _), ends_bind_ok (ends_attempt _ _),
    ends_bind_ok (ends_change _ _), ends_ofExcept]
  rfl

end Engine

/-! ## Every play is a run -/

namespace Moment

/-- A script that goes on to its end is the script run as a whole. -/
theorem run_go (task : Task) (script : Script) :
    ∀ e : Engine, ∃ n, Moment.run ⟨e, some ⟨task, script⟩⟩ (List.replicate n .go) =
      ⟨((do script.run; task.close : Play Engine Unit).ends e).2.finished, none⟩ := by
  -- One order of the script is one deed.
  have hstep : ∀ {e e' : Engine} {script next : Script} {m : Moment},
      Moment.go e task script = ⟨e', some ⟨task, next⟩⟩ →
      (∃ n, Moment.run ⟨e', some ⟨task, next⟩⟩ (List.replicate n .go) = m) →
      ∃ n, Moment.run ⟨e, some ⟨task, script⟩⟩ (List.replicate n .go) = m := by
    rintro e e' script next m hgo ⟨n, hn⟩
    refine ⟨n + 1, ?_⟩
    rw [List.replicate_succ, run_cons]
    show (Moment.go e task script).run _ = m
    rw [hgo, hn]
  -- The state is generalised: each order is answered from the state that it leaves.
  induction script with
  | done => exact fun e => ⟨1, rfl⟩
  | fail err => exact fun e => ⟨1, rfl⟩
  | look next ih => exact fun e => hstep rfl (ih e.sight e)
  | order o next ih =>
    intro e
    have hrun : (do (Script.order o next).run; task.close : Play Engine Unit).ends e =
        (do (next (o.carryOut.ends e).1).run; task.close : Play Engine Unit).ends
          (o.carryOut.ends e).2 := by
      show ((attempt o.carryOut >>= fun r => (next r).run) >>= fun _ => task.close).ends e = _
      rw [bind_assoc, ends_bind_ok (ends_attempt _ _)]
    rw [hrun]
    exact hstep rfl (ih (o.carryOut.ends e).1 (o.carryOut.ends e).2)
  | raise event change next _ ih =>
    intro e
    exact hstep rfl (ih ((Engine.raise event (.script change)).ends e).2)
  | queue label body next _ ih =>
    intro e
    exact hstep rfl (ih e.queue.nextStep _)
  | prompt player title buttons source answers next _ ih =>
    intro e
    exact hstep rfl (ih e.queue.nextStep _)

end Moment

namespace Engine

/-- Some run leads from one state of the engine to another. -/
def Leads (e e' : Engine) : Prop := ∃ ds, Moment.run ⟨e, none⟩ ds = ⟨e', none⟩

theorem Leads.trans {e e' e'' : Engine} (h : e.Leads e') (h' : e'.Leads e'') : e.Leads e'' := by
  obtain ⟨ds, hds⟩ := h
  obtain ⟨ds', hds'⟩ := h'
  exact ⟨ds ++ ds', by rw [Moment.run_append, hds, hds']⟩

/-- What a chain of runs leads to, one run leads to. -/
theorem leads_of_chain {e e' : Engine} (h : Relation.ReflTransGen Leads e e') : e.Leads e' :=
  Play.link_of_chain (fun _ => ⟨[], rfl⟩) .trans h

/-- Some run of deeds that nobody asks for leads from one state of the engine to another. -/
def Proceeds (e e' : Engine) : Prop :=
  ∃ ds, (∀ d ∈ ds, Deed.Unasked d) ∧ Moment.run ⟨e, none⟩ ds = ⟨e', none⟩

theorem Proceeds.leads {e e' : Engine} (h : e.Proceeds e') : e.Leads e' := by
  obtain ⟨ds, -, hds⟩ := h
  exact ⟨ds, hds⟩

theorem Proceeds.trans {e e' e'' : Engine} (h : e.Proceeds e') (h' : e'.Proceeds e'') :
    e.Proceeds e'' := by
  obtain ⟨ds, hunasked, hds⟩ := h
  obtain ⟨ds', hunasked', hds'⟩ := h'
  refine ⟨ds ++ ds', fun d hd => ?_, by rw [Moment.run_append, hds, hds']⟩
  exact (List.mem_append.mp hd).elim (hunasked d) (hunasked' d)

theorem proceeds_of_chain {e e' : Engine} (h : Relation.ReflTransGen Proceeds e e') :
    e.Proceeds e' :=
  Play.link_of_chain (fun _ => ⟨[], by simp, rfl⟩) .trans h

theorem unasked_replicate_go (n : Nat) : ∀ d ∈ List.replicate n Deed.go, d.Unasked := by
  intro d hd
  rw [List.eq_of_mem_replicate hd]
  trivial

/-- Turns of the queue are runs. -/
theorem turn_proceeds : turn.Chains Proceeds := by
  refine Chains.single fun e => ?_
  unfold turn
  rw [ends_bind_ok (ends_look e)]
  cases hprompt : e.queue.frontPrompt? with
  | some p => exact ⟨[], by simp, rfl⟩
  | none =>
    cases hbegin : e.queue.begin? with
    | none => exact ⟨[], by simp, rfl⟩
    | some sq =>
      obtain ⟨s, q⟩ := sq
      show e.Proceeds ((do asStep q (runStep s); answer none :
        Play Engine (Option QueueStatus)).ends e).2
      rw [state_then_answer]
      cases hopen : e.opening s.kind with
      | none =>
        refine ⟨[.turn], by simp [Deed.Unasked], ?_⟩
        show Moment.turn e = _
        unfold Moment.turn
        simp only [hbegin, hopen]
      | some r =>
        -- The turn opens the script, and as many deeds as it is long run it to its end.
        obtain ⟨n, hn⟩ := Moment.run_go r.task r.rest { e with queue := q }
        refine ⟨.turn :: List.replicate n .go, ?_, ?_⟩
        · exact List.forall_mem_cons.mpr ⟨trivial, unasked_replicate_go n⟩
        · rw [Moment.run_cons]
          show (Moment.turn e).run _ = _
          unfold Moment.turn
          simp only [hbegin, hopen]
          rw [asStep_ends, runStep_ends hopen]
          exact hn

theorem turn_leads : turn.Chains Leads := turn_proceeds.mono fun _ _ => Proceeds.leads

/-- To answer a prompt is one deed, with as many behind it as the script of the answer is long. -/
theorem answerPrompt_run (p : PlayerId) (n : Nat) (e : Engine) :
    ∃ ds, (∀ d ∈ ds, Deed.Unasked d) ∧
      Moment.run ⟨e, none⟩ (.answer p n :: ds) = ⟨((answerPrompt p n).ends e).2, none⟩ := by
  unfold answerPrompt
  rw [ends_bind_ok (ends_look e)]
  -- What is rejected changes nothing.
  have hrejects : Moment.respond e p n = ⟨e, none⟩ →
      ∃ ds, (∀ d ∈ ds, Deed.Unasked d) ∧
        Moment.run ⟨e, none⟩ (.answer p n :: ds) = ⟨e, none⟩ := fun h => ⟨[], by simp, h⟩
  cases hbegin : e.queue.beginAnswer? with
  | none => exact hrejects (by simp [Moment.respond, hbegin])
  | some ipq =>
    obtain ⟨i, prompt, q⟩ := ipq
    dsimp only
    cases hbutton : prompt.buttons[n]? with
    | none =>
      have hbound : ¬n < prompt.buttons.length := Nat.not_lt.mpr (List.getElem?_eq_none_iff.mp hbutton)
      exact hrejects (by simp [Moment.respond, hbegin, hbound])
    | some button =>
      dsimp only
      by_cases hplayer : prompt.player = p
      · have hbound : n < prompt.buttons.length := (List.getElem?_eq_some_iff.mp hbutton).1
        rw [if_pos hplayer, ends_bind_ok (ends_log _ _), state_then_answer, asStep_ends]
        have hafter : Moment.after ⟨e, none⟩ (.answer p n) = match prompt.answer with
            | .script answers => ⟨{ e with queue := q }, some ⟨.plain, answers n⟩⟩
            | other => ⟨((asStep q (answerWith n other)).ends e).2, none⟩ := by
          show Moment.respond e p n = _
          unfold Moment.respond
          simp only [hbegin, hbound, hplayer, and_self, if_true]
        -- An answer that is a script goes on deed by deed, others are one deed.
        cases hanswer : prompt.answer with
        | script answers =>
          obtain ⟨k, hk⟩ := Moment.run_go .plain (answers n) { e with queue := q }
          refine ⟨List.replicate k .go, unasked_replicate_go k, ?_⟩
          rw [Moment.run_cons, hafter, hanswer]
          dsimp only
          rw [hk, ends_bind]
          show _ = Moment.mk ((answers n).run.ends { e with queue := q }).2.finished none
          rcases (answers n).run.ends { e with queue := q } with ⟨_ | _, _⟩ <;> rfl
        | target x slot choices =>
          refine ⟨[], by simp, ?_⟩
          rw [Moment.run_cons, hafter, hanswer]
          dsimp only
          rw [asStep_ends]
          rfl
        | offer x alternatives =>
          refine ⟨[], by simp, ?_⟩
          rw [Moment.run_cons, hafter, hanswer]
          dsimp only
          rw [asStep_ends]
          rfl
      · rw [if_neg hplayer]
        exact hrejects (by simp [Moment.respond, hbegin, hplayer])

/-- Answers to prompts are runs. -/
theorem answerPrompt_leads (p : PlayerId) (n : Nat) : (answerPrompt p n).Chains Leads :=
  Chains.single fun e => by
    obtain ⟨ds, -, hds⟩ := answerPrompt_run p n e
    exact ⟨.answer p n :: ds, hds⟩

/-- What is asked of the engine is a run. -/
theorem call_leads (c : Call) : c.play.Chains Leads := Chains.single fun _ => ⟨[.call c], rfl⟩

/-! ## What players and the game do -/

/-- Running the queue is a run of deeds that nobody asks for. -/
theorem settle_proceeds (fuel : Nat) : (settle fuel).Chains Proceeds := turn_proceeds.repeatedly fuel

/-- Running the queue is a run, however many turns it may take. -/
theorem settle_leads (fuel : Nat) : (settle fuel).Chains Leads := turn_leads.repeatedly fuel

theorem andSettle_leads {α : Type} (fuel : Nat) {p : Play Engine α} (hp : p.Chains Leads) :
    (andSettle fuel p).Chains Leads :=
  hp.bind fun _ => (settle_leads fuel).bind fun _ => .pure _

theorem settleIf_leads (fuel : Nat) {p : Play Engine Bool} (hp : p.Chains Leads) :
    (settleIf fuel p).Chains Leads := by
  refine hp.bind fun b => ?_
  cases b with
  | true => exact (settle_leads fuel).bind fun _ => .pure _
  | false => exact .pure _

/-- An order that is given from outside is a run. -/
theorem order_leads (o : Order) : o.carryOut.Chains Leads := fun e => by
  have h := call_leads (.order o) e
  rw [Call.play, ends_discard] at h
  exact h

theorem playAction_leads (fuel : Nat) (a : AbilityId) (p : PlayerId) :
    (playAction fuel a p).Chains Leads :=
  settleIf_leads fuel (order_leads (.activate a p))

theorem takeBack_leads (fuel : Nat) (a : AbilityId) (p : PlayerId) :
    (takeBack fuel a p).Chains Leads :=
  settleIf_leads fuel (order_leads (.retract a p))

theorem raiseEvent_leads (fuel : Nat) (data : EventData) (change : Script) :
    (raiseEvent fuel data change).Chains Leads :=
  andSettle_leads fuel (call_leads (.raise data change))

theorem startRound_leads (fuel : Nat) : (startRound fuel).Chains Leads :=
  andSettle_leads fuel (order_leads .beginRound)

theorem respond_leads (fuel : Nat) (p : PlayerId) (n : Nat) : (respond fuel p n).Chains Leads :=
  settleIf_leads fuel (answerPrompt_leads p n)

theorem relocate_leads (fuel : Nat) (c : CardId) (destination : Location) :
    (relocate fuel c destination).Chains Leads := by
  refine settleIf_leads fuel fun e => ?_
  have h := order_leads (.move c destination) e
  change Relation.ReflTransGen Leads e ((discard (moveCard c destination)).ends e).2 at h
  rw [ends_discard] at h
  exact h

theorem ask_leads (fuel : Nat) (view : PromptView) (p : PlayerId) (answers : Nat → Script) :
    (ask fuel ⟨view, p, .script answers⟩).Chains Leads := by
  refine andSettle_leads fuel fun e => ?_
  have h := call_leads (.ask p view.title view.buttons view.source answers) e
  rw [Call.play, ends_discard] at h
  exact h

end Engine

namespace Match

/-- A match that decision makers play is a run. -/
theorem runWith_leads {μ : Type} (choose : Chooser μ) (turns fuel : Nat) :
    (runWith choose turns fuel).Chains fun m m' => m.engine.Leads m'.engine := by
  have hon : ∀ {α : Type} {p : Play Engine α}, p.Chains Engine.Leads →
      (onEngine p).Chains fun m m' : Match μ => m.engine.Leads m'.engine := fun hp =>
    Chains.single fun m => Engine.leads_of_chain (hp m.engine)
  have hdecide : ∀ p : Prompt,
      (decide choose p).Chains fun m m' : Match μ => m.engine.Leads m'.engine := by
    intro p
    refine Chains.bind_look fun m => ?_
    cases m.seats.find? (·.player = p.player) with
    | none => exact .refl
    | some seat => exact .single ⟨[], rfl⟩
  refine Chains.map _ (Chains.repeatedly ?_ fuel)
  refine Chains.bind (hon (Engine.settle_leads turns)) fun status => ?_
  rcases status with _ | _ | player
  · exact .answer _
  · exact .answer _
  · refine Chains.bind Chains.look fun m => ?_
    cases m.engine.queue.frontPrompt? with
    | none => exact .answer _
    | some p =>
      refine Chains.bind (hdecide p) fun n =>
        Chains.bind (hon (Engine.respond_leads turns player n)) fun r => ?_
      rcases r with _ | _ | _
      · exact .answer _
      · exact .fail _
      · exact .answer _

end Match

end Doomtown
