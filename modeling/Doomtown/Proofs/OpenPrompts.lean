import Doomtown.Proofs.Alternatives
import Doomtown.Proofs.Conservation
import Doomtown.Proofs.Matches
import Doomtown.Proofs.SlotFilling

/-!
# What the buttons of prompts do

The engine asks players in two cases: whether an ability shall be used, and which of several targets
shall be chosen. The buttons are made when the prompt is opened, and what they stand for is found
when one of them is chosen, by its place. Offers keep to the record and the ability that they were
made for (`Moment.Reached.offered`), and a prompt for a target to the legal targets that it was
opened with (`Moment.exists_opening`), so a button does what it says
(`Moment.prompts_answerable`).
-/

namespace Doomtown

open Play

/-! ## Players -/

namespace Board

variable {b b' : Board} {p : PlayerId}

/-- Play on a board brings and takes away no players. -/
theorem Stirs.players (h : b.Stirs b') : b'.players.map (·.id) = b.players.map (·.id) := by
  induction h with
  | refl => rfl
  | tail _ hlast ih =>
    cases hlast with
    | still hstill _ => exact hstill.players.trans ih
    | moved hcard hlists destination =>
      exact (congrArg (List.map (·.id)) (players_moved ..)).trans ih

theorem player?_isSome_iff : (b.player? p).isSome ↔ p ∈ b.players.map (·.id) := by
  unfold player?
  rw [List.find?_isSome, List.mem_map]
  simp

end Board

/-- The player of what is legal exists. -/
theorem Legality.player_of_check {b : Board} {usage : UsageTracker} {a : Ability} {x : Activation}
    (h : check b usage a x = .ok ()) : (b.player? x.player).isSome := by
  unfold check at h
  split at h
  · simp at h
  · obtain ⟨-, h⟩ := holds_of_require h
    obtain ⟨-, h⟩ := holds_of_require h
    obtain ⟨-, h⟩ := holds_of_require h
    split at h
    · simp at h
    · rename_i player hplayer
      rw [hplayer]
      rfl

namespace Moment

variable {m : Moment} {d : Deed} {x : ActivationId} {activation activation' : Activation}
  {a : Ability} {p : PlayerId} {s : Step}

/-- A deed that sets up the board keeps its players. -/
def KeepsPlayers (m : Moment) (d : Deed) : Prop :=
  ∀ f, d = .call (.board f) → ∀ p, (m.engine.board.player? p).isSome →
    ((f m.engine.board).player? p).isSome

/-- Only who sets up the board can take a player away. -/
theorem Sound.player?_after (h : m.Sound) (hkeeps : m.KeepsPlayers d)
    (hp : (m.engine.board.player? p).isSome) : ((m.after d).engine.board.player? p).isSome := by
  rcases h.stirs d with hstirs | ⟨f, rfl, hboard⟩
  · rw [Board.player?_isSome_iff, hstirs.players, ← Board.player?_isSome_iff]
    exact hp
  · rw [hboard]
    exact hkeeps f rfl p hp

theorem Sound.player?_run (h : m.Sound) {ds : List Deed} (hkeeps : Along KeepsPlayers m ds)
    (hp : (m.engine.board.player? p).isSome) : ((m.run ds).engine.board.player? p).isSome := by
  induction ds generalizing m with
  | nil => exact hp
  | cons d ds ih => exact ih (h.after d) hkeeps.2 (h.player?_after hkeeps.1 hp)

/-- An activation is entered for a player who exists. -/
theorem Sound.player?_entered (h : m.Sound) (hready : m.Ready)
    (hnone : m.engine.activations.get? x = none)
    (hget' : (m.after d).engine.activations.get? x = some activation') :
    (m.engine.board.player? activation'.player).isSome := by
  -- A record is entered where an ability is played or offered, and both check that it is legal.
  cases h.files hready hget' with
  | @played a ability p hgives hx hability haction hafter =>
    have hends := (after_gives hgives).1
    change (m.after d).engine = ((Engine.activate a p).ends m.engine).2 at hends
    have hactivates := m.engine.activate_activates a p
    generalize (Engine.activate a p).ends m.engine = ending at hactivates hends
    cases hactivates with
    | unknown | refused | illegal =>
      rw [hends] at hget'
      simp [hnone] at hget'
    | @started ability' hability' haction' hlegal =>
      exact Legality.player_of_check (x := .new a ability'.source p none) hlegal
  | @offered i event c rest a hstarts hx hability =>
    obtain ⟨q, -, hafter⟩ := after_window_offer hstarts
    obtain ⟨e₁, hends, hoffers⟩ := Engine.offer_ends { m.engine with queue := q } event c
    obtain ⟨q', hrequeued⟩ := e₁.requeued_eq event rest
    rw [hafter, hends, hrequeued] at hget'
    change e₁.activations.get? x = _ at hget'
    cases hoffers with
    | unknown | skipped => simp [hnone] at hget'
    | entered hlegal =>
      obtain ⟨a', -, hcheck⟩ := hlegal
      exact Legality.player_of_check (x := .new c.ability a'.source c.player (some event)) hcheck
  | accepted _ _ _ _ hget => simp [hnone] at hget
  | paid _ hget => simp [hnone] at hget
  | goes hget => simp [hnone] at hget

/-- The players of all activations exist. -/
theorem player?_filed (b : Board) (ds : List Deed) (hkeeps : Along KeepsPlayers (start b) ds)
    (hget : ((start b).run ds).engine.activations.get? x = some activation) :
    (((start b).run ds).engine.board.player? activation.player).isSome := by
  induction ds using List.reverseRecOn generalizing activation with
  | nil => simp [start, run, Engine.new, IdMap.get?_empty] at hget
  | append_singleton ds d ih =>
    obtain ⟨hbefore, hd, -⟩ := along_append.mp hkeeps
    have hreached : ((start b).run ds).Reached := ⟨b, ds, rfl⟩
    rw [run_append] at hget ⊢
    refine hreached.sound.player?_after hd ?_
    cases hbefore' : ((start b).run ds).engine.activations.get? x with
    | none => exact hreached.sound.player?_entered hreached.ready hbefore' hget
    | some before =>
      have hfiles := hreached.sound.files hreached.ready hget
      rw [(hreached.sound.files_of_filed hbefore' hfiles).2.1]
      exact ih hbefore hbefore'

end Moment

/-! ## Offers -/

/-- Where an offer waits, its activation is filed and has not started. -/
theorem idle_of_fits {record : Option Activation} {ps : List Part} (h : Fits record ps)
    (hoffer : .offer ∈ ps) :
    ∃ activation, record = some activation ∧ activation.stage = .idle := by
  cases record with
  | none =>
    have hmem := h.subset hoffer
    simp at hmem
  | some activation =>
    refine ⟨activation, rfl, ?_⟩
    rcases h.ahead with hsub | ⟨-, rfl⟩
    · have hmem := hsub.subset hoffer
      cases hstage : activation.stage <;> simp [hstage, ActivationStage.ahead] at hmem ⊢
    · simp at hoffer

/-- A prompt offers an ability: its activation waits for the answer of its player, and the buttons
are those of the ability. -/
structure Engine.Offering (e : Engine) (view : PromptView) (p : PlayerId) (x : ActivationId)
    (alternatives : Nat) (activation : Activation) (a : Ability) : Prop where
  filed : e.activations.get? x = some activation
  ability : e.ability? activation.ability = some a
  idle : activation.stage = .idle
  player : activation.player = p
  buttons : view.buttons = offerButtons a
  alternatives : alternatives = a.alternatives.length

namespace Moment

variable {m : Moment} {d : Deed} {x : ActivationId} {activation activation' : Activation}
  {a : Ability} {p : PlayerId} {s : Step} {view : PromptView} {n : Nat}

/-- Every prompt that offers an ability does so for a record. -/
def Offered (m : Moment) : Prop :=
  ∀ s ∈ m.engine.queue.order, ∀ view p x n, s.kind = .prompt ⟨view, p, .offer x n⟩ →
    ∃ activation a, m.engine.Offering view p x n activation a

theorem Sound.idle_of_offer (h : m.Sound) (hs : s ∈ m.engine.queue.order)
    (hkind : s.kind = .prompt ⟨view, p, .offer x n⟩) :
    ∃ activation, m.engine.activations.get? x = some activation ∧ activation.stage = .idle :=
  idle_of_fits (h.fits x) (mem_partsOf_of_order hs (by rw [hkind]; rfl))

/-- An offer that waits on after a deed is made for the same record. -/
theorem offering_after (hreached : m.Reached) (h : m.engine.Offering view p x n activation a)
    (hs : s ∈ (m.after d).engine.queue.order)
    (hkind : s.kind = .prompt ⟨view, p, .offer x n⟩) :
    ∃ activation' a, (m.after d).engine.Offering view p x n activation' a := by
  have hsound := hreached.sound
  obtain ⟨activation', hget', hidle'⟩ := (hsound.after d).idle_of_offer hs hkind
  -- The record is none that the deed enters, so it keeps its ability and its player.
  have hold : x ≠ ⟨m.engine.nextActivation⟩ := by
    rintro rfl
    simpa [h.filed] using (hsound.fresh ⟨m.engine.nextActivation⟩ (Nat.le_refl _)).1
  have hsame : activation'.ability = activation.ability ∧ activation'.player = activation.player :=
    (hsound.files_of_filed h.filed (hsound.files hreached.ready hget')).imp_right And.left
  refine ⟨activation', a, hget', ?_, hidle', hsame.2.trans h.player, h.buttons, h.alternatives⟩
  rw [hsame.1]
  exact (Moment.passage hsound d).ability? h.ability

/-- An ability that a window offers is offered as it is. -/
theorem offering_of_proposal {i : StepId} {event : GameEvent} {c : TriggerCandidate}
    {rest : List TriggerCandidate} (hreached : m.Reached)
    (hstarts : m.starts? d = some ⟨i, .window ⟨event, c :: rest⟩⟩)
    (hability : m.engine.ability? c.ability = some a)
    (hprompt : m.engine.proposal event c a = .prompt ⟨view, p, .offer x n⟩)
    (hs : s ∈ (m.after d).engine.queue.order)
    (hkind : s.kind = .prompt ⟨view, p, .offer x n⟩) :
    ∃ activation' a, (m.after d).engine.Offering view p x n activation' a := by
  have hsound := hreached.sound
  obtain ⟨activation', hget', hidle'⟩ := (hsound.after d).idle_of_offer hs hkind
  unfold Engine.proposal at hprompt
  split at hprompt
  · simp at hprompt
  · simp only [StepKind.prompt.injEq, Prompt.mk.injEq, Answer.offer.injEq] at hprompt
    obtain ⟨rfl, rfl, rfl, rfl⟩ := hprompt
    have hnone := (hsound.fresh ⟨m.engine.nextActivation⟩ (Nat.le_refl _)).1
    cases hsound.files hreached.ready hget' with
    | played hgives => simp [gives_of_starts hstarts] at hgives
    | accepted _ _ _ _ hget => simp [hnone] at hget
    | paid _ hget => simp [hnone] at hget
    | goes hget => simp [hnone] at hget
    | offered hstarts' _ hability' =>
      obtain ⟨-, hwindow⟩ := Step.mk.inj (Option.some.inj (hstarts.symm.trans hstarts'))
      obtain ⟨rfl, hcons⟩ := TriggerWindow.mk.inj (StepKind.window.inj hwindow)
      obtain ⟨rfl, -⟩ := List.cons.inj hcons
      obtain rfl := Option.some.inj (hability.symm.trans hability')
      exact ⟨_, a, hget', (Moment.passage hsound d).ability? hability, hidle', rfl, rfl, rfl⟩

theorem Offered.after (h : m.Offered) (hreached : m.Reached) (d : Deed) :
    (m.after d).Offered := by
  intro s hs view p x n hkind
  rcases m.puts d hs (by rw [hkind]; rfl) with hold | hputs
  · obtain ⟨activation, a, hoffering⟩ := h s hold view p x n hkind
    exact offering_after hreached hoffering hs hkind
  · generalize hputs' : s.kind = kind at hputs
    cases hputs with
    | opens | rest => simp [hkind] at hputs'
    | proposes hstarts hability =>
      exact offering_of_proposal hreached hstarts hability (hputs'.symm.trans hkind) hs hkind

theorem Reached.offered (h : m.Reached) : m.Offered := by
  refine h.invariant (fun b s hs => ?_) fun hreached hoffered d => hoffered.after hreached d
  simp [start, Engine.new, StepQueue.order, StepQueue.children, StepQueue.empty] at hs

/-! ## Prompts for targets -/

/-- A deed opens a prompt for a slot of an activation. The slot has no target yet, and there are
several that are legal for it, with a button each. -/
structure OpensPrompt (m : Moment) (d : Deed) (s : Step) (x : ActivationId) (before : Activation)
    (a : Ability) (slot : TargetSlot) : Prop where
  fills : m.FillsSlots d x before a
  among : slot ∈ a.targets
  unfilled : ¬before.hasTarget slot.name
  several : 2 ≤ (slot.choices m.engine.board before).length
  kind : s.kind = .prompt (Engine.targetPrompt a m.engine.board x before slot.name
    (slot.choices m.engine.board before))

/-- A prompt for a target that waits after a deed waited before it or is opened by it. -/
theorem opens_of_asksTarget (hs : s ∈ (m.after d).engine.queue.order) (hasks : s.kind.asksTarget) :
    s ∈ m.engine.queue.order ∨ ∃ x before a slot, m.OpensPrompt d s x before a slot := by
  have hfront : ∀ {s' : Step} {q : StepQueue}, m.engine.queue.FrontTaken s' q → s ∈ q.order →
      s ∈ m.engine.queue.order := fun htaken hs => by
    rw [htaken.order]
    exact List.mem_cons_of_mem _ hs
  -- Slots that are filled may end in a prompt; with a target that is told the next stage is queued.
  rcases after_spectates Engine.spectates_asksNoMore m d with hchain |
    ⟨x, before, a, hfills⟩ | ⟨x, slot, choices, n, htells⟩
  · exact .inl (Engine.asksNoMore_of_chain hchain s hs hasks)
  · obtain ⟨i, q, hstarts, htaken, hafter⟩ := hfills.fills
    obtain ⟨e', hend, hends⟩ := Engine.fillSlots_ends { m.engine with queue := q } a x before
      a.targets
    rw [hafter, hend] at hs
    change s ∈ e'.queue.order at hs
    cases hends with
    | resolved chosen _ =>
      rcases StepQueue.mem_order_push.mp hs with hs | rfl
      · exact .inl (hfront htaken hs)
      · simp [StepKind.asksTarget] at hasks
    | missed chosen _ _ => exact .inl (hfront htaken hs)
    | @asked chosen slot hopen hsome =>
      rcases StepQueue.mem_order_push.mp hs with hs | rfl
      · exact .inl (hfront htaken hs)
      · have hfound : ¬before.hasTarget slot.name ∧
            (slot.choices m.engine.board before).length ≠ 1 := by
          simpa using List.find?_some hopen
        have hpos : 0 < (slot.choices m.engine.board before).length := List.length_pos_iff.mpr hsome
        exact .inr ⟨x, before, a, slot, hfills, List.mem_of_find?_eq_some hopen, hfound.1,
          Nat.lt_of_le_of_ne hpos (Ne.symm hfound.2), rfl⟩
  · obtain ⟨i, view, p, q, hstarts, -, htaken, hafter⟩ := htells.tells
    rw [hafter] at hs
    change s ∈ ((Engine.chooseTarget x slot choices n).ends
      { m.engine with queue := q }).2.queue.order at hs
    unfold Engine.chooseTarget at hs
    cases hpick : choices[n]? with
    | none =>
      rw [hpick] at hs
      exact .inl (hfront htaken hs)
    | some target =>
      rw [hpick] at hs
      rcases StepQueue.mem_order_push.mp hs with hs | rfl
      · exact .inl (hfront htaken hs)
      · simp [StepKind.asksTarget] at hasks

/-- Each prompt for a target that waits was opened by a deed of the run. -/
theorem exists_opening (b : Board) (ds : List Deed)
    (hs : s ∈ ((start b).run ds).engine.queue.order) (hasks : s.kind.asksTarget) :
    ∃ past d later x before a slot, ds = past ++ d :: later ∧
      ((start b).run past).OpensPrompt d s x before a slot := by
  induction ds using List.reverseRecOn with
  | nil => simp [run, start, Engine.new, StepQueue.order, StepQueue.children, StepQueue.empty] at hs
  | append_singleton ds d ih =>
    rw [run_append] at hs
    rcases opens_of_asksTarget (d := d) hs hasks with hold | ⟨x, before, a, slot, hopens⟩
    · obtain ⟨past, d', later, x, before, a, slot, rfl, hopens⟩ := ih hold
      exact ⟨past, d', later ++ [d], x, before, a, slot, by simp, hopens⟩
    · exact ⟨ds, d, [], x, before, a, slot, rfl, hopens⟩

end Moment

/-! ## Answers -/

/-- What a button of an offer stands for, unless it is the last: the alternative with its label, or
to go on if there are none. -/
inductive Ability.Button (a : Ability) (n : Nat) (label : String) :
    Option Nat → Option Effect → Prop where
  | goOn (hnone : a.alternatives = []) (hlabel : label = "Yes") : Button a n label none a.handler
  | alternative {effect : Effect} (hlabel : a.alternatives[n]? = some (label, effect)) :
    Button a n label (some n) (some effect)

namespace Engine

variable {e : Engine} {x : ActivationId} {activation : Activation} {a : Ability} {p : PlayerId}
  {view : PromptView} {i : StepId} {later : List Step}

/-- The engine once the offer at the front was declined. -/
def declined (e : Engine) (x : ActivationId) (later : List Step) : Engine :=
  { e with
    activations := e.activations.erase x
    queue := ⟨later, none, e.queue.nextId⟩ }

/-- The engine once the offer at the front was taken up, with what was picked. -/
def takenUp (e : Engine) (x : ActivationId) (choice : Option Nat) (later : List Step) : Engine :=
  { e with
    activations := e.activations.modify x ({ · with choice := choice, stage := .legalityChecked })
    queue := ⟨⟨e.queue.nextStep, .resolve x .payCosts⟩ :: later, none, e.queue.nextId + 1⟩ }

/-- The engine once a target was chosen by the prompt at the front. -/
def told (e : Engine) (x : ActivationId) (slot : String) (target : ChosenTarget)
    (later : List Step) : Engine :=
  { e with
    activations := e.activations.modify x fun activation =>
      { activation.choose slot target with prompt := none }
    queue := ⟨⟨e.queue.nextStep, .resolve x .chooseTargets⟩ :: later, none, e.queue.nextId + 1⟩ }

/-- Each button of an offer but the last stands for something. -/
theorem button_of_offerButtons {n : Nat} {label : String} (hn : n + 1 < (offerButtons a).length)
    (hlabel : (offerButtons a)[n]? = some label) :
    ∃ effect, a.Button n label (if a.alternatives.length = 0 then none else some n) effect := by
  unfold offerButtons at hn hlabel
  cases halternatives : a.alternatives with
  | nil =>
    rw [halternatives] at hn hlabel
    obtain rfl : n = 0 := by simp at hn; omega
    exact ⟨a.handler, .goOn halternatives (by simpa using hlabel.symm)⟩
  | cons first rest =>
    rw [halternatives] at hn hlabel
    have hlt : n < (first :: rest).length := by simpa using hn
    rw [List.isEmpty_cons, if_neg (by simp), List.getElem?_append_left (by simpa using hlt),
      List.getElem?_map, List.getElem?_eq_getElem hlt] at hlabel
    refine ⟨some (first :: rest)[n].2, .alternative ?_⟩
    rw [halternatives, List.getElem?_eq_getElem hlt, ← Option.some.inj hlabel]

/-- The last button of an offer at the front declines it. -/
theorem answerPrompt_declines (hidle : e.queue.running = none)
    (hfront : e.queue.steps = ⟨i, .prompt ⟨view, p, .offer x a.alternatives.length⟩⟩ :: later)
    (hbuttons : view.buttons = offerButtons a) :
    (answerPrompt p (view.buttons.length - 1)).ends e = (.ok true, e.declined x later) := by
  have hlength : view.buttons.length = max a.alternatives.length 1 + 1 := by
    rw [hbuttons, Moment.length_offerButtons]
  have hlast : view.buttons.length - 1 = max a.alternatives.length 1 := by omega
  have hn : view.buttons.length - 1 < view.buttons.length := by omega
  rw [answerPrompt_front hidle hfront, if_pos ⟨rfl, hn⟩, hlast, answerWith, if_pos rfl]
  rfl

/-- Any other button takes the offer up, if the ability is still legal. -/
theorem answerPrompt_takesUp {n : Nat} (hidle : e.queue.running = none)
    (hfront : e.queue.steps = ⟨i, .prompt ⟨view, p, .offer x a.alternatives.length⟩⟩ :: later)
    (hoffering : e.Offering view p x a.alternatives.length activation a)
    (hn : n + 1 < view.buttons.length) :
    (answerPrompt p n).ends e = (.ok true,
      if Legality.isLegal e.board e.usage a activation then
        e.takenUp x (if a.alternatives.length = 0 then none else some n) later
      else e.declined x later) := by
  have hlength : view.buttons.length = max a.alternatives.length 1 + 1 := by
    rw [hoffering.buttons, Moment.length_offerButtons]
  have hfound : (getAbility activation.ability).ends { e with queue := e.queue.started later } =
      (.ok a, { e with queue := e.queue.started later }) := getAbility_ends hoffering.ability
  rw [answerPrompt_front hidle hfront, if_pos ⟨rfl, Nat.lt_of_succ_lt hn⟩, answerWith,
    if_neg (by omega), accept, ends_bind_ok (ends_look _), hoffering.filed]
  dsimp only
  rw [ends_bind_ok hfound]
  by_cases hlegal : Legality.isLegal e.board e.usage a activation
  · rw [if_pos hlegal, if_pos hlegal]
    rfl
  · rw [if_neg hlegal, if_neg hlegal]
    rfl

/-- A button of a prompt for a target chooses the target at its place. -/
theorem answerPrompt_tells {n : Nat} {slot : String} {choices : List ChosenTarget}
    {target : ChosenTarget} (hidle : e.queue.running = none)
    (hfront : e.queue.steps = ⟨i, .prompt ⟨view, p, .target x slot choices⟩⟩ :: later)
    (hn : n < view.buttons.length) (htarget : choices[n]? = some target) :
    (answerPrompt p n).ends e = (.ok true, e.told x slot target later) := by
  rw [answerPrompt_front hidle hfront, if_pos ⟨rfl, hn⟩, answerWith, chooseTarget, htarget]
  rfl

/-- Nobody but its player can answer the prompt at the front, and with one of its buttons only. -/
theorem answerPrompt_refused {prompt : Prompt} {q : PlayerId} {n : Nat}
    (hidle : e.queue.running = none) (hfront : e.queue.steps = ⟨i, .prompt prompt⟩ :: later)
    (hnot : prompt.player ≠ q ∨ prompt.buttons.length ≤ n) :
    (answerPrompt q n).ends e = (.ok false, e) := by
  rw [answerPrompt_front hidle hfront, if_neg]
  rintro ⟨hplayer, hn⟩
  exact hnot.elim (absurd hplayer) fun hle => absurd hn (Nat.not_lt.mpr hle)

end Engine

/-! ## What follows -/

namespace Moment

variable {m : Moment} {x : ActivationId} {a a' : Ability} {t : AbilityId} {choice : Option Nat}
  {ds : List Deed} {y : Activation}

/-- What is noted of an activation once it has started: its ability, and what was picked. -/
theorem Sound.pick_run (h : m.Sound) (hold : x.number < m.engine.nextActivation)
    (hfiled : ∀ y, m.engine.activations.get? x = some y →
      y.stage ≠ .idle ∧ y.ability = t ∧ y.choice = choice) (ds : List Deed)
    (hget : (m.run ds).engine.activations.get? x = some y) : y.ability = t ∧ y.choice = choice := by
  refine (h.filed_run (P := fun y => y.stage ≠ .idle ∧ y.ability = t ∧ y.choice = choice)
    (fun hadvance hpick => ?_) hold hfiled ds y hget).2
  rcases hadvance.carries with hcarries | ⟨_, hidle, -, -⟩ | ⟨_, -, -, rfl⟩
  · exact ⟨fun hidle => hpick.1 (hcarries.idle.mp hidle), hcarries.ability.trans hpick.2.1,
      hcarries.choice.trans hpick.2.2⟩
  · exact absurd hidle hpick.1
  · exact ⟨by simp, hpick.2⟩

/-- The effect that runs for an activation is that of what was picked when it was taken up. -/
theorem Reached.effect_of_pick (h : m.Reached) (hold : x.number < m.engine.nextActivation)
    (hability : m.engine.ability? t = some a)
    (hfiled : ∀ y, m.engine.activations.get? x = some y →
      y.stage ≠ .idle ∧ y.ability = t ∧ y.choice = choice)
    (heffect : (m.run ds).effect? = some (a', x, y)) : a' = a ∧ y.choice = choice := by
  have hreached := h.run ds
  obtain ⟨hof, hchoice⟩ := h.sound.pick_run hold hfiled ds
    (hreached.sound.running a' x y heffect)
  have hability' := hreached.sourced.effect a' x y heffect
  rw [hof, h.sound.run_ability? hability] at hability'
  exact ⟨(Option.some.inj hability').symm, hchoice⟩

/-- No effect runs for an activation that was forgotten. -/
theorem Reached.no_effect_of_forgotten (h : m.Reached) (hold : x.number < m.engine.nextActivation)
    (hnone : m.engine.activations.get? x = none) : (m.run ds).effect? ≠ some (a, x, y) := by
  intro heffect
  exact h.sound.filed_run (P := fun _ => False) (fun _ => id) hold (by simp [hnone]) ds y
    ((h.run ds).sound.running a x y heffect)

/-! ## Prompts that wait -/

/-- From a moment on, whenever an effect begins for the activation it is this one, of this
ability. -/
def Runs (m : Moment) (x : ActivationId) (a : Ability) (effect : Option Effect) : Prop :=
  ∀ (ds : List Deed) (d : Deed) (a' : Ability) (y : Activation) (script : Script),
    (m.run ds).running = none → ((m.run ds).after d).running = some ⟨.effect a' x y, script⟩ →
      a' = a ∧ a.effect? y = effect ∧ script = Engine.effectScript a (m.run ds).engine.board y

/-- What the answers to an offer at the front do: its last button declines it, and its activation
then never has an effect. Any other takes it up if the ability is still legal, and the effect that
then runs is that of the button. -/
structure AnswersOffer (e : Engine) (p : PlayerId) (x : ActivationId) (buttons : List String)
    (activation : Activation) (a : Ability) (later : List Step) : Prop where
  refuses : ∀ q n, p ≠ q ∨ buttons.length ≤ n → (Engine.answerPrompt q n).ends e = (.ok false, e)
  last : buttons.getLast? = some (if a.alternatives.isEmpty then "No" else "Pass")
  declines : (Engine.answerPrompt p (buttons.length - 1)).ends e = (.ok true, e.declined x later)
  never : ∀ ds a' y, ((⟨e.declined x later, none⟩ : Moment).run ds).effect? ≠ some (a', x, y)
  lapses : ∀ n, n + 1 < buttons.length → Legality.isLegal e.board e.usage a activation = false →
    (Engine.answerPrompt p n).ends e = (.ok true, e.declined x later)
  takesUp : ∀ n label, n + 1 < buttons.length → buttons[n]? = some label →
    Legality.isLegal e.board e.usage a activation → ∃ choice effect,
      a.Button n label choice effect ∧
      (Engine.answerPrompt p n).ends e = (.ok true, e.takenUp x choice later) ∧
      Runs ⟨e.takenUp x choice later, none⟩ x a effect

/-- What the answers to a prompt for a target at the front do: each button chooses the target at its
place. -/
structure AnswersTarget (e : Engine) (p : PlayerId) (x : ActivationId) (slot : String)
    (choices : List ChosenTarget) (buttons : List String) (later : List Step) : Prop where
  refuses : ∀ q n, p ≠ q ∨ buttons.length ≤ n → (Engine.answerPrompt q n).ends e = (.ok false, e)
  chooses : ∀ n < buttons.length, ∃ target, choices[n]? = some target ∧
    (Engine.answerPrompt p n).ends e = (.ok true, e.told x slot target later) ∧
    ∀ activation, e.activations.get? x = some activation →
      (e.told x slot target later).activations.get? x =
        some { activation.choose slot target with prompt := none }

/-- An effect begins with its step, and its script is that of its activation's ability. -/
theorem opening_of_after {d : Deed} {script : Script} (hidle : m.running = none)
    (hrunning : (m.after d).running = some ⟨.effect a x y, script⟩) :
    script = Engine.effectScript a m.engine.board y := by
  obtain ⟨e, running⟩ := m
  obtain rfl : running = none := hidle
  cases d with
  | call | go => simp [after] at hrunning
  | answer p n =>
    change (respond e p n).running = _ at hrunning
    unfold respond at hrunning
    split at hrunning
    · simp at hrunning
    · split at hrunning
      · split at hrunning <;> simp at hrunning
      · simp at hrunning
  | turn =>
    change (turn e).running = _ at hrunning
    unfold turn at hrunning
    split at hrunning
    · simp at hrunning
    · split at hrunning
      · rename_i r hopening
        rcases Engine.opening_cases hopening with ⟨_, _, -, rfl⟩ | ⟨_, _, -, rfl⟩ |
          ⟨_, _, _, -, -, -, -, rfl⟩
        · simp at hrunning
        · simp at hrunning
        · obtain ⟨htask, rfl⟩ := Running.mk.inj (Option.some.inj hrunning)
          obtain ⟨rfl, -, rfl⟩ := Task.effect.inj htask
          rfl
      · simp at hrunning

/-- What an activation runs is known from its ability and what was picked. -/
theorem Reached.runs_of_pick (h : m.Reached) {effect : Option Effect}
    (hold : x.number < m.engine.nextActivation) (hability : m.engine.ability? t = some a)
    (hfiled : ∀ y, m.engine.activations.get? x = some y →
      y.stage ≠ .idle ∧ y.ability = t ∧ y.choice = choice)
    (heffect : ∀ y : Activation, y.choice = choice → a.effect? y = effect) :
    m.Runs x a effect := by
  intro ds d a' y script hidle hrunning
  have hrun : m.run (ds ++ [d]) = (m.run ds).after d := run_append m ds [d]
  have hbegun : (m.run (ds ++ [d])).effect? = some (a', x, y) := by
    rw [hrun, effect?, hrunning]
  obtain ⟨rfl, hchoice⟩ := h.effect_of_pick hold hability hfiled hbegun
  exact ⟨rfl, heffect y hchoice, opening_of_after hidle hrunning⟩

/-- What an answer to the prompt at the front leads to is reached. -/
theorem Reached.answered {e e' : Engine} {p : PlayerId} {n : Nat}
    {accepted : Except RulesError Bool} (h : Reached ⟨e, none⟩)
    (hends : (Engine.answerPrompt p n).ends e = (accepted, e')) :
    Reached ⟨e', none⟩ := by
  have hleads := Engine.leads_of_chain (Engine.answerPrompt_leads p n e)
  rw [hends] at hleads
  exact h.leads hleads

end Moment

/-- What a button stands for is what an activation has as its effect once that was picked. -/
theorem Ability.Button.effect?_eq {a : Ability} {n : Nat} {label : String} {choice : Option Nat}
    {effect : Option Effect} (h : a.Button n label choice effect) {y : Activation}
    (hchoice : y.choice = choice) : a.effect? y = effect := by
  unfold effect?
  cases h with
  | goOn => rw [hchoice]
  | alternative hlabel =>
    rw [hchoice]
    simp [hlabel]

namespace Moment

variable {e : Engine} {x : ActivationId} {activation : Activation} {a : Ability} {p : PlayerId}
  {s : Step} {view : PromptView} {later : List Step}

/-- An offer at the front is answered as its buttons say. -/
theorem answersOffer {n : Nat} (hreached : Reached ⟨e, none⟩) (hfront : e.queue.steps = s :: later)
    (hkind : s.kind = .prompt ⟨view, p, .offer x n⟩) (h : e.Offering view p x n activation a) :
    AnswersOffer e p x view.buttons activation a later := by
  obtain ⟨i, kind⟩ := s
  obtain rfl : kind = _ := hkind
  obtain rfl := h.alternatives
  have hidle : e.queue.running = none := by simpa using hreached.ready.running
  have hold : x.number < e.nextActivation := by
    by_contra hge
    simpa [h.filed] using (hreached.sound.fresh x (Nat.le_of_not_lt hge)).1
  -- What follows an answer is a run from what it leads to.
  have hdeclines := Engine.answerPrompt_declines hidle hfront h.buttons
  refine ⟨fun q n => Engine.answerPrompt_refused hidle hfront, ?_, hdeclines, fun ds a' y => ?_,
    fun n hn hlegal => ?_, fun n label hn hlabel hlegal => ?_⟩
  · rw [h.buttons, Engine.offerButtons]
    split
    · rfl
    · rw [List.getLast?_concat]
  · have hforgotten : (e.declined x later).activations.get? x = none := by
      simp [Engine.declined, IdMap.get?_erase]
    exact (hreached.answered hdeclines).no_effect_of_forgotten hold hforgotten
  · rw [Engine.answerPrompt_takesUp hidle hfront h hn, hlegal, if_neg (by simp)]
  · rw [h.buttons] at hlabel
    obtain ⟨effect, hbutton⟩ := Engine.button_of_offerButtons (h.buttons ▸ hn) hlabel
    have htakes := Engine.answerPrompt_takesUp hidle hfront h hn
    rw [if_pos hlegal] at htakes
    refine ⟨_, effect, hbutton, htakes, ?_⟩
    refine (hreached.answered htakes).runs_of_pick hold h.ability (fun y hget => ?_)
      fun y => hbutton.effect?_eq
    obtain rfl := Option.some.inj ((IdMap.get?_modify_self h.filed _).symm.trans hget)
    exact ⟨by simp, rfl, rfl⟩

/-- A prompt for a target at the front is answered as its buttons say. -/
theorem answersTarget {slot : String} {choices : List ChosenTarget} (hreached : Reached ⟨e, none⟩)
    (hfront : e.queue.steps = s :: later)
    (hkind : s.kind = .prompt ⟨view, p, .target x slot choices⟩)
    (hlength : view.buttons.length = choices.length) :
    AnswersTarget e p x slot choices view.buttons later := by
  obtain ⟨i, kind⟩ := s
  obtain rfl : kind = _ := hkind
  have hidle : e.queue.running = none := by simpa using hreached.ready.running
  refine ⟨fun q n => Engine.answerPrompt_refused hidle hfront, fun n hn => ?_⟩
  have htarget : choices[n]? = some choices[n] := List.getElem?_eq_getElem (hlength ▸ hn)
  exact ⟨choices[n], htarget, Engine.answerPrompt_tells hidle hfront hn htarget,
    fun activation hget => IdMap.get?_modify_self hget _⟩

/-- Each offer and each prompt for a target that waits, at any time, is for a player who exists and
has two buttons or more. An offer is made for a record, and answered as its buttons say once it is
at the front. A prompt for a target lists what was legal when it was opened, with its names on the
buttons, and is answered with the target of the button. Only who sets up the board can take players
away. -/
theorem prompts_answerable (b : Board) (ds : List Deed)
    (hplayers : Along KeepsPlayers (start b) ds)
    (hs : s ∈ ((start b).run ds).engine.queue.order) :
    (∀ n, s.kind = .prompt ⟨view, p, .offer x n⟩ →
      (((start b).run ds).engine.board.player? p).isSome ∧ 2 ≤ view.buttons.length ∧
      ∃ activation a, ((start b).run ds).engine.Offering view p x n activation a ∧
        ∀ later, ((start b).run ds).running = none →
          ((start b).run ds).engine.queue.steps = s :: later →
          AnswersOffer ((start b).run ds).engine p x view.buttons activation a later) ∧
    ∀ slot choices, s.kind = .prompt ⟨view, p, .target x slot choices⟩ →
      (((start b).run ds).engine.board.player? p).isSome ∧ 2 ≤ view.buttons.length ∧
      (∃ past d rest record a t, ds = past ++ d :: rest ∧
        ((start b).run past).OpensPrompt d s x record a t ∧ slot = t.name ∧
        choices = t.choices ((start b).run past).engine.board record ∧
        view.buttons = choices.map (Engine.targetLabel ((start b).run past).engine.board)) ∧
      ∀ later, ((start b).run ds).running = none →
        ((start b).run ds).engine.queue.steps = s :: later →
        AnswersTarget ((start b).run ds).engine p x slot choices view.buttons later := by
  have hreached : ((start b).run ds).Reached := ⟨b, ds, rfl⟩
  have hidled : ((start b).run ds).running = none →
      Reached ⟨((start b).run ds).engine, none⟩ := fun hidle => hidle ▸ hreached
  constructor
  · intro n hkind
    obtain ⟨activation, a, hoffering⟩ := hreached.offered s hs view p x n hkind
    refine ⟨?_, ?_, activation, a, hoffering, fun later hidle hfront =>
      answersOffer (hidled hidle) hfront hkind hoffering⟩
    · rw [← hoffering.player]
      exact player?_filed b ds hplayers hoffering.filed
    · rw [hoffering.buttons, length_offerButtons]
      omega
  · intro slot choices hkind
    have hasks : s.kind.asksTarget := by rw [hkind]; rfl
    obtain ⟨past, d, rest, x', record, a, t, hds, hopens⟩ := exists_opening b ds hs hasks
    have hopened := hopens.kind.symm.trans hkind
    unfold Engine.targetPrompt at hopened
    simp only [StepKind.prompt.injEq, Prompt.mk.injEq, Answer.target.injEq] at hopened
    obtain ⟨rfl, rfl, rfl, rfl, rfl⟩ := hopened
    refine ⟨?_, ?_, ⟨past, d, rest, record, a, t, hds, hopens, rfl, rfl, rfl⟩,
      fun later hidle hfront => answersTarget (hidled hidle) hfront hkind (by simp)⟩
    · obtain ⟨hpast, hrest⟩ := along_append.mp (hds ▸ hplayers)
      rw [hds, run_append]
      exact ((sound_start b).run past).player?_run hrest
        (player?_filed b past hpast hopens.fills.filed)
    · simpa using hopens.several

/-- A round begins that sets off a reaction with two alternatives, which is aimed at a player. Its
player is asked whether it shall be used, takes the second alternative, and is asked for the
target. -/
def askedTwice : List Deed :=
  [.call (.attach ⟨3⟩ {
      kind := .reaction
      triggers := [(.beginRound, fun _ _ => true)]
      targets := [⟨"player", .players fun _ _ _ => true⟩]
      alternatives := [
        ("Take 1", fun x => .order (.gain x.player 1) fun _ => .done),
        ("Take 3", fun x => .order (.gain x.player 3) fun _ => .done)] }),
    .call (.order .beginRound), .turn, .go, .turn, .answer ⟨0⟩ 1, .turn, .turn]

theorem prompts_answerable_askedTwice :
    Along KeepsPlayers (start deedInPlay) askedTwice ∧
      (∃ activation a, AnswersOffer ((start deedInPlay).run (askedTwice.take 5)).engine ⟨0⟩ ⟨0⟩
        ["Take 1", "Take 3", "Pass"] activation a []) ∧
      AnswersTarget ((start deedInPlay).run askedTwice).engine ⟨0⟩ ⟨0⟩ "player"
        [.player ⟨0⟩, .player ⟨1⟩] ["Ann", "Bob"] [] := by
  have hkeeps : Along KeepsPlayers (start deedInPlay) askedTwice := by
    refine ⟨?_, ?_, ?_, ?_, ?_, ?_, ?_, ?_, trivial⟩ <;> exact fun f hf => by simp at hf
  refine ⟨hkeeps, ?_, ?_⟩
  · obtain ⟨title, hsteps⟩ : ∃ title,
        ((start deedInPlay).run (askedTwice.take 5)).engine.queue.steps =
          [⟨⟨2⟩, .prompt ⟨⟨title, ["Take 1", "Take 3", "Pass"], some ⟨3⟩⟩, ⟨0⟩, .offer ⟨0⟩ 2⟩⟩] :=
      ⟨_, rfl⟩
    obtain ⟨-, -, activation, a, -, hanswers⟩ :=
      (prompts_answerable deedInPlay (askedTwice.take 5)
        (along_append.mp (List.take_append_drop 5 askedTwice ▸ hkeeps)).1
        (StepQueue.mem_order_of_mem_steps (by rw [hsteps]; exact List.mem_singleton.mpr rfl))).1
        2 rfl
    exact ⟨activation, a, hanswers [] rfl hsteps⟩
  · obtain ⟨title, hsteps⟩ : ∃ title, ((start deedInPlay).run askedTwice).engine.queue.steps =
        [⟨⟨5⟩, .prompt ⟨⟨title, ["Ann", "Bob"], some ⟨3⟩⟩, ⟨0⟩,
          .target ⟨0⟩ "player" [.player ⟨0⟩, .player ⟨1⟩]⟩⟩] := ⟨_, rfl⟩
    obtain ⟨-, -, -, hanswers⟩ := (prompts_answerable deedInPlay askedTwice hkeeps
      (StepQueue.mem_order_of_mem_steps (by rw [hsteps]; exact List.mem_singleton.mpr rfl))).2
      "player" [.player ⟨0⟩, .player ⟨1⟩] rfl
    exact hanswers [] rfl hsteps

end Moment

end Doomtown
