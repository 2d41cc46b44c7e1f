import Doomtown.Proofs.Beginnings
import Doomtown.Proofs.Registration
import Doomtown.Proofs.Restacking

/-!
# How records are filed

The record of an activation is entered when an action is played or a trigger is offered. It then
says what was picked, if an offer is accepted, and what was paid, once the costs are paid. Whatever
else happens to an activation leaves all this as it is. `Moment.Files` lists these ways for a record
to be as it is after a deed, with all that a deed notes in it, and every record that is filed after
a deed has come about in one of them (`Moment.Sound.files`).

No record is forgotten but that of an offer that is declined, or with the stack that it is on, and
only to retract an activation marks it as retracted (`Moment.refiles`).
-/

namespace Doomtown

open Play

/-- A record goes on with what was picked and paid, and with its player. -/
structure Activation.Carries (x x' : Activation) : Prop where
  ability : x'.ability = x.ability
  player : x'.player = x.player
  event : x'.event = x.event
  choice : x'.choice = x.choice
  receipts : x'.receipts = x.receipts
  idle : x'.stage = .idle ↔ x.stage = .idle
  unpaid : x'.stage.rank < 2 ↔ x.stage.rank < 2

theorem Activation.Carries.refl (x : Activation) : x.Carries x :=
  ⟨rfl, rfl, rfl, rfl, rfl, .rfl, .rfl⟩

/-- What happens to an activation leaves its record to go on, unless it is entered, accepted or
paid for. -/
theorem Advance.carries {admits : AbilityId → Prop} {x x' : Activation} {ps ps' : List Part}
    {o : Option Occurrence} (h : Advance admits (some x) ps o (some x') ps') :
    x.Carries x' ∨
      (∃ choice, x.stage = .idle ∧ ps = [.offer] ∧
        x' = { x with choice := choice, stage := .legalityChecked }) ∨
      ∃ receipts, x.stage = .legalityChecked ∧ ps = [.pay] ∧
        x' = { x with receipts := receipts, stage := .costsPaid } := by
  generalize hx : some x = before at h
  generalize hx' : some x' = after at h
  cases h with
  -- Here nothing is filed before or after.
  | start | offer | decline => simp at hx hx'
  | skip =>
    obtain rfl := Option.some.inj (hx'.trans hx.symm)
    exact .inl (.refl _)
  | answer b slot t =>
    subst hx
    obtain rfl := Option.some.inj hx'
    exact .inl ⟨rfl, rfl, rfl, rfl, rfl, .rfl, .rfl⟩
  | accept hstage choice =>
    obtain rfl := Option.some.inj hx
    obtain rfl := Option.some.inj hx'
    exact .inr (.inl ⟨choice, hstage, rfl, rfl⟩)
  | pay hstage receipts =>
    obtain rfl := Option.some.inj hx
    obtain rfl := Option.some.inj hx'
    exact .inr (.inr ⟨receipts, hstage, rfl, rfl⟩)
  | refuse | miss | ask | execute =>
    obtain rfl := Option.some.inj hx
    obtain rfl := Option.some.inj hx'
    exact .inl ⟨rfl, rfl, rfl, rfl, rfl, .rfl, .rfl⟩
  | complete hstage =>
    obtain rfl := Option.some.inj hx
    obtain rfl := Option.some.inj hx'
    refine .inl ⟨rfl, rfl, rfl, rfl, rfl, ?_, ?_⟩ <;>
      rcases hstage with hstage | hstage <;> simp [hstage, ActivationStage.rank]
  | resolve hstage | retract hstage | conclude hstage | announce hstage =>
    obtain rfl := Option.some.inj hx
    obtain rfl := Option.some.inj hx'
    refine .inl ⟨rfl, rfl, rfl, rfl, rfl, ?_, ?_⟩ <;> simp [hstage, ActivationStage.rank]

namespace Engine

variable {e : Engine}

/-! ## What is offered -/

/-- The record with which an ability is offered for an event. A forced one starts at once. -/
def proposed (event : GameEvent) (c : TriggerCandidate) (a : Ability) : Activation :=
  { Activation.new c.ability a.source c.player (some event) with
    stage := if a.kind.isForced then .legalityChecked else .idle }

/-- The first step of an ability that is offered. -/
def proposal (e : Engine) (event : GameEvent) (c : TriggerCandidate) (a : Ability) : StepKind :=
  if a.kind.isForced then .resolve ⟨e.nextActivation⟩ .payCosts
  else .prompt ⟨⟨a.offerTitle e.board (proposed event c a), offerButtons a, some a.source⟩,
    c.player, .offer ⟨e.nextActivation⟩ a.alternatives.length⟩

/-- To offer an ability is to enter its record and to queue its first step, or nothing. -/
theorem offer_proposes (e : Engine) (event : GameEvent) (c : TriggerCandidate) :
    ((offer event c).ends e).2.queue = e.queue ∧
        ((offer event c).ends e).2.activations = e.activations ∨
      ∃ a, e.ability? c.ability = some a ∧
        ((offer event c).ends e).2.queue = e.queue.push (e.proposal event c a) ∧
        ((offer event c).ends e).2.activations =
          e.activations.insert ⟨e.nextActivation⟩ (proposed event c a) := by
  unfold offer
  rw [ends_bind_ok (ends_look e)]
  cases hability : e.ability? c.ability with
  | none => exact .inl ⟨rfl, rfl⟩
  | some a =>
    dsimp only
    have htake : (takeActivationId).ends e =
        (.ok ⟨e.nextActivation⟩, { e with nextActivation := e.nextActivation + 1 }) := rfl
    rw [ends_bind_ok htake, ends_bind_ok (ends_look _)]
    dsimp only
    split
    · -- It is not legal, and only its number is gone.
      exact .inl ⟨rfl, rfl⟩
    · refine .inr ⟨a, rfl, ?_⟩
      by_cases hforced : a.kind.isForced
      · rw [if_pos hforced, proposal, proposed, if_pos hforced, if_pos hforced]
        exact ⟨rfl, rfl⟩
      · rw [if_neg hforced, proposal, proposed, if_neg hforced, if_neg hforced]
        exact ⟨rfl, rfl⟩

/-- A window that goes on offers its next ability, and the rest of it is queued behind. -/
theorem advance_proposes (e : Engine) (event : GameEvent) (c : TriggerCandidate)
    (rest : List TriggerCandidate) :
    ((advance ⟨event, c :: rest⟩).ends e).2 = ((offer event c).ends e).2.requeued event rest := by
  obtain ⟨e₁, hoffer, -⟩ := offer_ends e event c
  unfold advance
  dsimp only
  rw [ends_bind_ok hoffer, hoffer]
  cases rest <;> rfl

end Engine

namespace Moment

variable {m : Moment} {d : Deed} {x : ActivationId} {activation activation' : Activation}

/-- A window that starts offers its next ability. -/
theorem after_window_offer {i : StepId} {event : GameEvent} {c : TriggerCandidate}
    {rest : List TriggerCandidate}
    (hstarts : m.starts? d = some ⟨i, .window ⟨event, c :: rest⟩⟩) :
    ∃ q, m.engine.queue.FrontTaken ⟨i, .window ⟨event, c :: rest⟩⟩ q ∧
      (m.after d).engine = (((Engine.offer event c).ends
        { m.engine with queue := q }).2.requeued event rest).finished := by
  cases d with
  | turn =>
    obtain ⟨q, -, hbegin, hafter⟩ := begin?_of_starts hstarts
    refine ⟨q, StepQueue.frontTaken_begin hbegin, ?_⟩
    simp only [turn, hbegin, Engine.opening, Engine.asStep_ends, Engine.runStep_kind] at hafter
    rw [hafter, ← Engine.advance_proposes]
  | answer =>
    obtain ⟨_, _, _, -, -, hstep, -⟩ := beginAnswer?_of_starts hstarts
    simp at hstep
  | _ => cases hr : m.running <;> simp [starts?, hr] at hstarts

/-- How a record comes to be as it is after a deed. -/
inductive Files (m : Moment) (d : Deed) (x : ActivationId) : Activation → Prop where
  | played {a : AbilityId} {ability : Ability} {p : PlayerId}
      (hgives : m.gives d = some (.activate a p)) (hx : x = ⟨m.engine.nextActivation⟩)
      (hability : m.engine.ability? a = some ability) (haction : ability.isAction)
      (hafter : (m.after d).engine = m.engine.entered a (Engine.begun a ability p)) :
    Files m d x (Engine.begun a ability p)
  | offered {i : StepId} {event : GameEvent} {c : TriggerCandidate} {rest : List TriggerCandidate}
      {a : Ability} (hstarts : m.starts? d = some ⟨i, .window ⟨event, c :: rest⟩⟩)
      (hx : x = ⟨m.engine.nextActivation⟩) (hability : m.engine.ability? c.ability = some a) :
    Files m d x (Engine.proposed event c a)
  | accepted {player p : PlayerId} {n alternatives : Nat} {i : StepId} {view : PromptView}
      {judged : Activation} (hd : d = .answer player n)
      (hstarts : m.starts? d = some ⟨i, .prompt ⟨view, p, .offer x alternatives⟩⟩)
      (hn : n < view.buttons.length) (hno : n ≠ max alternatives 1)
      (hget : m.engine.activations.get? x = some judged) (hidle : judged.stage = .idle) :
    Files m d x { judged with
      choice := if alternatives = 0 then none else some n
      stage := .legalityChecked }
  | paid {i : StepId} {activation : Activation} {a : Ability} {receipts : List CostReceipt}
      {b : Board} (hstarts : m.starts? d = some ⟨i, .resolve x .payCosts⟩)
      (hget : m.engine.activations.get? x = some activation)
      (hstage : activation.stage = .legalityChecked)
      (hability : m.engine.ability? activation.ability = some a)
      (hpay : (Payment.payAll a.title activation a.costs).ends m.engine.board =
        (.ok receipts, b)) :
    Files m d x { activation with receipts := receipts, stage := .costsPaid }
  | goes {activation activation' : Activation}
      (hget : m.engine.activations.get? x = some activation)
      (hcarries : activation.Carries activation') : Files m d x activation'

/-! ## Records that are new -/

/-- A deed is about an activation that it enters. -/
theorem Sound.isAbout_of_changed (h : m.Sound)
    (hget' : (m.after d).engine.activations.get? x = some activation')
    (hchanged : m.engine.activations.get? x ≠ some activation') : m.isAbout d x := by
  by_contra hx
  rcases h.record_of_not_about (by simpa using hx) with heq | ⟨_, -, -, hgone⟩
  · exact hchanged (heq.symm.trans hget')
  · simp [hgone] at hget'

/-- What an attempt to play an action files is the record of that action. -/
theorem files_played {p : PlayerId} (hgives : m.gives d = some (.activate a p))
    (hnone : m.engine.activations.get? ⟨m.engine.nextActivation⟩ = none)
    (hget' : (m.after d).engine.activations.get? ⟨m.engine.nextActivation⟩ = some activation') :
    m.Files d ⟨m.engine.nextActivation⟩ activation' := by
  have hafter := (after_gives hgives).1
  change (m.after d).engine = ((Engine.activate a p).ends m.engine).2 at hafter
  have hactivates := m.engine.activate_activates a p
  generalize (Engine.activate a p).ends m.engine = ending at hactivates hafter
  cases hactivates with
  | unknown | refused | illegal => simp [hafter, hnone] at hget'
  | started hability haction hlegal =>
    rw [hafter, Engine.get?_entered] at hget'
    obtain rfl := Option.some.inj hget'
    exact .played hgives rfl hability haction hafter

/-- What a window files is the record of the trigger that it offers. -/
theorem files_offered {i : StepId} {w : TriggerWindow}
    (hstarts : m.starts? d = some ⟨i, .window w⟩)
    (hnone : m.engine.activations.get? ⟨m.engine.nextActivation⟩ = none)
    (hget' : (m.after d).engine.activations.get? ⟨m.engine.nextActivation⟩ = some activation') :
    m.Files d ⟨m.engine.nextActivation⟩ activation' := by
  obtain ⟨event, pending⟩ := w
  cases pending with
  | nil =>
    obtain ⟨q, -, hafter⟩ := after_window_nil hstarts
    rw [hafter] at hget'
    change m.engine.activations.get? _ = _ at hget'
    simp [hnone] at hget'
  | cons c rest =>
    obtain ⟨q, -, hafter⟩ := after_window_offer hstarts
    obtain ⟨q', hrequeued⟩ :=
      ((Engine.offer event c).ends { m.engine with queue := q }).2.requeued_eq event rest
    rw [hafter, hrequeued] at hget'
    change ((Engine.offer event c).ends { m.engine with queue := q }).2.activations.get? _ =
      _ at hget'
    rcases Engine.offer_proposes { m.engine with queue := q } event c with
      ⟨-, hsame⟩ | ⟨a, hability, -, hentered⟩
    · rw [hsame] at hget'
      simp [hnone] at hget'
    · rw [hentered, IdMap.get?_insert, if_pos rfl] at hget'
      obtain rfl := Option.some.inj hget'
      exact .offered hstarts rfl hability

/-- A record that is new is that of an action that is played or of a trigger that is offered. -/
theorem Sound.files_entered (h : m.Sound) (hready : m.Ready)
    (hnone : m.engine.activations.get? x = none) (hnil : m.partsOf x = [])
    (hnew : m.engine.nextActivation ≤ x.number)
    (hget' : (m.after d).engine.activations.get? x = some activation') :
    m.Files d x activation' := by
  rcases about_forms (h.isAbout_of_changed hget' (by simp [hnone])) with
    ⟨o, hgives, ho⟩ | ⟨⟨i, kind⟩, hstarts, hs⟩ | ⟨a, running, script, -, hrunning, -⟩
  · unfold Engine.entered? at ho
    split at ho
    · obtain rfl := Option.some.inj ho
      exact files_played hgives hnone hget'
    · -- What can be retracted was given its number before.
      obtain ⟨t, ht, rfl⟩ := Option.map_eq_some_iff.mp ho
      have hold := hready.retractable t (List.mem_filter.mp (List.mem_of_getLast? ht)).1
      omega
    · simp at ho
  · unfold Engine.takenOn? at hs
    split at hs
    · rename_i w hkind
      obtain rfl : kind = .window w := hkind
      obtain rfl := Option.some.inj hs
      exact files_offered hstarts hnone hget'
    · obtain ⟨⟨y, p⟩, hpart, rfl⟩ := Option.map_eq_some_iff.mp hs
      exact absurd hpart (part?_of_starts hstarts hnil p)
  · have heffect : m.effect? = some (a, x, running) := by
      unfold effect?
      rw [hrunning]
    rw [partsOf_of_effect heffect] at hnil
    simp at hnil

/-! ## Records that are changed -/

/-- An activation of which one part waits is changed by the step of this part, or retracted. -/
theorem Sound.starts_of_changed (h : m.Sound) (hget : m.engine.activations.get? x = some activation)
    {p : Part} (hparts : m.partsOf x = [p]) (hp : p ≠ .effect)
    (hget' : (m.after d).engine.activations.get? x = some activation')
    (hchanged : activation ≠ activation')
    (hkept : activation'.deactivated = activation.deactivated) :
    ∃ s, m.starts? d = some s ∧ s.kind.part? = some (x, p) := by
  have habout := h.isAbout_of_changed hget' (by rw [hget]; simpa using hchanged)
  rcases h.about_filed hget habout with ⟨a, q, hgives, ho⟩ | ⟨s, p', hstarts, hpart⟩ |
    ⟨a, running, script, -, hrunning, -⟩
  · rcases after_retract hgives ho hget with ⟨-, hsame⟩ | ⟨hcan, -, hretracted⟩
    · rw [hsame] at hget'
      exact absurd (Option.some.inj (hget.symm.trans hget')) hchanged
    · obtain rfl := Option.some.inj (hretracted.symm.trans hget')
      -- It was not deactivated before, as its stage says.
      have hstage := Engine.stage_of_canRetract hcan
      have hactive := h.active hget (by simp [hstage])
      simp [← hkept] at hactive
  · obtain ⟨ps, hfront⟩ := partsOf_of_starts hstarts hpart
    obtain ⟨rfl, -⟩ := List.cons.inj (hparts.symm.trans hfront)
    exact ⟨s, hstarts, hpart⟩
  · obtain ⟨ps, hfront⟩ := partsOf_of_running hrunning
    exact absurd (List.cons.inj (hparts.symm.trans hfront)).1 hp

/-- An offer that waits, and is past the check of its legality then, was accepted by an answer. -/
theorem files_accepted {s : Step} (hstarts : m.starts? d = some s)
    (hpart : s.kind.part? = some (x, .offer)) (hget : m.engine.activations.get? x = some activation)
    (hidle : activation.stage = .idle)
    (hget' : (m.after d).engine.activations.get? x = some activation')
    (hstage : activation'.stage = .legalityChecked) : m.Files d x activation' := by
  obtain ⟨player, n, rfl⟩ := answer_of_starts_offer hstarts hpart
  obtain ⟨i, ⟨view, p, reply⟩, q, -, hbegin, rfl, hn, hafter⟩ := beginAnswer?_of_starts hstarts
  cases reply with
  | script answers => simp [StepKind.part?] at hpart
  | target y slot choices => simp [StepKind.part?] at hpart
  | offer y alternatives =>
    obtain rfl : y = x := by simpa [StepKind.part?] using hpart
    dsimp only at hafter
    rw [hafter, Engine.asStep_ends] at hget'
    change ((Engine.answerWith n (.offer y alternatives)).ends _).2.activations.get? y = _ at hget'
    by_cases hno : n = max alternatives 1
    · rw [Engine.answerWith, if_pos hno] at hget'
      change (m.engine.activations.erase y).get? y = _ at hget'
      rw [IdMap.get?_erase, if_pos rfl] at hget'
      simp at hget'
    · rw [Engine.answerWith, if_neg hno, Engine.accept, ends_bind_ok (ends_look _)] at hget'
      simp only [hget] at hget'
      cases hability : m.engine.ability? activation.ability with
      | none =>
        rw [ends_bind_error (Engine.getAbility_missing (e := { m.engine with queue := q })
          hability)] at hget'
        obtain rfl := Option.some.inj (hget.symm.trans hget')
        simp [hidle] at hstage
      | some a =>
        rw [ends_bind_ok (Engine.getAbility_ends (e := { m.engine with queue := q })
          hability)] at hget'
        split at hget'
        · obtain rfl := Option.some.inj ((IdMap.get?_modify_self hget _).symm.trans hget')
          exact .accepted rfl hstarts hn hno hget hidle
        -- It has become illegal since it was offered.
        · change (m.engine.activations.erase y).get? y = _ at hget'
          rw [IdMap.get?_erase, if_pos rfl] at hget'
          simp at hget'

/-- The costs of an activation are paid by a turn of the queue, while nothing else waits for it. -/
theorem Sound.pays_in_turn (h : m.Sound) {i : StepId}
    (hstarts : m.starts? d = some ⟨i, .resolve x .payCosts⟩)
    (hget : m.engine.activations.get? x = some activation) :
    activation.isLive ∧ ∃ q : StepQueue, q.partsOf x = [] ∧ (m.after d).engine =
      ((Engine.resolve x .payCosts).ends { m.engine with queue := q }).2.finished := by
  cases d with
  | turn =>
    obtain ⟨q, hidle, hbegin, hafter⟩ := begin?_of_starts hstarts
    obtain ⟨-, hfits⟩ := h.fits_front (x := x) (p := .pay) hidle rfl
      (StepQueue.frontTaken_begin hbegin)
    obtain ⟨_, hget', hlive, -, hnone⟩ := follows_of_fits hfits (by decide)
    obtain rfl := Option.some.inj (hget.symm.trans hget')
    simp only [turn, hbegin, Engine.opening, Engine.asStep_ends, Engine.runStep_kind] at hafter
    refine ⟨hlive, q, hnone, ?_⟩
    rw [hafter]
  | answer =>
    obtain ⟨_, _, _, -, -, hstep, -⟩ := beginAnswer?_of_starts hstarts
    simp at hstep
  | _ => cases hr : m.running <;> simp [starts?, hr] at hstarts

/-- What pays its costs has noted what it paid. -/
theorem Sound.files_paid (h : m.Sound) {s : Step} (hstarts : m.starts? d = some s)
    (hpart : s.kind.part? = some (x, .pay)) (hget : m.engine.activations.get? x = some activation)
    (hstage : activation.stage = .legalityChecked)
    (hget' : (m.after d).engine.activations.get? x = some activation')
    (hpaid : activation'.stage = .costsPaid) : m.Files d x activation' := by
  obtain ⟨i, kind⟩ := s
  obtain rfl : kind = .resolve x .payCosts := by
    unfold StepKind.part? at hpart
    split at hpart <;> simp_all
  obtain ⟨hlive, q, hnone, hafter⟩ := h.pays_in_turn hstarts hget
  rw [hafter] at hget'
  change ((Engine.resolve x .payCosts).ends { m.engine with queue := q }).2.activations.get? x =
    _ at hget'
  cases hability : m.engine.ability? activation.ability with
  | none =>
    rw [Engine.resolve_idle] at hget'
    · obtain rfl := Option.some.inj (hget.symm.trans hget')
      simp [hstage] at hpaid
    · intro activation'' a hget'' _ hability'
      obtain rfl := Option.some.inj (hget.symm.trans hget'')
      have hmissing := hability.symm.trans hability'
      simp at hmissing
  | some a =>
    rw [Engine.resolve_live (e := { m.engine with queue := q }) .payCosts hget hlive hability]
      at hget'
    rcases hpay : (Payment.payAll a.title activation a.costs).ends m.engine.board with
      ⟨err | receipts, b⟩
    · dsimp only at hget'
      rw [Engine.payCosts_refused (e := { m.engine with queue := q }) hpay] at hget'
      obtain rfl := Option.some.inj ((IdMap.get?_modify_self hget _).symm.trans hget')
      simp [hstage] at hpaid
    · have hfiled := Engine.payCosts_filed (e := { m.engine with queue := q }) hget hnone hpay
      obtain rfl := Option.some.inj (hfiled.symm.trans hget')
      exact .paid hstarts hget hstage hability hpay

/-- Whatever is filed after a deed has come about in one of the ways listed. -/
theorem Sound.files (h : m.Sound) (hready : m.Ready)
    (hget' : (m.after d).engine.activations.get? x = some activation') :
    m.Files d x activation' := by
  rcases (Moment.passage h d).spared_or_taken x with ⟨usage, mine, hspares, hx, -, -⟩ |
    ⟨o, hadvance, hentry, -, -⟩
  · exact .goes (get?_spared (e := { m.engine with usage := usage }) rfl hspares hx hget') (.refl _)
  · rw [hget'] at hadvance
    cases hget : m.engine.activations.get? x with
    | none =>
      rw [hget] at hadvance
      have hnil := hadvance.entered
      exact h.files_entered hready hget hnil (hentry hget hnil) hget'
    | some activation =>
      rw [hget] at hadvance
      -- The step tells what was noted where the record alone does not.
      rcases hadvance.carries with hcarries | ⟨choice, hidle, hparts, rfl⟩ |
        ⟨receipts, hstage, hparts, rfl⟩
      · exact .goes hget hcarries
      · obtain ⟨s, hstarts, hpart⟩ := h.starts_of_changed hget hparts (by decide) hget'
          (fun heq => by simpa [hidle] using congrArg Activation.stage heq) rfl
        exact files_accepted hstarts hpart hget hidle hget' rfl
      · obtain ⟨s, hstarts, hpart⟩ := h.starts_of_changed hget hparts (by decide) hget'
          (fun heq => by simpa [hstage] using congrArg Activation.stage heq) rfl
        exact h.files_paid hstarts hpart hget hstage hget' rfl

/-- What is filed goes on with its ability and its player, and is idle no more once it is started. -/
theorem Sound.files_of_filed (h : m.Sound)
    (hget : m.engine.activations.get? x = some activation) (hfiles : m.Files d x activation') :
    activation'.ability = activation.ability ∧ activation'.player = activation.player ∧
      (activation.stage ≠ .idle → activation'.stage ≠ .idle) := by
  have hold : x ≠ ⟨m.engine.nextActivation⟩ := by
    rintro rfl
    simp [(h.fresh ⟨m.engine.nextActivation⟩ (Nat.le_refl _)).1] at hget
  cases hfiles with
  | played _ hx => exact absurd hx hold
  | offered _ hx => exact absurd hx hold
  | accepted _ _ _ _ hget' =>
    obtain rfl := Option.some.inj (hget.symm.trans hget')
    exact ⟨rfl, rfl, by simp⟩
  | paid _ hget' =>
    obtain rfl := Option.some.inj (hget.symm.trans hget')
    exact ⟨rfl, rfl, by simp⟩
  | goes hget' hcarries =>
    obtain rfl := Option.some.inj (hget.symm.trans hget')
    exact ⟨hcarries.ability, hcarries.player, fun hstarted => mt hcarries.idle.mp hstarted⟩

/-! ## What is forgotten and what is retracted -/

/-- What a deed does to the record of an activation, as far as it says whether it is retracted. -/
inductive Refiles (m : Moment) (d : Deed) (x : ActivationId) : Prop where
  | stays (hsame : ((m.after d).engine.activations.get? x).map (·.deactivated) =
      (m.engine.activations.get? x).map (·.deactivated))
  | enters {activation : Activation} (hx : x = ⟨m.engine.nextActivation⟩)
      (hget' : (m.after d).engine.activations.get? x = some activation)
      (hlive : activation.isLive)
  | declines {i : StepId} {view : PromptView} {p : PlayerId} {alternatives : Nat}
      (hstarts : m.starts? d = some ⟨i, .prompt ⟨view, p, .offer x alternatives⟩⟩)
      (hgone : (m.after d).engine.activations.get? x = none)
  | clears (a : AbilityId) (hmem : x ∈ m.engine.stack a)
      (hnil : (m.after d).engine.stack a = [])
      (hgone : (m.after d).engine.activations.get? x = none)
  | retracts {a : AbilityId} {p : PlayerId} {activation : Activation} {b : Board}
      (hgives : m.gives d = some (.retract a p)) (hlatest : m.engine.latestRetractable? a = some x)
      (hget : m.engine.activations.get? x = some activation)
      (hcan : Engine.canRetract m.engine.board p activation)
      (hafter : (m.after d).engine = m.engine.retracted a x activation b)

theorem refiles_of_eq (hsame : (m.after d).engine.activations.get? x =
    m.engine.activations.get? x) : m.Refiles d x :=
  .stays (by rw [hsame])

theorem refiles_of_entered {activation : Activation} (hlive : activation.isLive)
    (hafter : (m.after d).engine.activations =
      m.engine.activations.insert ⟨m.engine.nextActivation⟩ activation) : m.Refiles d x := by
  have hget : (m.after d).engine.activations.get? x =
      if (⟨m.engine.nextActivation⟩ : ActivationId) = x then some activation
      else m.engine.activations.get? x := by
    rw [hafter]
    exact IdMap.get?_insert ..
  by_cases hx : (⟨m.engine.nextActivation⟩ : ActivationId) = x
  · rw [if_pos hx] at hget
    exact .enters hx.symm hget hlive
  · exact refiles_of_eq (hget.trans (if_neg hx))

/-- Whatever a deed does to a record is of this list. -/
theorem refiles (m : Moment) (d : Deed) (x : ActivationId) : m.Refiles d x := by
  cases m.curates d with
  | sheds h => exact .stays (h.filed x)
  | @starts a p ability hgives hability haction hlegal hafter =>
    have hentered : (m.after d).engine.activations =
        m.engine.activations.insert ⟨m.engine.nextActivation⟩ (Engine.begun a ability p) := by
      rw [hafter]
      rfl
    exact refiles_of_entered rfl hentered
  | @retracts a p y activation b hgives hlatest hget hcan _ hafter =>
    by_cases hxy : y = x
    · subst hxy
      exact .retracts hgives hlatest hget hcan hafter
    · refine refiles_of_eq ?_
      rw [hafter]
      exact IdMap.get?_modify_of_ne _ hxy _
  | unregisters a hgives hafter => exact refiles_of_eq (by rw [hafter])
  | clears a hd hafter =>
    have hclears := Engine.clearRetractable_clears a m.engine
    rw [← hafter] at hclears
    rcases hclears.filed x with hsame | ⟨hgone, a', ha', hmem⟩
    · exact refiles_of_eq hsame
    · exact .clears a' hmem ((hclears.eachStack a').trans (if_pos ha')) hgone
  | attaches c design hd hafter =>
    refine refiles_of_eq ?_
    rw [hafter, (Engine.addAbility_enrolls c design m.engine).activations]
  | sets f hd hafter => exact refiles_of_eq (by rw [hafter])
  | offers i w hstarts =>
    obtain ⟨event, pending⟩ := w
    cases pending with
    | nil =>
      obtain ⟨q, -, hafter⟩ := after_window_nil hstarts
      exact refiles_of_eq (by rw [hafter]; rfl)
    | cons c rest =>
      obtain ⟨back, e₁, -, -, hoffers, hafter⟩ := after_window hstarts
      obtain ⟨q, hrequeued⟩ := e₁.requeued_eq event rest
      rw [hrequeued] at hafter
      cases hoffers with
      | unknown | skipped => exact refiles_of_eq (by rw [hafter]; rfl)
      | @entered activation kind _ _ _ hlive _ _ =>
        exact refiles_of_entered hlive (by rw [hafter]; rfl)
  | answers i view p y alternatives hstarts hafter =>
    obtain ⟨activations, q, hafter, hkept, -⟩ := hafter
    rcases hkept x with hsame | ⟨rfl, hgone⟩
    · exact .stays (by rw [hafter]; exact hsame)
    · exact .declines hstarts (by rw [hafter]; exact hgone)
  | fires event hfires =>
    obtain ⟨e, hafter, hopens⟩ := opens_of_fires hfires
    obtain ⟨q, hrequeued⟩ := e.requeued_eq event (e.collect event).pending
    rw [hrequeued] at hafter
    rcases hopens.filed x with hsame | ⟨hgone, a, ha, hmem⟩
    · exact .stays (by rw [hafter]; exact hsame)
    · refine .clears a hmem ?_ (by rw [hafter]; exact hgone)
      rw [hafter]
      exact (hopens.eachStack a).trans (if_pos ha)

/-- No deed changes abilities, but one that attaches another. -/
theorem Alters.abilities {e e' : Engine} (h : m.Alters d e e') :
    e'.abilities = e.abilities ∨ ∃ (c : CardId) (design : Design) (card : Card) (ability : Ability),
      e.Attaches c design card ability e' := by
  cases h with
  | tends h => exact .inl h.abilities
  | relocates _ h => exact .inl h.abilities
  | refunds _ _ h => exact .inl h.abilities
  | shifts _ _ _ _ h => exact .inl h.abilities
  | registers _ _ _ h => exact .inl h.abilities
  | unregisters _ _ h => exact .inl h.abilities
  | attaches c design card ability h => exact .inr ⟨c, design, card, ability, h⟩
  | hears _ _ h => exact .inl h.abilities
  | sets _ _ _ h => exact .inl h.abilities

/-- The ability of what is filed was there before the deed, unless the deed has entered it. -/
theorem Sourced.ability_after (h : m.Sourced) (hsound : m.Sound) {a : Ability}
    (hget : m.engine.activations.get? x = some activation)
    (hability : (m.after d).engine.ability? activation.ability = some a) :
    m.engine.ability? activation.ability = some a := by
  obtain ⟨a', hability', -⟩ := h.filed x activation hget
  have hkept := (Moment.passage hsound d).ability? hability'
  rw [hkept] at hability
  exact hability'.trans hability

/-- What holds at the start and is kept by every deed holds at every moment that is reached. -/
theorem Reached.invariant {P : Moment → Prop} (h : m.Reached) (hstart : ∀ b, P (start b))
    (hafter : ∀ {m : Moment}, m.Reached → P m → ∀ d, P (m.after d)) : P m := by
  obtain ⟨b, ds, rfl⟩ := h
  suffices hrun : ∀ {m : Moment}, m.Reached → P m → P (m.run ds) from
    hrun ⟨b, [], rfl⟩ (hstart b)
  induction ds with
  | nil => exact fun _ hm => hm
  | cons d ds ih => exact fun hreached hm => ih (hreached.after d) (hafter hreached hm d)

/-- Every ability was designed and built for a card. -/
theorem Reached.built (h : m.Reached) {a : AbilityId} {ability : Ability}
    (hability : m.engine.ability? a = some ability) :
    ∃ (design : Design) (card : Card), design.build card = .ok ability := by
  let Built (m : Moment) : Prop := ∀ ability ∈ m.engine.abilities,
    ∃ (design : Design) (card : Card), design.build card = .ok ability
  have hall : Built m := by
    refine h.invariant (P := Built) (fun b => ?_) fun {m} hreached hbuilt d ability hmem => ?_
    · exact fun ability hmem => absurd hmem List.not_mem_nil
    rcases (hreached.sound.alters d).abilities with hsame | ⟨c, design, card, added, hattaches⟩
    · rw [hsame, abilities_countedBy] at hmem
      exact hbuilt ability hmem
    · rw [hattaches.abilities, abilities_countedBy, List.mem_append, List.mem_singleton] at hmem
      rcases hmem with hmem | rfl
      · exact hbuilt ability hmem
      · exact ⟨design, card, hattaches.built⟩
  exact hall ability (List.mem_of_getElem? hability)

end Moment

end Doomtown
