import Doomtown.Proofs.Course
import Doomtown.Proofs.LifeCycle

/-!
# Which activations are retracted

An activation ends without effect if its costs cannot be paid or if it has no target for a slot.
In the second case its costs are paid by then, and it stays at the stage at which it can be
retracted, so its player can have the costs back though the activation is over. That is the one way
in which something is retracted that is not live any more: what is retracted has its costs paid, was
not retracted before, and is live if and only if no step of it has missed a target
(`Moment.retracted_live_iff`).
-/

namespace Doomtown

open Play

/-- An activation that is live has a slot to be filled next for which there is no target. -/
def Engine.lacksTarget (e : Engine) (x : ActivationId) : Bool :=
  (e.activations.get? x).any fun activation => activation.isLive &&
    (e.ability? activation.ability).any fun a =>
      (Engine.openSlot? e.board activation a.targets).any fun slot =>
        (slot.choices e.board activation).isEmpty

namespace Moment

/-- A deed starts the choice of targets of an activation that lacks one. -/
def misses (m : Moment) (d : Deed) (x : ActivationId) : Bool :=
  match m.running, d with
  | none, .turn =>
    match m.engine.queue.begin? with
    | some (⟨_, .resolve y .chooseTargets⟩, _) => y = x && m.engine.lacksTarget x
    | _ => false
  | _, _ => false

variable {m m' : Moment} {d : Deed} {x : ActivationId} {activation activation' : Activation}

/-! ## One deed -/

/-- When the choice of targets starts, the activation is cancelled if it lacks one, and only
then. -/
theorem choose_turn (hrunning : m.running = none) {i : StepId} {q : StepQueue}
    (hbegin : m.engine.queue.begin? = some (⟨i, .resolve x .chooseTargets⟩, q))
    (hget : m.engine.activations.get? x = some activation) (hlive : activation.isLive) :
    ∃ activation', (m.after .turn).engine.activations.get? x = some activation' ∧
      activation'.cancelled = m.engine.lacksTarget x ∧
      (activation'.cancelled → activation'.stage = activation.stage) := by
  obtain ⟨hcancelled, -⟩ := Activation.isLive_iff.mp hlive
  have hafter : (m.after .turn).engine =
      ((Engine.resolve x .chooseTargets).ends { m.engine with queue := q }).2.finished := by
    have hturn : m.after .turn = turn m.engine := by
      unfold after
      rw [hrunning]
    rw [hturn, turn, hbegin]
    show ((Engine.asStep q (Engine.runStep ⟨i, .resolve x .chooseTargets⟩)).ends m.engine).2 = _
    rw [Engine.asStep_ends, Engine.runStep_kind]
  have hlacks : m.engine.lacksTarget x = (m.engine.ability? activation.ability).any fun a =>
      (Engine.openSlot? m.engine.board activation a.targets).any fun slot =>
        (slot.choices m.engine.board activation).isEmpty := by
    simp [Engine.lacksTarget, hget, hlive]
  rw [hafter, hlacks]
  cases hability : m.engine.ability? activation.ability with
  | none =>
    -- Without its ability nothing is done.
    have hidle : ((Engine.resolve x .chooseTargets).ends { m.engine with queue := q }).2 =
        { m.engine with queue := q } := by
      refine Engine.resolve_idle _ fun activation' a hget' _ hability' => ?_
      obtain rfl := Option.some.inj (hget.symm.trans hget')
      have hsome : m.engine.ability? activation.ability = some a := hability'
      simp [hability] at hsome
    rw [hidle]
    exact ⟨activation, hget, hcancelled, fun _ => rfl⟩
  | some a =>
    rw [Engine.resolve_live (e := { m.engine with queue := q }) .chooseTargets hget hlive hability]
    obtain ⟨e', hend, hfills⟩ := Engine.fillSlots_ends { m.engine with queue := q } a x activation
      a.targets
    have hnoted : ∀ chosen, (Engine.noted { m.engine with queue := q } x chosen).activations.get? x =
        some { activation with targets := activation.targets ++ chosen } := fun chosen =>
      IdMap.get?_modify_self hget _
    dsimp only
    rw [hend]
    cases hfills with
    | resolved chosen hopen =>
      refine ⟨_, IdMap.get?_modify_self (hnoted chosen) _, ?_, fun hc => ?_⟩
      · have hopen' : Engine.openSlot? m.engine.board activation a.targets = none := hopen
        simp [hopen', hcancelled]
      · simp [hcancelled] at hc
    | @missed chosen slot hopen hnone =>
      refine ⟨_, IdMap.get?_modify_self (hnoted chosen) _, ?_, fun _ => rfl⟩
      have hopen' : Engine.openSlot? m.engine.board activation a.targets = some slot := hopen
      have hnone' : slot.choices m.engine.board activation = [] := hnone
      simp [hopen', hnone']
    | @asked chosen slot hopen hsome =>
      refine ⟨_, IdMap.get?_modify_self (hnoted chosen) _, ?_, fun _ => rfl⟩
      have hopen' : Engine.openSlot? m.engine.board activation a.targets = some slot := hopen
      have hsome' : slot.choices m.engine.board activation ≠ [] := hsome
      simp [hopen', hsome', hcancelled]

/-- To retract an activation is not to cancel it. -/
theorem cancelled_retract (e : Engine) (a : AbilityId) (p : PlayerId)
    (hget : e.activations.get? x = some activation)
    (hget' : ((Engine.retract a p).ends e).2.activations.get? x = some activation') :
    activation'.cancelled = activation.cancelled := by
  have hsame : e.activations.get? x = some activation' →
      activation'.cancelled = activation.cancelled := fun h => by
    rw [Option.some.inj (hget.symm.trans h)]
  have hends := Engine.retract_ends e a p
  generalize (Engine.retract a p).ends e = ending at hends hget'
  cases hends with
  | refused => exact hsame hget'
  | failed => exact hsame hget'
  | @retracted y retracted b =>
    change (e.activations.modify y _).get? x = _ at hget'
    by_cases hyx : y = x
    · subst hyx
      rw [IdMap.get?_modify_self hget] at hget'
      rw [← Option.some.inj hget']
    · rw [IdMap.get?_modify_of_ne _ hyx] at hget'
      exact hsame hget'

/-- To note a target is not to cancel the activation. -/
theorem cancelled_chooseTarget {e : Engine} (slot : String) (choices : List ChosenTarget) (n : Nat)
    (hget : e.activations.get? x = some activation)
    (hget' : ((Engine.chooseTarget x slot choices n).ends e).2.activations.get? x =
      some activation') : activation'.cancelled = activation.cancelled := by
  unfold Engine.chooseTarget at hget'
  cases hchoice : choices[n]? with
  | none =>
    rw [hchoice] at hget'
    rw [Option.some.inj (hget.symm.trans hget')]
  | some target =>
    rw [hchoice] at hget'
    change (e.activations.modify x _).get? x = _ at hget'
    rw [IdMap.get?_modify_self hget] at hget'
    rw [← Option.some.inj hget']
    rfl

/-- What an activation is filed under was given. -/
theorem Sound.number_of_filed (h : m.Sound) (hget : m.engine.activations.get? x = some activation) :
    x.number < m.engine.nextActivation := by
  by_contra hge
  rw [(h.fresh x (Nat.le_of_not_lt hge)).1] at hget
  simp at hget

/-- While an activation has its targets to choose, a step of it that starts is the choice of them. -/
theorem Sound.choose_of_starts (h : m.Sound) (hrunning : m.running = none)
    (hget : m.engine.activations.get? x = some activation) (hstage : activation.stage = .costsPaid)
    {s : Step} {q : StepQueue} (htaken : m.engine.queue.FrontTaken s q)
    (hx : m.engine.takenOn? s.kind = some x) : s.kind.part? = some (x, .choose) := by
  have hnumber := h.number_of_filed hget
  have hpart : ∃ p, s.kind.part? = some (x, p) := by
    have hnew : (⟨m.engine.nextActivation⟩ : ActivationId) ≠ x := by
      rintro rfl
      exact absurd hnumber (Nat.lt_irrefl _)
    unfold Engine.takenOn? at hx
    split at hx
    · exact absurd (Option.some.inj hx) hnew
    · obtain ⟨⟨y, p⟩, hpart, rfl⟩ := Option.map_eq_some_iff.mp hx
      exact ⟨p, hpart⟩
  obtain ⟨p, hpart⟩ := hpart
  obtain ⟨-, hfits⟩ := h.fits_front hrunning hpart htaken
  by_cases hp : p = .choose
  · rw [hpart, hp]
  · -- Any other part belongs to another stage.
    obtain ⟨activation'', hget'', -, hfollows⟩ := follows_of_fits hfits hp
    obtain rfl := Option.some.inj (hget.symm.trans hget'')
    cases p <;> simp [Part.Follows, hstage] at hfollows hp

/-- An activation with its costs paid is not cancelled by a deed in which it misses no target. -/
theorem Sound.uncancelled (h : m.Sound)
    (hget : m.engine.activations.get? x = some activation) (hstage : activation.stage = .costsPaid)
    (hcancelled : activation.cancelled = false) (hd : m.misses d x = false)
    (hget' : (m.after d).engine.activations.get? x = some activation') :
    activation'.cancelled = false := by
  have hnumber := h.number_of_filed hget
  have hsame : m.engine.activations.get? x = some activation' → activation'.cancelled = false :=
    fun hold => by rw [← Option.some.inj (hget.symm.trans hold), hcancelled]
  have hlive : activation.isLive := by
    have hfits := h.fits x
    rw [hget] at hfits
    have hdeactivated := hfits.deactivated
    simp [Activation.isLive, hcancelled, hstage, ActivationStage.isTerminal] at hdeactivated ⊢
    exact hdeactivated
  have horder : ∀ o : Order, m.engine.entered? o = some x →
      ((o.carryOut).ends m.engine).2.activations.get? x = some activation' →
      activation'.cancelled = false := by
    intro o ho hcarried
    unfold Engine.entered? at ho
    split at ho
    · -- What is entered is not filed yet.
      obtain rfl := Option.some.inj ho
      exact absurd hnumber (Nat.lt_irrefl _)
    · rw [cancelled_retract m.engine _ _ hget hcarried, hcancelled]
    · simp at ho
  by_cases hx : m.isAbout d x
  · have habout : m.about? d = some x := of_decide_eq_true hx
    obtain ⟨e, running⟩ := m
    cases running with
    | none =>
      cases d with
      | call c =>
        cases c with
        | order o =>
          refine horder o habout ?_
          rw [← hget']
          show _ = ((discard o.carryOut).ends e).2.activations.get? x
          rw [ends_discard]
        | _ => simp [about?] at habout
      | turn =>
        obtain ⟨s, hstarts, hs⟩ := Option.bind_eq_some_iff.mp habout
        obtain ⟨⟨⟨i, kind⟩, q⟩, hbegin, rfl⟩ := Option.map_eq_some_iff.mp hstarts
        have hpart := h.choose_of_starts rfl hget hstage (StepQueue.frontTaken_begin hbegin) hs
        -- The step is the choice itself, for a prompt does not start by a turn.
        obtain rfl : kind = .resolve x .chooseTargets := by
          cases kind with
          | resolve y stage => cases stage <;> simp [StepKind.part?] at hpart; rw [hpart]
          | prompt p => exact absurd hbegin StepQueue.begin?_ne_prompt
          | event event change => cases change <;> simp [StepKind.part?] at hpart
          | _ => simp [StepKind.part?] at hpart
        obtain ⟨activation'', hget'', heq, -⟩ := choose_turn (m := ⟨e, none⟩) rfl hbegin hget hlive
        obtain rfl := Option.some.inj (hget'.symm.trans hget'')
        rw [heq]
        simpa [misses, hbegin] using hd
      | answer p n =>
        obtain ⟨s, hstarts, hs⟩ := Option.bind_eq_some_iff.mp habout
        obtain ⟨i, prompt, q, -, hbegin, rfl, -, hafter⟩ := beginAnswer?_of_starts hstarts
        have hpart := h.choose_of_starts rfl hget hstage (StepQueue.frontTaken_beginAnswer hbegin) hs
        obtain ⟨view, player, reply⟩ := prompt
        cases reply with
        | target y slot choices =>
          obtain rfl : y = x := by simpa [StepKind.part?] using hpart
          rw [hafter] at hget'
          dsimp only at hget'
          rw [Engine.asStep_ends] at hget'
          rw [cancelled_chooseTarget (e := { e with queue := q }) slot choices n hget hget',
            hcancelled]
        | _ => simp [StepKind.part?] at hpart
      | go => simp [about?, starts?] at habout
    | some r =>
      obtain ⟨task, script⟩ := r
      -- An effect that is running has all its targets.
      have heffect : ∀ a y activation, task = .effect a y activation → y ≠ x := by
        rintro a y running rfl rfl
        have hrunning := h.running a y running rfl
        obtain rfl := Option.some.inj (hget.symm.trans hrunning)
        have hresolved := (h.effect_stage rfl).1
        rw [hstage] at hresolved
        simp at hresolved
      cases d with
      | go =>
        cases script with
        | order o next => exact horder o habout hget'
        | done =>
          cases task with
          | effect a y running => exact absurd (Option.some.inj habout) (heffect a y running rfl)
          | _ => simp [about?] at habout
        | fail err =>
          cases task with
          | effect a y running => exact absurd (Option.some.inj habout) (heffect a y running rfl)
          | _ => simp [about?] at habout
        | _ => cases task <;> simp [about?] at habout
      | _ => cases task <;> cases script <;> simp [about?] at habout
  · rcases h.record_of_not_about (by simpa using hx) with heq | ⟨_, -, -, hnone⟩
    · exact hsame (heq ▸ hget')
    · rw [hnone] at hget'
      simp at hget'

/-! ## A run -/

/-- An activation that was cancelled once its costs were paid stays so, and none comes to be so but
by missing a target. -/
theorem cancelled_of_advance {admits : AbilityId → Prop} {a a' : Option Activation}
    {ps ps' : List Part} {o : Option Occurrence} (h : Advance admits a ps o a' ps')
    (hfits : Fits a ps) (ha' : a' = some activation') :
    (a = none ∧ ps = [] ∧ activation'.cancelled = false) ∨
      ∃ activation, a = some activation ∧
        ((activation'.cancelled ∧ activation'.stage ≠ .legalityChecked ↔
          activation.cancelled ∧ activation.stage ≠ .legalityChecked) ∨
        activation.stage = .costsPaid ∧ activation.cancelled = false) := by
  -- Nothing waits for what was cancelled.
  have hgoing : ∀ {b : Activation}, a = some b → ps ≠ [] → b.cancelled = false := by
    rintro b rfl hps
    cases hc : b.cancelled with
    | false => rfl
    | true => exact absurd (hfits.cancelled hc).1 hps
  cases h with
  | start _ hl _ =>
    obtain rfl := Option.some.inj ha'
    exact .inl ⟨rfl, rfl, (Activation.isLive_iff.mp hl).1⟩
  | offer _ hl =>
    obtain rfl := Option.some.inj ha'
    exact .inl ⟨rfl, rfl, (Activation.isLive_iff.mp hl).1⟩
  | decline => simp at ha'
  | skip => exact .inr ⟨activation', ha', .inl .rfl⟩
  | answer b =>
    obtain ⟨b', rfl, rfl⟩ := Option.map_eq_some_iff.mp ha'
    exact .inr ⟨b', rfl, .inl .rfl⟩
  | retract hstage =>
    obtain rfl := Option.some.inj ha'
    exact .inr ⟨_, rfl, .inl (by simp [hstage])⟩
  | miss hstage | ask hstage | resolve hstage =>
    exact .inr ⟨_, rfl, .inr ⟨hstage, hgoing rfl (by simp)⟩⟩
  | accept | pay | execute | conclude | announce | complete =>
    obtain rfl := Option.some.inj ha'
    exact .inr ⟨_, rfl, .inl (by simp [hgoing rfl (by simp)])⟩
  | refuse hstage =>
    obtain rfl := Option.some.inj ha'
    exact .inr ⟨_, rfl, .inl (by simp [hstage])⟩

/-- What is filed was cancelled with its costs paid if and only if a target was missed. -/
structure Missed (m : Moment) (x : ActivationId) (missed : Prop) : Prop where
  filed : ∀ activation, m.engine.activations.get? x = some activation →
    (activation.cancelled ∧ activation.stage ≠ .legalityChecked ↔ missed)
  given : missed → x.number < m.engine.nextActivation

/-- Where a target is missed, the activation was live and is cancelled. -/
theorem Sound.filed_of_misses (h : m.Sound) (hd : m.misses d x) :
    ∃ activation activation', m.engine.activations.get? x = some activation ∧ activation.isLive ∧
      (m.after d).engine.activations.get? x = some activation' ∧ activation'.cancelled ∧
      activation'.stage = .costsPaid := by
  unfold misses at hd
  split at hd
  · rename_i hrunning
    split at hd
    · rename_i i y q hbegin
      simp only [Bool.and_eq_true, decide_eq_true_eq] at hd
      obtain ⟨rfl, hlacks⟩ := hd
      obtain ⟨activation, hget, htest⟩ := (Option.any_eq_true _ _).mp hlacks
      simp only [Bool.and_eq_true] at htest
      obtain ⟨activation', hget', hcancelled, hstage⟩ :=
        choose_turn hrunning hbegin hget htest.1
      rw [hlacks] at hcancelled
      refine ⟨activation, activation', hget, htest.1, hget', hcancelled, ?_⟩
      rw [hstage hcancelled]
      -- The step that starts is what is ahead of it.
      obtain ⟨-, hfits⟩ := h.fits_front hrunning (s := ⟨i, .resolve y .chooseTargets⟩) rfl
        (StepQueue.frontTaken_begin hbegin)
      rw [hget] at hfits
      rcases hfits.ahead with hahead | ⟨-, hparts⟩
      · rcases (follows_of_ahead hahead).1 with hpaid | hgone
        · exact hpaid
        · simp [Activation.isLive, hgone, ActivationStage.isTerminal] at htest
      · simp at hparts
    · simp at hd
  · simp at hd

/-- Whether what is filed was cancelled with its costs paid changes only where a target is missed. -/
theorem Missed.after (h : m.Sound) {missed : Prop} (hmissed : m.Missed x missed) (d : Deed) :
    (m.after d).Missed x (missed ∨ m.misses d x) := by
  have hpassage := passage h d
  constructor
  · intro activation' hget'
    -- Where a target is missed now, none was before, for it was live.
    by_cases hd : m.misses d x
    · obtain ⟨_, activation'', -, -, hget'', hcancelled, hstage⟩ := h.filed_of_misses hd
      obtain rfl := Option.some.inj (hget'.symm.trans hget'')
      exact ⟨fun _ => .inr hd, fun _ => ⟨hcancelled, by rw [hstage]; decide⟩⟩
    · have hiff : (missed ∨ m.misses d x) ↔ missed := by simp [hd]
      rw [hiff]
      rcases hpassage.spared_or_taken x with ⟨usage, mine, hspares, hx, -, -⟩ |
        ⟨o, hadvance, hentry, -, -⟩
      · refine hmissed.filed activation' (get?_spared (e := { m.engine with usage := usage }) rfl
          hspares hx hget')
      · rcases cancelled_of_advance hadvance (h.fits x) hget' with ⟨hnone, hnil, hcancelled⟩ |
          ⟨activation, hget, heq | ⟨hstage, hcancelled⟩⟩
        · -- It is entered under a number that was not given before.
          have hfresh := hentry hnone hnil
          refine ⟨fun hc => by simp [hcancelled] at hc, fun hm => ?_⟩
          have hlt := hmissed.given hm
          omega
        · exact heq.trans (hmissed.filed activation hget)
        · have hcancelled' := h.uncancelled hget hstage hcancelled (by simpa using hd) hget'
          rw [← hmissed.filed activation hget]
          simp [hcancelled, hcancelled']
  · rintro (hold | hd)
    · have hnumbers := hpassage.numbers
      have hlt := hmissed.given hold
      omega
    · obtain ⟨activation, -, hget, -⟩ := h.filed_of_misses hd
      have hlt := h.number_of_filed hget
      have hnumbers := hpassage.numbers
      omega

theorem Missed.run (h : m.Sound) {missed : Prop} (hmissed : m.Missed x missed) (ds : List Deed) :
    (m.run ds).Missed x (missed ∨ ¬Along (fun m d => m.misses d x = false) m ds) := by
  induction ds generalizing m missed with
  | nil => simpa [Along, run] using hmissed
  | cons d ds ih =>
    have hrest := ih (h.after d) (hmissed.after h d)
    rw [run_cons, Along]
    have hsame : (missed ∨ m.misses d x) ∨ ¬Along (fun m d => m.misses d x = false) (m.after d) ds ↔
        missed ∨ ¬(m.misses d x = false ∧
          Along (fun m d => m.misses d x = false) (m.after d) ds) := by
      cases m.misses d x <;> simp
    exact ⟨fun activation hget => (hrest.filed activation hget).trans hsame,
      fun hm => hrest.given (hsame.mpr hm)⟩

/-- At the start nothing was missed. -/
theorem missed_start (b : Board) (x : ActivationId) : (start b).Missed x False where
  filed activation hget := by simp [start, Engine.new, IdMap.get?_empty] at hget
  given h := h.elim

/-- What a player retracts after a run. -/
structure TakesBack (b : Board) (ds : List Deed) (a : AbilityId) (p : PlayerId) (x : ActivationId)
    (activation : Activation) : Prop where
  latest : ((start b).run ds).engine.latestRetractable? a = some x
  filed : ((start b).run ds).engine.activations.get? x = some activation
  own : activation.player = p
  /-- It has neither got further nor was it retracted before. -/
  paid : activation.stage = .costsPaid ∧ activation.deactivated = false
  /-- Its payments are taken back, and it is retracted. -/
  refunded : ∃ b', (Payment.unpayAll activation.receipts).ends ((start b).run ds).engine.board =
      (.ok (), b') ∧
    ((Engine.retract a p).ends ((start b).run ds).engine).2 =
      ((start b).run ds).engine.retracted a x activation b'
  /-- It is live if and only if it never missed a target. -/
  live : activation.isLive ↔ Along (fun m d => m.misses d x = false) (start b) ds

/-- Whatever is retracted is the latest of its ability and has its costs paid, but it may be over:
it is live if and only if it never missed a target. -/
theorem retracted_live_iff (b : Board) (ds : List Deed) (a : AbilityId) (p : PlayerId)
    (h : ((Engine.retract a p).ends ((start b).run ds).engine).1 = .ok true) :
    ∃ x activation, TakesBack b ds a p x activation := by
  have hsound := (sound_start b).run ds
  have hends := Engine.retract_ends ((start b).run ds).engine a p
  rcases hending : (Engine.retract a p).ends ((start b).run ds).engine with ⟨result, e'⟩
  rw [hending] at h hends
  cases hends with
  | refused => simp at h
  | failed => simp at h
  | @retracted x activation b' hlatest hget hcan hpay =>
    have hstage := Engine.stage_of_canRetract hcan
    have hplayer : activation.player = p := by
      simp only [Engine.canRetract, Bool.and_eq_true, decide_eq_true_eq] at hcan
      exact hcan.1.1
    have hfits := hsound.fits x
    rw [hget] at hfits
    have hdeactivated : activation.deactivated = false := by
      cases hd : activation.deactivated with
      | false => rfl
      | true =>
        have hgone := hfits.deactivated.mp hd
        rw [hstage] at hgone
        simp at hgone
    have hmissed := ((missed_start b x).run (sound_start b) ds).filed activation hget
    refine ⟨x, activation, hlatest, hget, hplayer, ⟨hstage, hdeactivated⟩,
      ⟨b', hpay, by rw [hending]⟩, ?_⟩
    -- It can only be over by having been cancelled.
    have hlive : activation.isLive ↔
        ¬(activation.cancelled ∧ activation.stage ≠ .legalityChecked) := by
      cases hc : activation.cancelled <;>
        simp [Activation.isLive, hc, hdeactivated, hstage, ActivationStage.isTerminal]
    rw [hlive, hmissed]
    simp

/-- The deed is given an action that is paid for by booting it and aimed at a card in play that is
not booted. Once it is paid for there is no such card. -/
def useWithoutTarget : List Deed :=
  [.call (.attach ⟨3⟩ {
      kind := .action
      costs := [.bootSelf]
      targets := [⟨"target", .cards .playArea fun _ _ card => !card.booted⟩]
      handler := some fun _ => .done }),
    .call (.order (.activate ⟨0⟩ ⟨0⟩)), .turn, .turn]

theorem retracted_live_iff_useWithoutTarget :
    ((Engine.retract ⟨0⟩ ⟨0⟩).ends ((start deedInPlay).run useWithoutTarget).engine).1 = .ok true ∧
      ∃ x activation, TakesBack deedInPlay useWithoutTarget ⟨0⟩ ⟨0⟩ x activation := by
  have htrue : ((Engine.retract ⟨0⟩ ⟨0⟩).ends
      ((start deedInPlay).run useWithoutTarget).engine).1 = .ok true := by decide +kernel
  exact ⟨htrue, retracted_live_iff deedInPlay useWithoutTarget ⟨0⟩ ⟨0⟩ htrue⟩

/-- What is retracted is not always live: here the action is over for want of a target, and its
player takes the payment back. -/
theorem not_live_useWithoutTarget :
    ¬∀ (b : Board) (ds : List Deed) (a : AbilityId) (p : PlayerId),
      ((Engine.retract a p).ends ((start b).run ds).engine).1 = .ok true →
        ∃ x activation, ((start b).run ds).engine.latestRetractable? a = some x ∧
          ((start b).run ds).engine.activations.get? x = some activation ∧
          activation.isLive := by
  intro h
  have hover : (((start deedInPlay).run useWithoutTarget).engine.latestRetractable? ⟨0⟩ |>.bind
      ((start deedInPlay).run useWithoutTarget).engine.activations.get? |>.map (·.isLive)) =
      some false := by decide +kernel
  obtain ⟨x, activation, hlatest, hget, hlive⟩ :=
    h deedInPlay useWithoutTarget ⟨0⟩ ⟨0⟩ (by decide +kernel)
  rw [hlatest, Option.bind_some, hget, Option.map_some, hlive] at hover
  simp at hover

end Moment

end Doomtown
