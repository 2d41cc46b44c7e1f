import Doomtown.Proofs.Requests
import Doomtown.Proofs.LifeCycle
import Doomtown.Proofs.Rollback

/-!
# Retracting undoes activating

A player starts an action, its costs are paid and it waits for a target. If only boots were paid, to
retract it now gives back the engine as it was before, but for the numbers that were given and for
the record of the retracted activation (`Moment.takeBack_undoes_playAction`): the board, the
counters and subscriptions, what else can be retracted, and the waiting steps in their order.
-/

namespace Doomtown

open Play

/-! ## Payments -/

namespace CostReceipt

/-- A payment that can be taken back is taken back. -/
theorem unpay_ends {b : Board} {r : CostReceipt} (h : r.canUnpay b) :
    r.unpay.ends b = r.revert.ends b := by
  unfold unpay
  rw [ends_bind_ok (ends_look b)]
  simp [h]

end CostReceipt

namespace Payment

variable {title : String} {x : Activation} {b b' target : Board} {paid receipts : List CostReceipt}

/-- Payments, the latest first, can all be taken back, which leads from one board to another. -/
structure Refunds (paid : List CostReceipt) (b target : Board) : Prop where
  can : ∀ r ∈ paid, r.canUnpay b
  back : (unpayEach paid).ends b = (.ok (), target)

/-- A card that is booted can be unbooted before all that was paid earlier is taken back. -/
theorem Refunds.boot (h : Refunds paid b target) {c : CardId} {card : Card}
    (hcard : b.card? c = some card) (hboot : card.booted = false) :
    Refunds (.booted c :: paid)
      { b with cards := b.cards.modify c ({ · with booted := true }) } target := by
  let booted : Board := { b with cards := b.cards.modify c ({ · with booted := true }) }
  have hget : b.cards.get? c = some card := hcard
  have hself : (CostReceipt.booted c).canUnpay booted := by
    simp [CostReceipt.canUnpay, Board.cardIs, Board.card?, booted, IdMap.get?_modify, hget]
  refine ⟨fun r hr => ?_, ?_⟩
  · rcases List.mem_cons.mp hr with rfl | hr
    · exact hself
    · -- What was booted before is booted still.
      have hcan := h.can r hr
      cases r with
      | booted c' =>
        simp only [CostReceipt.canUnpay, Board.cardIs, Board.card?, IdMap.get?_modify] at hcan ⊢
        split
        · simp_all
        · exact hcan
      | _ => simp [CostReceipt.canUnpay] at hcan
  · have hunboot : (CostReceipt.booted c).unpay.ends booted = (.ok (), b) := by
      rw [CostReceipt.unpay_ends hself]
      exact (CostReceipt.unboot_ends hget hboot).1
    rw [unpayEach, ends_bind_ok hunboot, h.back]

/-- A cost that cannot be paid ends the payment with an error. -/
theorem payFrom_error {e : RulesError} {cost : Cost} (h : (cost.pay x).ends b = (.error e, b'))
    (rest : List Cost) : ((payFrom title x paid (cost :: rest)).ends b).1 ≠ .ok receipts := by
  rw [payFrom, ends_bind, ends_attempt, h]
  dsimp only
  rw [ends_bind]
  rcases (revertAll paid).ends b' with ⟨_ | _, _⟩ <;> simp

/-- What has been paid is among the receipts in the end. -/
theorem mem_of_payFrom :
    ∀ (costs : List Cost) (b : Board) (paid : List CostReceipt),
      (payFrom title x paid costs).ends b = (.ok receipts, b') → ∀ r ∈ paid, r ∈ receipts
  | [], b, paid, h, r, hr => by
    obtain ⟨hreceipts, -⟩ := Prod.mk.inj (h : (Except.ok paid.reverse, b) = (.ok receipts, b'))
    rw [← Except.ok.inj hreceipts]
    exact List.mem_reverse.mpr hr
  | cost :: rest, b, paid, h, r, hr => by
    rcases cost.pay_ends x b with ⟨r', b₁, hpay, -⟩ | ⟨e, hpay⟩
    · rw [payFrom_cons_ok hpay] at h
      exact mem_of_payFrom rest b₁ (r' :: paid) h r (List.mem_cons_of_mem _ hr)
    · exact absurd (congrArg Prod.fst h) (payFrom_error hpay rest)

/-- As long as only boots are paid, all can be taken back. -/
theorem refunds_of_payFrom (hboots : ∀ r ∈ receipts, r.isReversible) :
    ∀ (costs : List Cost) (b : Board) (paid : List CostReceipt), Refunds paid b target →
      (payFrom title x paid costs).ends b = (.ok receipts, b') → Refunds receipts.reverse b' target
  | [], b, paid, hrefunds, h => by
    obtain ⟨hreceipts, rfl⟩ := Prod.mk.inj (h : (Except.ok paid.reverse, b) = (.ok receipts, b'))
    obtain rfl := Except.ok.inj hreceipts
    rwa [List.reverse_reverse]
  | cost :: rest, b, paid, hrefunds, h => by
    rcases cost.pay_ends x b with ⟨r, b₁, hpay, hpays⟩ | ⟨e, hpay⟩
    · rw [payFrom_cons_ok hpay] at h
      have hreversible := hboots r (mem_of_payFrom rest b₁ (r :: paid) h r List.mem_cons_self)
      cases hpays with
      | boot _ hcard hboot _ =>
        exact refunds_of_payFrom hboots rest _ _ (hrefunds.boot hcard hboot) h
      | spend => simp [CostReceipt.isReversible] at hreversible
      | move => simp [CostReceipt.isReversible] at hreversible
    · exact absurd (congrArg Prod.fst h) (payFrom_error hpay rest)

/-- If only boots were paid, to take the payments back gives the board back. -/
theorem unpayAll_payAll {costs : List Cost}
    (h : (payAll title x costs).ends b = (.ok receipts, b'))
    (hboots : ∀ r ∈ receipts, r.isReversible) :
    canUnpayAll b' receipts ∧ (unpayAll receipts).ends b' = (.ok (), b) := by
  unfold payAll at h
  rw [ends_bind_ok (ends_look b)] at h
  by_cases hcan : canPayAll b x costs
  · simp only [hcan, Bool.not_true, Bool.false_eq_true, if_false] at h
    have hnothing : Refunds [] b b := ⟨by simp, rfl⟩
    have hrefunds := refunds_of_payFrom hboots costs b [] hnothing h
    refine ⟨List.all_eq_true.mpr fun r hr => ?_, hrefunds.back⟩
    exact hrefunds.can r (List.mem_reverse.mpr hr)
  · simp only [hcan, Bool.not_false, if_true] at h
    rw [ends_bind_error (ends_fail _ b)] at h
    simp at h

end Payment

/-! ## What goes only forward -/

/-- Whatever happens to an activation, it does not go back, and what was paid stays noted. -/
theorem Advance.forward {admits : AbilityId → Prop} {a a' : Activation} {ps ps' : List Part}
    {o : Option Occurrence} (h : Advance admits (some a) ps o (some a') ps') :
    a.stage.rank ≤ a'.stage.rank ∧ (2 ≤ a.stage.rank → a'.receipts = a.receipts) := by
  generalize hbefore : some a = before at h
  generalize hafter : some a' = after at h
  cases h with
  | start | offer => simp at hbefore
  | decline => simp at hafter
  | answer b =>
    subst hbefore
    obtain rfl := Option.some.inj hafter
    exact ⟨Nat.le_refl _, fun _ => rfl⟩
  | skip =>
    obtain rfl := Option.some.inj (hbefore.trans hafter.symm)
    exact ⟨Nat.le_refl _, fun _ => rfl⟩
  | complete hstage =>
    obtain rfl := Option.some.inj hbefore
    obtain rfl := Option.some.inj hafter
    refine ⟨?_, fun _ => rfl⟩
    rcases hstage with hstage | hstage <;> simp [hstage, ActivationStage.rank]
  | accept hstage | refuse hstage | pay hstage | miss hstage | ask hstage | resolve hstage
  | retract hstage | execute hstage | conclude hstage | announce hstage =>
    obtain rfl := Option.some.inj hbefore
    obtain rfl := Option.some.inj hafter
    simp [hstage, ActivationStage.rank]

namespace Moment

variable {m : Moment} {x : ActivationId}

/-- What each step of an activation keeps of its record, a run keeps. -/
theorem Sound.filed_run {P : Activation → Prop}
    (hkeeps : ∀ {admits a a' ps ps' o}, Advance admits (some a) ps o (some a') ps' → P a → P a')
    (h : m.Sound) (hnumber : x.number < m.engine.nextActivation)
    (hfiled : ∀ activation, m.engine.activations.get? x = some activation → P activation)
    (ds : List Deed) :
    ∀ activation, (m.run ds).engine.activations.get? x = some activation → P activation := by
  induction ds generalizing m with
  | nil => exact hfiled
  | cons d ds ih =>
    have hpassage := passage h d
    refine ih (h.after d) (Nat.lt_of_lt_of_le hnumber hpassage.numbers) fun activation' hget' => ?_
    rcases hpassage.spared_or_taken x with ⟨usage, mine, hspares, hx, -, -⟩ |
      ⟨o, hadvance, hentry, -, -⟩
    · exact hfiled activation'
        (get?_spared (e := { m.engine with usage := usage }) rfl hspares hx hget')
    · rw [hget'] at hadvance
      cases hget : m.engine.activations.get? x with
      | some activation =>
        rw [hget] at hadvance
        exact hkeeps hadvance (hfiled activation hget)
      | none =>
        -- Its number was given before, so it is not entered anew.
        rw [hget] at hadvance
        have hge := hentry hget hadvance.entered
        omega

end Moment

/-! ## Turns of the queue -/

namespace Engine

variable {e e' e₁ : Engine} {fuel : Nat}

/-- To play and run the queue to its end is to do the one and then the other. -/
theorem settleIf_eq_true_iff {p : Play Engine Bool} :
    (settleIf fuel p).ends e = (.ok (some true), e') ↔
      ∃ e₁ status, p.ends e = (.ok true, e₁) ∧ (settle fuel).ends e₁ = (.ok (some status), e') := by
  unfold settleIf
  rw [ends_bind]
  rcases p.ends e with ⟨_ | _ | _, e₁⟩
  · simp
  · simp
  · show ((do let status ← settle fuel; pure (status.map fun _ => true) :
      Play Engine (Option Bool)).ends e₁) = _ ↔ _
    rw [ends_bind]
    rcases hsettle : (settle fuel).ends e₁ with ⟨_ | _ | status, e₂⟩
    · simp [hsettle]
    · simp [hsettle]
    · constructor
      · intro h
        obtain ⟨-, rfl⟩ := Prod.mk.inj h
        exact ⟨e₁, status, rfl, hsettle⟩
      · rintro ⟨e₁', status', h, hsettle'⟩
        obtain ⟨-, rfl⟩ := Prod.mk.inj h
        rw [hsettle] at hsettle'
        obtain ⟨-, rfl⟩ := Prod.mk.inj hsettle'
        rfl

/-! ## Activating -/

/-- An action was started, and the payment of its costs goes first. -/
def entered (e : Engine) (a : AbilityId) (activation : Activation) : Engine :=
  { e with
    nextActivation := e.nextActivation + 1
    activations := e.activations.insert ⟨e.nextActivation⟩ activation
    retractable := e.retractable ++ [(a, ⟨e.nextActivation⟩)]
    queue := e.queue.pushNext (.resolve ⟨e.nextActivation⟩ .payCosts) }

/-- An action that is started is entered for its player. -/
theorem activate_ends {a : AbilityId} {p : PlayerId} (h : (activate a p).ends e = (.ok true, e₁)) :
    ∃ ability activation, e.ability? a = some ability ∧ activation.ability = a ∧
      activation.player = p ∧ activation.isLive ∧ e₁ = e.entered a activation := by
  unfold activate at h
  cases hability : e.ability? a with
  | none =>
    rw [ends_bind_error (getAbility_missing hability)] at h
    simp at h
  | some ability =>
    rw [ends_bind_ok (getAbility_ends hability)] at h
    by_cases haction : ability.isAction
    · simp only [haction, Bool.not_true, Bool.false_eq_true, if_false] at h
      have htake : (takeActivationId).ends e =
          (.ok ⟨e.nextActivation⟩, { e with nextActivation := e.nextActivation + 1 }) := rfl
      rw [ends_bind_ok htake, ends_bind_ok (ends_look _)] at h
      dsimp only at h
      split at h
      · rw [ends_bind_ok (ends_trace _ _)] at h
        simp at h
      · exact ⟨ability, { Activation.new a ability.source p none with stage := .legalityChecked },
          rfl, rfl, rfl, isLive_new a ability.source p none rfl, (Prod.mk.inj h).2.symm⟩
    · simp only [haction, Bool.not_false, if_true] at h
      rw [ends_bind_ok (ends_trace _ _)] at h
      simp at h

/-- What can be retracted is retracted. -/
theorem retract_of_can {a : AbilityId} {p : PlayerId} {x : ActivationId} {activation : Activation}
    {b : Board} (hlatest : e.latestRetractable? a = some x)
    (hget : e.activations.get? x = some activation) (hcan : canRetract e.board p activation)
    (hpay : (Payment.unpayAll activation.receipts).ends e.board = (.ok (), b)) :
    (retract a p).ends e = (.ok true, e.retracted a x activation b) := by
  have hboard : (onBoard (Payment.unpayAll activation.receipts)).ends e =
      (.ok (), { e with board := b }) := by
    rw [onBoard, ends_within, hpay]
  unfold retract
  rw [ends_bind_ok (ends_look e)]
  simp only [hlatest, hget, hcan, if_true]
  unfold retractActivation retracted
  rw [bind_assoc, ends_bind_ok hboard]
  cases activation.prompt <;> rfl

/-- The latest entry of an ability is the one that was added last. -/
theorem latestRetractable?_append {a : AbilityId} {x : ActivationId}
    {l : List (AbilityId × ActivationId)} (h : e.retractable = l ++ [(a, x)]) :
    e.latestRetractable? a = some x := by
  unfold latestRetractable?
  rw [h, List.filter_append]
  simp

theorem dropLatest_append (a : AbilityId) (x : ActivationId)
    (l : List (AbilityId × ActivationId)) : dropLatest a (l ++ [(a, x)]) = l := by
  unfold dropLatest
  simp

/-! ## An action under way -/

/-- An action was entered and waits, in front of all else, with the step that was queued `n` steps
after it was entered. -/
def underWay (e : Engine) (a : AbilityId) (b : Board) (activation : Activation) (n : Nat)
    (kind : StepKind) : Engine :=
  { e with
    board := b
    nextActivation := e.nextActivation + 1
    activations := e.activations.insert ⟨e.nextActivation⟩ activation
    retractable := e.retractable ++ [(a, ⟨e.nextActivation⟩)]
    queue := ⟨⟨⟨e.queue.nextId + n⟩, kind⟩ :: e.queue.steps, none, e.queue.nextId + n + 1⟩ }

/-- The step with which it waits has started. -/
def started (e : Engine) (rest : List Step) : Engine := { e with queue := e.queue.started rest }

theorem entered_eq (hidle : e.queue.running = none) (a : AbilityId) (activation : Activation) :
    e.entered a activation =
      e.underWay a e.board activation 0 (.resolve ⟨e.nextActivation⟩ .payCosts) := by
  simp [entered, underWay, StepQueue.pushNext, StepQueue.nextStep, hidle]

section UnderWay

variable {a : AbilityId} {ability : Ability} {b b' : Board} {activation : Activation} {n : Nat}
  {kind : StepKind}

theorem get?_underWay (e : Engine) (a : AbilityId) (b : Board) (activation : Activation) (n : Nat)
    (kind : StepKind) (rest : List Step) :
    ((e.underWay a b activation n kind).started rest).activations.get? ⟨e.nextActivation⟩ =
      some activation := by
  show (e.activations.insert _ _).get? _ = _
  rw [IdMap.get?_insert, if_pos rfl]

/-- Its costs are paid, with boots only: the choice of targets is next. -/
theorem payCosts_underWay (e : Engine) (a : AbilityId) (n : Nat) (kind : StepKind)
    {receipts : List CostReceipt}
    (hpay : (Payment.payAll ability.title activation ability.costs).ends b = (.ok receipts, b'))
    (hboots : ∀ r ∈ receipts, r.isReversible) :
    ∃ e₁, (payCosts ability ⟨e.nextActivation⟩ activation).ends
        ((e.underWay a b activation n kind).started e.queue.steps) = (.ok (), e₁) ∧
      e₁.finished = e.underWay a b' { activation with receipts := receipts, stage := .costsPaid }
        (n + 1) (.resolve ⟨e.nextActivation⟩ .chooseTargets) := by
  have hmoves : receipts.filterMap movedBy? = [] := by
    refine List.filterMap_eq_nil_iff.mpr fun r hr => ?_
    have hboot := hboots r hr
    cases r with
    | booted => rfl
    | _ => simp [CostReceipt.isReversible] at hboot
  have hpost : ∀ e₀ : Engine,
      (do afterMoves []; discard (post (.resolve ⟨e.nextActivation⟩ .chooseTargets)) :
        Play Engine Unit).ends e₀ =
      (.ok (), { e₀ with queue := e₀.queue.push (.resolve ⟨e.nextActivation⟩ .chooseTargets) }) :=
    fun _ => rfl
  rw [payCosts_paid (e := (e.underWay a b activation n kind).started e.queue.steps) hpay, hmoves,
    hpost]
  refine ⟨_, rfl, ?_⟩
  simp [finished, started, underWay, StepQueue.started, StepQueue.push, StepQueue.finish,
    StepQueue.children, StepQueue.nextStep, IdMap.modify_insert, Nat.add_assoc]

/-- Its costs cannot be paid: nothing of it waits. -/
theorem payCosts_underWay_refused (e : Engine) (a : AbilityId) (n : Nat) (kind : StepKind)
    {err : RulesError}
    (hpay : (Payment.payAll ability.title activation ability.costs).ends b = (.error err, b')) :
    ((payCosts ability ⟨e.nextActivation⟩ activation).ends
      ((e.underWay a b activation n kind).started e.queue.steps)).2.finished.queue.steps =
        e.queue.steps := by
  rw [payCosts_refused (e := (e.underWay a b activation n kind).started e.queue.steps) hpay]
  rfl

/-- It is asked for a target of a slot. -/
theorem asked_underWay (e : Engine) (a : AbilityId) (b : Board) (activation : Activation) (n : Nat)
    (kind : StepKind) (chosen : List (String × ChosenTarget)) (prompt : Prompt) :
    let e₁ := (e.underWay a b activation n kind).started e.queue.steps
    ({ e₁.noted ⟨e.nextActivation⟩ chosen with
      queue := e₁.queue.push (.prompt prompt)
      activations := (e₁.noted ⟨e.nextActivation⟩ chosen).activations.modify ⟨e.nextActivation⟩
        ({ · with prompt := some e₁.queue.nextStep }) } : Engine).finished =
      e.underWay a b { activation with
        targets := activation.targets ++ chosen
        prompt := some ⟨e.queue.nextId + (n + 1)⟩ } (n + 1) (.prompt prompt) := by
  simp [finished, started, underWay, noted, StepQueue.started, StepQueue.push, StepQueue.finish,
    StepQueue.children, StepQueue.nextStep, IdMap.modify_insert, Nat.add_assoc]

/-- The engine with numbers given to one activation more, which was retracted, and to its steps. -/
def withRetracted (e : Engine) (activation : Activation) : Engine :=
  { e with
    nextActivation := e.nextActivation + 1
    activations := e.activations.insert ⟨e.nextActivation⟩ activation
    queue := { e.queue with nextId := e.queue.nextId + 3 } }

/-- It is retracted while it is asked for a target: its step goes, and what else waits stays. -/
theorem retracted_underWay (hidle : e.queue.running = none)
    (hprompt : activation.prompt = some ⟨e.queue.nextId + 2⟩) :
    (e.underWay a b activation 2 kind).retracted a ⟨e.nextActivation⟩ activation e.board =
      e.withRetracted { activation with
        stage := .deactivated, deactivated := true, prompt := none } := by
  simp [retracted, underWay, withRetracted, withdrawPrompt, StepQueue.withdraw, hidle, hprompt,
    IdMap.modify_insert, dropLatest_append]

end UnderWay

/-! ## Running on -/

/-- A run of the queue that stops has started the step at its front, and gone on from there. -/
theorem settle_step {s : Step} {rest : List Step} {status : QueueStatus}
    (hidle : e.queue.running = none) (hfront : e.queue.steps = s :: rest)
    (hkind : ∀ p, s.kind ≠ .prompt p) (h : (settle fuel).ends e = (.ok (some status), e')) :
    ∃ fuel' e₁, (runStep s).ends (e.started rest) = (.ok (), e₁) ∧
      (settle fuel').ends e₁.finished = (.ok (some status), e') ∧
      e.Leads e₁.finished ∧ e₁.finished.Leads e' := by
  cases fuel with
  | zero =>
    rw [settle_zero] at h
    simp at h
  | succ fuel =>
    have hone := settle_runs hidle hfront hkind 0
    rw [settle_runs hidle hfront hkind] at h
    have hstarted : ({ e with queue := e.queue.started rest } : Engine) = e.started rest := rfl
    rw [hstarted] at h hone
    rcases hend : (runStep s).ends (e.started rest) with ⟨err | _, e₁⟩
    · rw [hend] at h
      simp at h
    · rw [hend] at h hone
      dsimp only at h hone
      have hfirst := leads_of_chain (settle_leads 1 e)
      rw [hone] at hfirst
      have hlater := leads_of_chain (settle_leads fuel e₁.finished)
      rw [h] at hlater
      exact ⟨fuel, e₁, rfl, h, hfirst, hlater⟩

end Engine

/-! ## Activating and retracting -/

/-- A prompt in which an activation chooses is one for its target. -/
theorem StepKind.answer_of_choose {prompt : Prompt} {x : ActivationId}
    (h : (StepKind.prompt prompt).part? = some (x, .choose)) :
    ∃ slot choices, prompt.answer = .target x slot choices := by
  obtain ⟨view, player, answer⟩ := prompt
  cases answer with
  | target y slot choices =>
    obtain rfl : y = x := by simpa [part?] using h
    exact ⟨slot, choices, rfl⟩
  | offer y alternatives => simp [part?] at h
  | script answers => simp [part?] at h

/-- The activation that is entered next after `e` waits, in `e'`, for a target: the prompt at the
front asks for it, and only boots were paid. -/
structure Engine.AwaitsTarget (e e' : Engine) : Prop where
  asked : ∃ prompt slot choices, e'.queue.frontPrompt? = some prompt ∧
    prompt.answer = .target ⟨e.nextActivation⟩ slot choices
  paid : ∃ activation, e'.activations.get? ⟨e.nextActivation⟩ = some activation ∧
    ∀ r ∈ activation.receipts, r.isReversible

/-- A moment at which no script runs, from which a run of the queue leads to where it stops. -/
structure Engine.SettlesTo (e e' : Engine) : Prop where
  sound : Moment.Sound ⟨e, none⟩
  settles : ∃ fuel status, (Engine.settle fuel).ends e = (.ok (some status), e')

namespace Moment

section AwaitsTarget

variable {e e' e₁ : Engine} {a : AbilityId} {activation activation' : Activation}

theorem Sound.leads (h : Sound ⟨e, none⟩) (hleads : e.Leads e') : Sound ⟨e', none⟩ := by
  obtain ⟨ds, hds⟩ := hleads
  have hrun := h.run ds
  rwa [hds] at hrun

/-- What a run leads to keeps of a record what each step of an activation keeps. -/
theorem Sound.filed_leads {P : Activation → Prop}
    (hkeeps : ∀ {admits a a' ps ps' o}, Advance admits (some a) ps o (some a') ps' → P a → P a')
    (h : Sound ⟨e, none⟩) (hleads : e.Leads e') {x : ActivationId}
    (hget : e.activations.get? x = some activation) (hfiled : P activation)
    (hget' : e'.activations.get? x = some activation') : P activation' := by
  have hnumber : x.number < e.nextActivation := by
    by_contra hge
    have hnone := (h.fresh x (Nat.le_of_not_lt hge)).1
    rw [hget] at hnone
    simp at hnone
  have hfiled' : ∀ activation, e.activations.get? x = some activation → P activation := by
    intro activation'' hget''
    rwa [← Option.some.inj (hget.symm.trans hget'')]
  obtain ⟨ds, hds⟩ := hleads
  have hrun := h.filed_run (x := x) hkeeps hnumber hfiled' ds activation'
  rw [hds] at hrun
  exact hrun hget'

/-- Where a prompt for a target stands at the front, a choice of the activation waits. -/
theorem choose_mem_partsOf {prompt : Prompt} {x : ActivationId} {slot : String}
    {choices : List ChosenTarget} (hprompt : e.queue.frontPrompt? = some prompt)
    (hanswer : prompt.answer = .target x slot choices) : .choose ∈ e.queue.partsOf x := by
  obtain ⟨view, player, answer⟩ := prompt
  obtain rfl : answer = .target x slot choices := hanswer
  unfold StepQueue.frontPrompt? at hprompt
  split at hprompt
  · rename_i i p rest hsteps
    obtain rfl := Option.some.inj hprompt
    refine StepQueue.mem_partsOf_iff.mpr ⟨⟨i, .prompt ⟨view, player, .target x slot choices⟩⟩, ?_,
      rfl⟩
    rw [StepQueue.order, hsteps]
    exact List.mem_append_right _ List.mem_cons_self
  · simp at hprompt

/-- Before it is entered, no prompt asks for a target of an activation. -/
theorem Sound.steps_ne (h : Sound ⟨e, none⟩) (hawaits : e.AwaitsTarget e') :
    e'.queue.steps ≠ e.queue.steps := by
  intro hsteps
  obtain ⟨prompt, slot, choices, hprompt, hanswer⟩ := hawaits.asked
  have hprompt' : e.queue.frontPrompt? = some prompt := by
    rw [← hprompt, StepQueue.frontPrompt?, StepQueue.frontPrompt?, hsteps]
  have hmem := choose_mem_partsOf hprompt' hanswer
  rw [(h.fresh_queue ⟨e.nextActivation⟩ (Nat.le_refl _)).2] at hmem
  simp at hmem

/-- With all its targets chosen, no prompt asks for a target of an activation. -/
theorem Sound.not_resolved (h : Sound ⟨e', none⟩) (hawaits : e.AwaitsTarget e')
    (hget : e'.activations.get? ⟨e.nextActivation⟩ = some activation) :
    activation.stage.rank < 4 := by
  obtain ⟨prompt, slot, choices, hprompt, hanswer⟩ := hawaits.asked
  have hmem := choose_mem_partsOf hprompt hanswer
  have hfits : Fits (e'.activations.get? ⟨e.nextActivation⟩)
      (e'.queue.partsOf ⟨e.nextActivation⟩) := h.fits ⟨e.nextActivation⟩
  rw [hget] at hfits
  rcases hfits.ahead with hsub | ⟨-, hparts⟩
  · have hahead := hsub.subset hmem
    cases hstage : activation.stage <;> simp [hstage, ActivationStage.ahead] at hahead ⊢ <;> decide
  · simp [hparts] at hmem

/-- Where the steps are those that waited before, the queue stops without asking for a target. -/
theorem Sound.not_stops (h : Sound ⟨e, none⟩) (hrests : e.queue.Rests) (hawaits : e.AwaitsTarget e')
    {fuel : Nat} {status : QueueStatus}
    (hsettle : (Engine.settle fuel).ends e₁ = (.ok (some status), e'))
    (hidle : e₁.queue.running = none) : e₁.queue.steps ≠ e.queue.steps := by
  intro hsteps
  have hrests' : e₁.queue.Rests := by
    unfold StepQueue.Rests StepQueue.frontPrompt? at hrests ⊢
    rwa [hsteps]
  obtain rfl := Engine.settle_stops hidle hrests' hsettle
  exact h.steps_ne hawaits hsteps

/-- What the payment of an action was stays noted. -/
theorem receipts_of_paid (hsound : Sound ⟨e₁, none⟩) (hleads : e₁.Leads e') {x : ActivationId}
    (hget : e₁.activations.get? x = some activation) (hpaid : 2 ≤ activation.stage.rank)
    (hget' : e'.activations.get? x = some activation') :
    activation'.receipts = activation.receipts := by
  have hkept := hsound.filed_leads
    (P := fun y => 2 ≤ y.stage.rank ∧ y.receipts = activation.receipts)
    (fun hadvance hold => ?_) hleads hget ⟨hpaid, rfl⟩ hget'
  · exact hkept.2
  · obtain ⟨hrank, hsame⟩ := hadvance.forward
    exact ⟨Nat.le_trans hold.1 hrank, (hsame hold.1).trans hold.2⟩

/-- The costs of the action are paid, with boots only. -/
theorem pays_boots (h : Sound ⟨e, none⟩) (hidle : e.queue.running = none)
    (hrests : e.queue.Rests) (hawaits : e.AwaitsTarget e') {ability : Ability}
    (hability : e.ability? activation.ability = some ability) (hlive : activation.isLive)
    (hsettles : (e.underWay a e.board activation 0
      (.resolve ⟨e.nextActivation⟩ .payCosts)).SettlesTo e') :
    ∃ receipts b,
      (Payment.payAll ability.title activation ability.costs).ends e.board = (.ok receipts, b) ∧
      (∀ r ∈ receipts, r.isReversible) ∧
      (e.underWay a b { activation with receipts := receipts, stage := .costsPaid } 1
        (.resolve ⟨e.nextActivation⟩ .chooseTargets)).SettlesTo e' := by
  obtain ⟨fuel, status, hsettle⟩ := hsettles.settles
  obtain ⟨fuel', e₁, hrun, hsettle', hleads, hleads'⟩ :=
    Engine.settle_step rfl rfl (by simp) hsettle
  have hsound' := hsettles.sound.leads hleads
  have hget := Engine.get?_underWay e a e.board activation 0
    (.resolve ⟨e.nextActivation⟩ .payCosts) e.queue.steps
  have hend := (Engine.resolve_live .payCosts hget hlive hability).symm.trans
    ((Engine.runStep_kind _ _).symm.trans hrun)
  dsimp only at hend
  rcases hpay : (Payment.payAll ability.title activation ability.costs).ends e.board with
    ⟨err | receipts, b⟩
  · -- Nothing of the action waits, so the queue stands where it stood.
    have hsteps := Engine.payCosts_underWay_refused e a 0 (.resolve ⟨e.nextActivation⟩ .payCosts)
      hpay
    rw [hend] at hsteps
    exact absurd hsteps (h.not_stops hrests hawaits hsettle' rfl)
  · obtain ⟨activation', hget', hboots⟩ := hawaits.paid
    have hpaid : e₁.finished.activations.get? ⟨e.nextActivation⟩ =
        some { activation with receipts := receipts, stage := .costsPaid } := by
      have hnone : e.queue.partsOf ⟨e.nextActivation⟩ = [] :=
        (h.fresh_queue ⟨e.nextActivation⟩ (Nat.le_refl _)).2
      have hnone' : ((e.underWay a e.board activation 0
          (.resolve ⟨e.nextActivation⟩ .payCosts)).started e.queue.steps).queue.partsOf
            ⟨e.nextActivation⟩ = [] := by
        rw [← hnone]
        simp [Engine.started, StepQueue.started, StepQueue.partsOf, StepQueue.parts,
          StepQueue.order, StepQueue.children, hidle]
      have hfiled := Engine.payCosts_filed hget hnone' hpay
      rw [hend] at hfiled
      exact hfiled
    rw [receipts_of_paid hsound' hleads' hpaid (Nat.le_refl _) hget'] at hboots
    obtain ⟨e₂, hend', hfinished⟩ := Engine.payCosts_underWay e a 0
      (.resolve ⟨e.nextActivation⟩ .payCosts) hpay hboots
    rw [hend] at hend'
    obtain rfl : e₁ = e₂ := (Prod.mk.inj hend').2
    rw [hfinished] at hsound' hsettle'
    exact ⟨receipts, b, rfl, hboots, hsound', fuel', status, hsettle'⟩

/-- The action stops to ask for a target. -/
theorem asks_target (h : Sound ⟨e, none⟩) (hrests : e.queue.Rests) (hawaits : e.AwaitsTarget e')
    {ability : Ability} (hability : e.ability? activation.ability = some ability)
    (hlive : activation.isLive) {b : Board}
    (hsettles : (e.underWay a b activation 1
      (.resolve ⟨e.nextActivation⟩ .chooseTargets)).SettlesTo e') :
    ∃ chosen prompt, e' = e.underWay a b { activation with
      targets := activation.targets ++ chosen
      prompt := some ⟨e.queue.nextId + 2⟩ } 2 (.prompt prompt) := by
  obtain ⟨fuel, status, hsettle⟩ := hsettles.settles
  obtain ⟨fuel', e₁, hrun, hsettle', hleads, hleads'⟩ :=
    Engine.settle_step rfl rfl (by simp) hsettle
  have hsound' := hsettles.sound.leads hleads
  let started := (e.underWay a b activation 1
    (.resolve ⟨e.nextActivation⟩ .chooseTargets)).started e.queue.steps
  have hget : started.activations.get? ⟨e.nextActivation⟩ = some activation :=
    Engine.get?_underWay e a b activation 1 (.resolve ⟨e.nextActivation⟩ .chooseTargets)
      e.queue.steps
  have hend := (Engine.resolve_live .chooseTargets hget hlive hability).symm.trans
    ((Engine.runStep_kind _ _).symm.trans hrun)
  obtain ⟨e₂, hend', hfills⟩ :=
    Engine.fillSlots_ends started ability ⟨e.nextActivation⟩ activation ability.targets
  obtain rfl : e₁ = e₂ := (Prod.mk.inj (hend.symm.trans hend')).2
  cases hfills with
  | resolved chosen hopen =>
    -- With its targets chosen it would not ask for one.
    obtain ⟨activation', hget', -⟩ := hawaits.paid
    have hresolved := IdMap.get?_modify_self
      (IdMap.get?_modify_self hget (fun y => { y with targets := y.targets ++ chosen }))
      ({ · with stage := .targetsResolved })
    have hrank := hsound'.filed_leads (P := fun y => 4 ≤ y.stage.rank)
      (fun hadvance hold => Nat.le_trans hold hadvance.forward.1) hleads' hresolved (Nat.le_refl _)
      hget'
    have hlt := (hsound'.leads hleads').not_resolved hawaits hget'
    omega
  | missed chosen hopen hnone =>
    have hsteps := h.not_stops hrests hawaits hsettle' rfl
    exact absurd rfl hsteps
  | @asked chosen slot hopen hsome =>
    have hfinished := Engine.asked_underWay e a b activation 1
      (.resolve ⟨e.nextActivation⟩ .chooseTargets) chosen
      (Engine.targetPrompt ability started.board ⟨e.nextActivation⟩ activation slot.name
        (slot.choices started.board activation))
    rw [hfinished] at hsettle'
    exact ⟨chosen, _, Engine.settle_stops rfl (.inr rfl) hsettle'⟩

end AwaitsTarget

/-- Retracting undoes activating: if running the queue stops at the prompt for a target of the
action, and only boots were paid, then to retract the action gives back the engine as it was, but
for the numbers that were given and the record of the retracted activation. -/
theorem takeBack_undoes_playAction (b : Board) (ds : List Deed) {e e' : Engine}
    (hreached : ((start b).run ds).engine = e) (hidle : e.queue.running = none)
    (hrests : e.queue.Rests) (fuel : Nat) (a : AbilityId) (p : PlayerId)
    (hplay : (Engine.playAction fuel a p).ends e = (.ok (some true), e'))
    (hawaits : e.AwaitsTarget e') (turns : Nat) :
    ∃ activation : Activation, activation.ability = a ∧ activation.player = p ∧
      activation.stage = .deactivated ∧ activation.deactivated ∧
      (Engine.takeBack (turns + 1) a p).ends e' = (.ok (some true), e.withRetracted activation) := by
  have hrunning : ((start b).run ds).running = none := by
    have hready := ((ready_start b).run (sound_start b) ds).running
    rw [hreached, hidle] at hready
    simpa using hready.symm
  have hsound : Sound ⟨e, none⟩ := by
    have hrun := (sound_start b).run ds
    generalize (start b).run ds = m at hreached hrunning hrun
    obtain ⟨e₀, running⟩ := m
    obtain rfl : e₀ = e := hreached
    obtain rfl : running = none := hrunning
    exact hrun
  obtain ⟨e₁, status, hactivate, hsettle⟩ := Engine.settleIf_eq_true_iff.mp hplay
  have hleads := Engine.leads_of_chain (Engine.order_leads (.activate a p) e)
  have hcarried : (Order.activate a p).carryOut.ends e = (.ok true, e₁) := hactivate
  rw [hcarried] at hleads
  obtain ⟨ability, activation, hability, rfl, rfl, hlive, rfl⟩ := Engine.activate_ends hactivate
  rw [Engine.entered_eq hidle] at hleads hsettle
  -- The costs are paid, the choice of targets begins, and it stops to ask.
  obtain ⟨receipts, b', hpay, hboots, hsettles⟩ :=
    pays_boots hsound hidle hrests hawaits hability hlive ⟨hsound.leads hleads, fuel, status, hsettle⟩
  let paid : Activation := { activation with receipts := receipts, stage := .costsPaid }
  have hability' : e.ability? paid.ability = some ability := hability
  have hlive' : paid.isLive := by
    simp only [Activation.isLive, Bool.and_eq_true] at hlive ⊢
    exact ⟨hlive.1, rfl⟩
  obtain ⟨chosen, prompt, rfl⟩ := asks_target hsound hrests hawaits hability' hlive' hsettles
  obtain ⟨hcan, hback⟩ := Payment.unpayAll_payAll hpay hboots
  -- So it can be retracted, and the queue rests where it rested.
  let asking : Activation := { paid with
    targets := paid.targets ++ chosen
    prompt := some ⟨e.queue.nextId + 2⟩ }
  have hretract := Engine.retract_of_can (p := activation.player)
    (Engine.latestRetractable?_append (e := e.underWay activation.ability b' asking 2
      (.prompt prompt)) rfl)
    (Engine.get?_underWay e activation.ability b' asking 2 (.prompt prompt) e.queue.steps)
    (by
      simp only [Engine.canRetract, Bool.and_eq_true, decide_eq_true_eq]
      exact ⟨⟨rfl, rfl⟩, hcan⟩) hback
  rw [Engine.retracted_underWay hidle rfl] at hretract
  obtain ⟨status', hstops⟩ := Engine.settle_rests (e := e.withRetracted { asking with
    stage := .deactivated, deactivated := true, prompt := none }) hidle hrests turns
  exact ⟨{ asking with stage := .deactivated, deactivated := true, prompt := none }, rfl, rfl, rfl,
    rfl, Engine.settleIf_eq_true_iff.mpr ⟨_, status', hretract, hstops⟩⟩

/-- A player is asked something, while the deed has an action that is paid for by booting it and
aimed at a player. -/
def askedBesideAction : Engine :=
  ((start deedInPlay).run
    [.call (.attach ⟨3⟩ {
        kind := .action
        costs := [.bootSelf]
        targets := [⟨"target", .players fun _ _ _ => true⟩]
        handler := some fun _ => .done }),
      .call (.ask ⟨1⟩ "Ready?" ["Yes"] none fun _ => .done)]).engine

theorem takeBack_undoes_playAction_askedBesideAction :
    askedBesideAction.queue.running = none ∧ askedBesideAction.queue.Rests ∧
      ((Engine.playAction 9 ⟨0⟩ ⟨0⟩).ends askedBesideAction).1 = .ok (some true) ∧
      askedBesideAction.AwaitsTarget ((Engine.playAction 9 ⟨0⟩ ⟨0⟩).ends askedBesideAction).2 ∧
      ∃ activation : Activation, activation.ability = ⟨0⟩ ∧ activation.player = ⟨0⟩ ∧
        activation.stage = .deactivated ∧ activation.deactivated ∧
        (Engine.takeBack 1 ⟨0⟩ ⟨0⟩).ends ((Engine.playAction 9 ⟨0⟩ ⟨0⟩).ends askedBesideAction).2 =
          (.ok (some true), askedBesideAction.withRetracted activation) := by
  have hidle : askedBesideAction.queue.running = none := rfl
  have hrests : askedBesideAction.queue.Rests := by decide +kernel
  have htrue : ((Engine.playAction 9 ⟨0⟩ ⟨0⟩).ends askedBesideAction).1 = .ok (some true) := by
    decide +kernel
  let e' : Engine := ((Engine.playAction 9 ⟨0⟩ ⟨0⟩).ends askedBesideAction).2
  have hprompt : (e'.queue.frontPrompt?.any fun prompt => (StepKind.prompt prompt).part? =
      some (⟨askedBesideAction.nextActivation⟩, .choose)) = true := by decide +kernel
  have hpaid : ((e'.activations.get? ⟨askedBesideAction.nextActivation⟩).any fun activation =>
      activation.receipts.all (·.isReversible)) = true := by decide +kernel
  have hawaits : askedBesideAction.AwaitsTarget e' := by
    obtain ⟨prompt, hfront, hpart⟩ := (Option.any_eq_true _ _).mp hprompt
    obtain ⟨activation, hget, hboots⟩ := (Option.any_eq_true _ _).mp hpaid
    obtain ⟨slot, choices, hanswer⟩ :=
      StepKind.answer_of_choose (of_decide_eq_true hpart)
    exact ⟨⟨prompt, slot, choices, hfront, hanswer⟩, activation, hget, by simpa using hboots⟩
  exact ⟨hidle, hrests, htrue, hawaits,
    takeBack_undoes_playAction deedInPlay _ rfl hidle hrests 9 ⟨0⟩ ⟨0⟩ (Prod.ext htrue rfl) hawaits 0⟩

end Moment

end Doomtown
