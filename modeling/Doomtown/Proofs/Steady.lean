import Doomtown.Proofs.Course
import Mathlib.Data.List.Nodup

/-!
# Runs in which nothing fails

In a steady run no step fails and nobody withdraws steps by order. An activation that is filed then
has all of its parts still ahead, the record being cancelled otherwise (`OnTrack`). Whatever is done
to it leads to where it stands so again, unless its player retracts it: `Moment.Underway.after` goes
through its steps, from the payment to the end.
-/

namespace Doomtown

open Play

namespace Moment

/-! ## Steady deeds -/

/-- Whether a step fails by a deed, and with it what the deed does. -/
def fails (m : Moment) (d : Deed) : Bool :=
  match m.running, d with
  | none, .turn =>
    match m.engine.queue.begin? with
    | some (s, q) =>
      (m.engine.opening s.kind).isNone &&
        !((Engine.asStep q (Engine.runStep s)).ends m.engine).1.isOk
    | none => false
  | none, .answer p n =>
    match m.engine.queue.beginAnswer? with
    | some (_, ⟨view, player, reply⟩, q) =>
      match reply with
      | .script _ => false
      | other => decide (n < view.buttons.length ∧ player = p) &&
          !((Engine.asStep q (Engine.answerWith n other)).ends m.engine).1.isOk
    | none => false
  | some ⟨task, .done⟩, .go => !(task.close.ends m.engine).1.isOk
  | some ⟨_, .fail _⟩, .go => true
  | _, _ => false

/-- No step fails by a deed, and no step that waits is withdrawn by order. -/
def Steady (m : Moment) (d : Deed) : Prop :=
  m.fails d = false ∧ ∀ i ∈ m.withdraws d, m.engine.queue.contains i = false

instance (m : Moment) (d : Deed) : Decidable (m.Steady d) :=
  inferInstanceAs (Decidable (_ ∧ _))

/-- A steady deed withdraws no step of an activation. -/
theorem Steady.undisturbed {m : Moment} {d : Deed} (h : m.Steady d) : m.Undisturbed d := by
  intro i hi s hs hsi
  have hcontains := h.2 i hi
  simp only [StepQueue.contains, List.any_eq_false, decide_eq_true_eq] at hcontains
  exact absurd hsi (hcontains s hs)

/-- Some run leads to a moment. -/
def Reached (m : Moment) : Prop := ∃ b ds, m = (start b).run ds

variable {m : Moment} {d : Deed} {x : ActivationId}

namespace Reached

theorem sound (h : m.Reached) : m.Sound := by
  obtain ⟨b, ds, rfl⟩ := h
  exact (sound_start b).run ds

theorem ready (h : m.Reached) : m.Ready := by
  obtain ⟨b, ds, rfl⟩ := h
  exact (ready_start b).run (sound_start b) ds

theorem run (h : m.Reached) (ds : List Deed) : (m.run ds).Reached := by
  obtain ⟨b, past, rfl⟩ := h
  exact ⟨b, past ++ ds, (run_append _ past ds).symm⟩

theorem after (h : m.Reached) (d : Deed) : (m.after d).Reached := h.run [d]

theorem leads {e e' : Engine} (h : Reached ⟨e, none⟩) (hleads : e.Leads e') :
    Reached ⟨e', none⟩ := by
  obtain ⟨ds, hds⟩ := hleads
  exact hds ▸ h.run ds

/-- No two waiting steps have the same number. -/
theorem distinct (h : m.Reached) : m.engine.queue.order.Pairwise fun s t => s.id ≠ t.id := by
  obtain ⟨b, ds, rfl⟩ := h
  obtain ⟨acts, hacts⟩ := run_queue b ds
  rw [hacts]
  exact (StepQueue.Chronicle.sound_of acts).ordered.imp fun hprecedes => hprecedes.distinct

theorem eq_of_id (h : m.Reached) {s t : Step} (hs : s ∈ m.engine.queue.order)
    (ht : t ∈ m.engine.queue.order) (hid : s.id = t.id) : s = t :=
  List.inj_on_of_nodup_map (List.pairwise_map.mpr h.distinct) hs ht hid

/-- When a step starts, all that waits besides is what waited behind it. -/
theorem order_of_starts (h : m.Reached) {s : Step} {front back : List Step}
    (hstarts : m.starts? d = some s) (hsplit : m.engine.queue.steps = front ++ s :: back) :
    m.engine.queue.order = s :: back := by
  obtain ⟨q, -, htaken⟩ := frontTaken_of_starts hstarts
  have horder : m.engine.queue.order = (m.engine.queue.children ++ front) ++ s :: back := by
    unfold StepQueue.order
    rw [hsplit, List.append_assoc]
  cases hahead : m.engine.queue.children ++ front with
  | nil => rw [horder, hahead, List.nil_append]
  | cons s' ahead =>
    -- It was at the front, and it is nowhere else.
    have hdistinct := h.distinct
    rw [horder, hahead] at hdistinct
    rw [htaken.order, hahead] at horder
    obtain ⟨rfl, -⟩ := List.cons.inj horder
    exact absurd rfl ((List.pairwise_cons.mp hdistinct).1 s (by simp))

end Reached

/-- A play that does not fail answers. -/
theorem ends_of_isOk {σ : Type} {p : Play σ Unit} {s : σ} (h : (p.ends s).1.isOk) :
    p.ends s = (.ok (), (p.ends s).2) := by
  rcases hend : p.ends s with ⟨_ | _, s'⟩
  · simp [hend, Except.isOk, Except.toBool] at h
  · rfl

/-- A step that is done as a whole in a steady turn succeeds. -/
theorem Steady.whole (h : m.Steady .turn) {s : Step} (hstarts : m.starts? .turn = some s)
    (hopening : m.engine.opening s.kind = none) :
    ∃ q e₁, m.running = none ∧ m.engine.queue.FrontTaken s q ∧
      (Engine.runStep s).ends { m.engine with queue := q } = (.ok (), e₁) ∧
      m.after .turn = ⟨e₁.finished, none⟩ := by
  obtain ⟨q, hrunning, hbegin, hafter⟩ := begin?_of_starts hstarts
  have hfails := h.1
  unfold fails at hfails
  simp only [hrunning, hbegin, hopening, Option.isNone_none, Bool.true_and, Engine.asStep_ends,
    Bool.not_eq_false'] at hfails
  unfold turn at hafter
  simp only [hbegin, hopening, Engine.asStep_ends] at hafter
  exact ⟨q, _, hrunning, StepQueue.frontTaken_begin hbegin, ends_of_isOk hfails, hafter⟩

/-- An answer that runs no script succeeds if it is steady. -/
theorem Steady.answered {p : PlayerId} {n : Nat} (h : m.Steady (.answer p n)) {i : StepId}
    {prompt : Prompt} (hstarts : m.starts? (.answer p n) = some ⟨i, .prompt prompt⟩)
    (hreply : ∀ answers, prompt.answer ≠ .script answers) :
    ∃ q e₁, m.running = none ∧ m.engine.queue.FrontTaken ⟨i, .prompt prompt⟩ q ∧
      n < prompt.buttons.length ∧
      (Engine.answerWith n prompt.answer).ends { m.engine with queue := q } = (.ok (), e₁) ∧
      m.after (.answer p n) = ⟨e₁.finished, none⟩ := by
  obtain ⟨i', prompt', q, hrunning, hbegin, hstep, hbound, hafter⟩ := beginAnswer?_of_starts hstarts
  obtain ⟨rfl, hkind⟩ := Step.mk.inj hstep
  obtain rfl := StepKind.prompt.inj hkind
  have hvalid : n < prompt.buttons.length ∧ prompt.player = p := by
    unfold starts? at hstarts
    simp only [hrunning, hbegin] at hstarts
    by_contra hinvalid
    simp [hinvalid] at hstarts
  have htaken := StepQueue.frontTaken_beginAnswer hbegin
  have hfails := h.1
  unfold fails at hfails
  obtain ⟨view, player, reply⟩ := prompt
  dsimp only at hvalid
  cases reply with
  | script answers => exact absurd rfl (hreply answers)
  | _ =>
    simp only [hrunning, hbegin, hvalid, and_self, decide_true, Bool.true_and, Engine.asStep_ends,
      Bool.not_eq_false'] at hfails
    dsimp only at hafter
    rw [Engine.asStep_ends] at hafter
    exact ⟨q, _, hrunning, htaken, hbound, ends_of_isOk hfails, hafter⟩

end Moment

/-! ## Where activations stand -/

/-- All parts of an activation that are ahead wait, or its effect is running, or it was
cancelled. -/
structure Activation.OnTrack (activation : Activation) (parts : List Part) : Prop where
  kept : activation.deactivated = false
  parts : activation.cancelled ∨ parts = activation.stage.ahead ∨
    activation.stage = .targetsResolved ∧ parts = [.effect]

/-- For an activation that is not filed nothing waits. -/
def OnTrack : Option Activation → List Part → Prop
  | none, parts => parts = []
  | some activation, parts => activation.OnTrack parts

/-- An activation for which nothing is ahead was cancelled or is complete. -/
theorem OnTrack.over {activation : Activation} (h : OnTrack (some activation) []) :
    activation.cancelled ∨ activation.stage = .completed := by
  rcases h.parts with hcancelled | hahead | ⟨-, heffect⟩
  · exact .inl hcancelled
  · cases hstage : activation.stage with
    | completed => exact .inr rfl
    | _ => simp [hstage, ActivationStage.ahead] at hahead
  · simp at heffect

/-- An activation to which something occurs is on track if it still has something ahead, or has only
announced its resolution. -/
theorem Advance.onTrack {admits : AbilityId → Prop} {a a' : Option Activation}
    {ps ps' : List Part} {o : Occurrence} (h : Advance admits a ps (some o) a' ps')
    (hon : OnTrack a ps) (hps' : o = .announced ∨ ps' ≠ []) : OnTrack a' ps' := by
  cases h with
  | pay hstage receipts hps =>
    obtain rfl := (List.sublist_singleton.mp hps).resolve_left (hps'.resolve_left (by decide))
    exact ⟨hon.kept, .inr (.inl rfl)⟩
  | execute hstage => exact ⟨hon.kept, .inr (.inr ⟨hstage, rfl⟩)⟩
  | conclude hstage hps =>
    obtain rfl := hps.resolve_left (hps'.resolve_left (by decide))
    exact ⟨hon.kept, .inr (.inl rfl)⟩
  | announce hstage hps =>
    refine ⟨hon.kept, ?_⟩
    rcases hon.parts with hcancelled | hahead | ⟨-, heffect⟩
    · exact .inl hcancelled
    · rw [hstage] at hahead
      exact .inr (.inl (List.cons.inj hahead).2)
    · simp at heffect

/-- Of an activation that has started the record is kept. -/
theorem Advance.started {admits : AbilityId → Prop} {activation : Activation}
    {a' : Option Activation} {ps ps' : List Part} {o : Option Occurrence}
    (h : Advance admits (some activation) ps o a' ps') (hstage : activation.stage ≠ .idle) :
    ∃ activation', a' = some activation' ∧ activation'.stage ≠ .idle := by
  cases h with
  | decline hidle => exact absurd hidle hstage
  | accept hidle => exact absurd hidle hstage
  | skip => exact ⟨_, rfl, hstage⟩
  | refuse => exact ⟨_, rfl, hstage⟩
  | miss => exact ⟨_, rfl, hstage⟩
  | ask => exact ⟨_, rfl, hstage⟩
  | answer => exact ⟨_, rfl, hstage⟩
  | execute => exact ⟨_, rfl, hstage⟩
  | _ => exact ⟨_, rfl, by simp⟩

namespace Engine

variable {e e' : Engine} {x : ActivationId} {activation : Activation} {a : Ability}

/-- An activation stands so in the engine. -/
def OnTrack (e : Engine) (x : ActivationId) : Prop :=
  Doomtown.OnTrack (e.activations.get? x) (e.queue.partsOf x)

theorem onTrack_of_filed {parts : List Part} (hget : e.activations.get? x = some activation)
    (hparts : e.queue.partsOf x = parts) (h : activation.OnTrack parts) : e.OnTrack x := by
  unfold OnTrack
  rw [hget, hparts]
  exact h

/-- A part that is queued last waits. -/
theorem mem_partsOf_posted {kind : StepKind} {part : Part} (hkind : kind.part? = some (x, part))
    (h : (discard (post kind)).ends e = (.ok (), e')) : part ∈ e'.queue.partsOf x := by
  rw [ends_discard] at h
  obtain rfl : { e with queue := e.queue.push kind } = e' := congrArg Prod.snd h
  exact StepQueue.mem_partsOf_iff.mpr ⟨_, StepQueue.mem_order_push.mpr (.inr rfl), hkind⟩

/-- Where a conclusion does not fail, the end of the activation waits. -/
theorem mem_partsOf_conclude (hend : (conclude a x activation).ends e = (.ok (), e')) :
    Part.complete ∈ e'.queue.partsOf x := by
  unfold conclude at hend
  obtain ⟨_, _, -, hend⟩ := ok_of_bind hend
  obtain ⟨_, _, -, hend⟩ := ok_of_bind hend
  obtain ⟨_, _, -, hend⟩ := ok_of_bind hend
  obtain ⟨_, _, -, hend⟩ := ok_of_bind hend
  obtain ⟨_, _, -, hpost⟩ := ok_of_bind hend
  exact mem_partsOf_posted rfl hpost

/-- A stage in time that does not fail is what the ability makes of it. -/
theorem resolve_ok {stage : ResolutionStage} (hget : e.activations.get? x = some activation)
    (hlive : activation.isLive) (hend : (resolve x stage).ends e = (.ok (), e')) :
    ∃ a, e.ability? activation.ability = some a ∧ (match stage with
      | .payCosts => payCosts a x activation
      | .chooseTargets => fillSlots a x activation a.targets
      | .execute => execute a x activation).ends e = (.ok (), e') := by
  cases hability : e.ability? activation.ability with
  | none =>
    unfold resolve at hend
    rw [ends_bind_ok (ends_look e)] at hend
    simp only [hget, hlive, Bool.not_true, Bool.false_eq_true, if_false] at hend
    rw [ends_bind_error (getAbility_missing hability)] at hend
    simp at hend
  | some a => exact ⟨a, rfl, (resolve_live stage hget hlive hability).symm.trans hend⟩

/-- Costs that are paid lead to the choice of targets, and a failed payment without loss cancels. -/
theorem payCosts_onTrack (hget : e.activations.get? x = some activation)
    (hkept : activation.deactivated = false) (hnone : e.queue.partsOf x = [])
    (hend : (payCosts a x activation).ends e = (.ok (), e')) : e'.OnTrack x := by
  rcases hpay : (Payment.payAll a.title activation a.costs).ends e.board with ⟨err | receipts, b⟩
  · have hrefused := payCosts_refused (x := x) hpay
    rw [hend] at hrefused
    subst hrefused
    exact onTrack_of_filed (IdMap.get?_modify_self hget _) hnone ⟨hkept, .inl rfl⟩
  · rw [payCosts_paid hpay] at hend
    let f : Activation → Activation := ({ · with receipts := receipts, stage := .costsPaid })
    have hget₁ : ({ e with board := b, activations := e.activations.modify x f } :
        Engine).activations.get? x = some (f activation) := IdMap.get?_modify_self hget f
    obtain ⟨hget', hsub⟩ := spared_then_post (changes_afterMoves (receipts.filterMap movedBy?))
      (.resolve x .chooseTargets) rfl hget₁ rfl hnone
    rw [hend] at hget' hsub
    -- Nothing failed on the way, so the choice of targets was queued.
    obtain ⟨_, e₁, -, hpost⟩ := ok_of_bind hend
    have hmem : Part.choose ∈ e'.queue.partsOf x := mem_partsOf_posted rfl hpost
    have hparts : e'.queue.partsOf x = [.choose] :=
      (List.sublist_singleton.mp hsub).resolve_left (List.ne_nil_of_mem hmem)
    exact onTrack_of_filed hget' hparts ⟨hkept, .inr (.inl rfl)⟩

/-- Slots are filled, or a prompt waits, or there is no target and the activation is cancelled. -/
theorem Fills.onTrack {slots : List TargetSlot} (h : Fills e a x activation slots e')
    (hget : e.activations.get? x = some activation) (hkept : activation.deactivated = false)
    (hstage : activation.stage = .costsPaid) (hnone : e.queue.partsOf x = []) : e'.OnTrack x := by
  have hnoted : ∀ chosen, (e.noted x chosen).activations.get? x =
      some { activation with targets := activation.targets ++ chosen } := fun chosen =>
    IdMap.get?_modify_self hget _
  cases h with
  | resolved chosen _ =>
    exact onTrack_of_filed (IdMap.get?_modify_self (hnoted chosen) _)
      (StepQueue.partsOf_push rfl hnone) ⟨hkept, .inr (.inl rfl)⟩
  | missed chosen _ _ =>
    exact onTrack_of_filed (IdMap.get?_modify_self (hnoted chosen) _) hnone ⟨hkept, .inl rfl⟩
  | asked chosen _ _ =>
    refine onTrack_of_filed (IdMap.get?_modify_self (hnoted chosen) _)
      (StepQueue.partsOf_push rfl hnone) ⟨hkept, .inr (.inl ?_)⟩
    simp [hstage, ActivationStage.ahead]

/-- A target that is noted leads to the choice of the others. -/
theorem chooseTarget_onTrack (hget : e.activations.get? x = some activation)
    (hkept : activation.deactivated = false) (hstage : activation.stage = .costsPaid)
    (hnone : e.queue.partsOf x = []) {slot : String} {choices : List ChosenTarget} {n : Nat}
    (hn : n < choices.length) (hend : (chooseTarget x slot choices n).ends e = (.ok (), e')) :
    e'.OnTrack x := by
  unfold chooseTarget at hend
  rw [List.getElem?_eq_getElem hn] at hend
  obtain rfl := congrArg Prod.snd hend
  refine onTrack_of_filed (IdMap.get?_modify_self hget _) (StepQueue.partsOf_push rfl hnone)
    ⟨hkept, .inr (.inl ?_)⟩
  simp [Activation.choose, hstage, ActivationStage.ahead]

theorem dropActivation_onTrack (hnone : e.queue.partsOf x = []) :
    ((dropActivation x).ends e).2.OnTrack x := by
  show Doomtown.OnTrack ((e.activations.erase x).get? x) (e.queue.partsOf x)
  rw [IdMap.get?_erase, if_pos rfl]
  exact hnone

/-- What is accepted starts or is forgotten. -/
theorem accept_onTrack (hget : e.activations.get? x = some activation)
    (hkept : activation.deactivated = false) (hnone : e.queue.partsOf x = [])
    {choice : Option Nat} (hend : (accept x choice).ends e = (.ok (), e')) : e'.OnTrack x := by
  unfold accept at hend
  rw [ends_bind_ok (ends_look e)] at hend
  simp only [hget] at hend
  cases hability : e.ability? activation.ability with
  | none =>
    rw [ends_bind_error (getAbility_missing hability)] at hend
    simp at hend
  | some a =>
    rw [ends_bind_ok (getAbility_ends hability)] at hend
    split at hend
    · obtain rfl := congrArg Prod.snd hend
      exact onTrack_of_filed (IdMap.get?_modify_self hget _) (StepQueue.partsOf_push rfl hnone)
        ⟨hkept, .inr (.inl rfl)⟩
    · obtain rfl := congrArg Prod.snd hend
      exact dropActivation_onTrack hnone

end Engine

namespace Moment

variable {m : Moment} {d : Deed} {x : ActivationId}

/-- An activation is on track at a moment. -/
def OnTrack (m : Moment) (x : ActivationId) : Prop :=
  Doomtown.OnTrack (m.engine.activations.get? x) (m.partsOf x)

theorem onTrack_finished {e : Engine} (h : e.OnTrack x) : OnTrack ⟨e.finished, none⟩ x := h

/-- An activation of which a part is at the front is live, and has come as far as that part. -/
theorem Sound.live_of_front (h : m.Sound) (hon : m.OnTrack x) {p : Part} {ps : List Part}
    (hparts : m.partsOf x = p :: ps) :
    ∃ activation, m.engine.activations.get? x = some activation ∧ activation.isLive ∧
      activation.deactivated = false ∧ p.Follows activation.stage ps := by
  have hfits := h.fits x
  unfold OnTrack at hon
  rw [hparts] at hfits hon
  cases hget : m.engine.activations.get? x with
  | none =>
    rw [hget] at hon
    exact absurd hon (by simp [Doomtown.OnTrack])
  | some activation =>
    rw [hget] at hfits hon
    have hcancelled : activation.cancelled = false := by
      cases hc : activation.cancelled with
      | false => rfl
      | true => simpa using (hfits.cancelled hc).1
    have hfollows : p.Follows activation.stage ps := by
      rcases hfits.ahead with hsub | ⟨hstage, heffect⟩
      · exact follows_of_ahead hsub
      · obtain ⟨rfl, rfl⟩ := List.cons.inj heffect
        exact ⟨hstage, rfl⟩
    have hterminal : activation.stage.isTerminal = false := by
      have hdeactivated := hfits.deactivated
      rw [hon.kept] at hdeactivated
      cases hs : activation.stage <;> rw [hs] at hfollows hdeactivated
      case completed => cases p <;> simp [Part.Follows] at hfollows
      all_goals simp_all [ActivationStage.isTerminal]
    have hlive := Activation.isLive_iff.mpr ⟨hcancelled, hon.kept, hterminal⟩
    exact ⟨activation, rfl, hlive, hon.kept, hfollows⟩

theorem costsPaid_of_live {activation : Activation} (hlive : activation.isLive)
    (hstage : activation.stage = .costsPaid ∨ activation.stage = .deactivated) :
    activation.stage = .costsPaid := by
  refine hstage.resolve_right fun hdeactivated => ?_
  obtain ⟨-, -, hterminal⟩ := Activation.isLive_iff.mp hlive
  simp [hdeactivated, ActivationStage.isTerminal] at hterminal

/-- The effect of an activation starts. -/
theorem Sound.onTrack_of_opens (h : m.Sound) (hon : m.OnTrack x) {r : Running} {s : Step} {p : Part}
    (hstarts : m.starts? .turn = some s) (hpart : s.kind.part? = some (x, p))
    (hopening : m.engine.opening s.kind = some r) : (m.after .turn).OnTrack x := by
  obtain ⟨q, hrunning, hbegin, hafter⟩ := begin?_of_starts hstarts
  rcases Engine.opening_cases hopening with ⟨_, _, hkind, -⟩ | ⟨_, _, hkind, -⟩ |
    ⟨y, activation, a, hkind, hget, -, -, rfl⟩
  · simp [hkind, StepKind.part?] at hpart
  · simp [hkind, StepKind.part?] at hpart
  · obtain ⟨rfl, rfl⟩ : y = x ∧ Part.execute = p := by
      simpa [hkind, StepKind.part?] using hpart
    obtain ⟨hparts, -⟩ := h.fits_front hrunning hpart (StepQueue.frontTaken_begin hbegin)
    obtain ⟨activation', hget', -, hkept, hstage, hnone⟩ := h.live_of_front hon hparts
    obtain rfl := Option.some.inj (hget.symm.trans hget')
    unfold turn at hafter
    simp only [hbegin, hopening] at hafter
    rw [hafter]
    unfold OnTrack
    rw [partsOf_of_effect rfl]
    show Doomtown.OnTrack (m.engine.activations.get? y) (.effect :: q.partsOf y)
    rw [hget, hnone]
    exact ⟨hkept, .inr (.inr ⟨hstage, rfl⟩)⟩

/-- A step of an activation that is done as a whole. -/
theorem Sound.onTrack_of_whole (h : m.Sound) (hon : m.OnTrack x) (hsteady : m.Steady .turn)
    {s : Step} {p : Part} (hstarts : m.starts? .turn = some s)
    (hpart : s.kind.part? = some (x, p)) (hopening : m.engine.opening s.kind = none) :
    (m.after .turn).OnTrack x := by
  obtain ⟨q, e₁, hrunning, htaken, hend, hafter⟩ := hsteady.whole hstarts hopening
  obtain ⟨hparts, -⟩ := h.fits_front hrunning hpart htaken
  obtain ⟨activation, hget, hlive, hkept, hfollows⟩ := h.live_of_front hon hparts
  have hget₀ : ({ m.engine with queue := q } : Engine).activations.get? x = some activation := hget
  rw [Engine.runStep_kind] at hend
  obtain ⟨i, kind⟩ := s
  dsimp only at hpart hend hopening
  cases kind with
  | task => simp [StepKind.part?] at hpart
  | window => simp [StepKind.part?] at hpart
  | prompt => simp at hend
  | complete y =>
    obtain ⟨rfl, rfl⟩ : y = x ∧ Part.complete = p := by simpa [StepKind.part?] using hpart
    obtain ⟨-, hnone⟩ := hfollows
    obtain rfl := congrArg Prod.snd hend
    rw [hafter]
    exact onTrack_finished (Engine.onTrack_of_filed (IdMap.get?_modify_self hget₀ _) hnone
      ⟨hkept, .inr (.inl rfl)⟩)
  | event event change =>
    cases change with
    | script => simp [StepKind.part?] at hpart
    | emitted y =>
      obtain ⟨rfl, rfl⟩ : y = x ∧ Part.announce = p := by simpa [StepKind.part?] using hpart
      obtain ⟨q', -, hbegin, -⟩ := begin?_of_starts hstarts
      have hoccurrence : m.occurrence .turn = some (y, .announced) := by
        unfold occurrence
        simp [hrunning, hbegin, Engine.occurrence]
      have hadvance := (hoccurrence ▸ passage h .turn).advance
      exact hadvance.onTrack hon (.inl rfl)
  | resolve y stage =>
    cases stage with
    | payCosts =>
      obtain ⟨rfl, rfl⟩ : y = x ∧ Part.pay = p := by simpa [StepKind.part?] using hpart
      obtain ⟨-, hnone⟩ := hfollows
      obtain ⟨a, -, hend⟩ := Engine.resolve_ok hget₀ hlive hend
      rw [hafter]
      exact onTrack_finished (Engine.payCosts_onTrack hget₀ hkept hnone hend)
    | chooseTargets =>
      obtain ⟨rfl, rfl⟩ : y = x ∧ Part.choose = p := by simpa [StepKind.part?] using hpart
      obtain ⟨hstage, hnone⟩ := hfollows
      obtain ⟨a, -, hend⟩ := Engine.resolve_ok hget₀ hlive hend
      obtain ⟨e₂, hend₂, hfills⟩ := Engine.fillSlots_ends _ a y activation a.targets
      obtain rfl : e₁ = e₂ := congrArg Prod.snd (hend.symm.trans hend₂)
      rw [hafter]
      exact onTrack_finished (hfills.onTrack hget₀ hkept (costsPaid_of_live hlive hstage) hnone)
    | execute =>
      -- Its effect would start, for its ability exists.
      obtain ⟨rfl, rfl⟩ : y = x ∧ Part.execute = p := by simpa [StepKind.part?] using hpart
      obtain ⟨a, hability, -⟩ := Engine.resolve_ok hget₀ hlive hend
      have hability' : m.engine.ability? activation.ability = some a := hability
      simp [Engine.opening, hget, hability', hlive] at hopening

/-- An answer takes on the activation that it is about. -/
theorem Sound.onTrack_of_answer (h : m.Sound) (hready : m.Ready) (hon : m.OnTrack x)
    {player : PlayerId} {n : Nat} (hsteady : m.Steady (.answer player n)) {s : Step} {p : Part}
    (hstarts : m.starts? (.answer player n) = some s) (hpart : s.kind.part? = some (x, p)) :
    (m.after (.answer player n)).OnTrack x := by
  obtain ⟨i, ⟨view, asked, reply⟩, -, -, -, rfl, -⟩ := beginAnswer?_of_starts hstarts
  have hreply : ∀ answers, reply ≠ .script answers := by
    rintro answers rfl
    simp [StepKind.part?] at hpart
  obtain ⟨q, e₁, hrunning, htaken, hbound, hend, hafter⟩ := hsteady.answered hstarts hreply
  obtain ⟨hparts, -⟩ := h.fits_front hrunning hpart htaken
  obtain ⟨activation, hget, hlive, hkept, hfollows⟩ := h.live_of_front hon hparts
  have hget₀ : ({ m.engine with queue := q } : Engine).activations.get? x = some activation := hget
  rw [hafter]
  cases reply with
  | script answers => exact absurd rfl (hreply answers)
  | target y slot choices =>
    obtain ⟨rfl, rfl⟩ : y = x ∧ Part.choose = p := by simpa [StepKind.part?] using hpart
    obtain ⟨hstage, hnone⟩ := hfollows
    -- The prompt has a button for each target, so the button that was chosen stands for one.
    have hapt : view.buttons.length = choices.length :=
      hready.apt _ (mem_order_of_starts hstarts)
    exact onTrack_finished (Engine.chooseTarget_onTrack hget₀ hkept
      (costsPaid_of_live hlive hstage) hnone (hapt ▸ hbound) hend)
  | offer y alternatives =>
    obtain ⟨rfl, rfl⟩ : y = x ∧ Part.offer = p := by simpa [StepKind.part?] using hpart
    obtain ⟨-, hnone⟩ := hfollows
    unfold Engine.answerWith at hend
    dsimp only at hend
    split at hend
    · obtain rfl := congrArg Prod.snd hend
      exact onTrack_finished (Engine.dropActivation_onTrack hnone)
    · exact onTrack_finished (Engine.accept_onTrack hget₀ hkept hnone hend)

/-- A step of an activation takes it on. -/
theorem Sound.onTrack_of_starts (h : m.Sound) (hready : m.Ready) (hon : m.OnTrack x)
    (hsteady : m.Steady d) {s : Step} {p : Part} (hstarts : m.starts? d = some s)
    (hpart : s.kind.part? = some (x, p)) : (m.after d).OnTrack x := by
  cases d with
  | turn =>
    cases hopening : m.engine.opening s.kind with
    | none => exact h.onTrack_of_whole hon hsteady hstarts hpart hopening
    | some r => exact h.onTrack_of_opens hon hstarts hpart hopening
  | answer player n => exact h.onTrack_of_answer hready hon hsteady hstarts hpart
  | _ => cases hr : m.running <;> simp [starts?, hr] at hstarts

/-- The effect of an activation ends. -/
theorem Sound.onTrack_of_effect (h : m.Sound) (hon : m.OnTrack x) (hsteady : m.Steady .go)
    {a : Ability} {activation : Activation} {script : Script}
    (hrunning : m.running = some ⟨.effect a x activation, script⟩)
    (hscript : script = .done ∨ ∃ err, script = .fail err) : (m.after .go).OnTrack x := by
  obtain ⟨e, running⟩ := m
  subst hrunning
  have hfails := hsteady.1
  rcases hscript with rfl | ⟨err, rfl⟩
  · have hok : ((Engine.conclude a x activation).ends e).1.isOk := by
      simpa [fails, Task.close] using hfails
    have hcomplete := Engine.mem_partsOf_conclude (ends_of_isOk hok)
    have hadvance := (passage h .go).advance
    exact hadvance.onTrack hon (.inr (List.ne_nil_of_mem hcomplete))
  · simp [fails] at hfails

/-! ## Whatever is done -/

/-- A deed that starts a step is about the activation that the step takes on. -/
theorem about?_of_starts {s : Step} (hstarts : m.starts? d = some s) :
    m.about? d = m.engine.takenOn? s.kind := by
  obtain ⟨-, hrunning, -⟩ := frontTaken_of_starts hstarts
  unfold about?
  cases d with
  | turn => simp [hrunning, hstarts]
  | answer => simp [hrunning, hstarts]
  | _ => simp [starts?, hrunning] at hstarts

/-- A deed that is not about an activation starts none of its steps. -/
theorem part?_of_not_about {s : Step} (hstarts : m.starts? d = some s)
    (hx : m.isAbout d x = false) :
    ∀ t ∈ s.kind.part?, t.1 ≠ x := by
  rintro ⟨y, p⟩ ht rfl
  have habout : m.about? d = some y := by
    rw [about?_of_starts hstarts]
    have ht' : s.kind.part? = some (y, p) := ht
    unfold Engine.takenOn?
    split
    · rename_i hkind
      simp [hkind, StepKind.part?] at ht'
    · simp [ht']
  simp [isAbout, habout] at hx

/-- An effect that is running is that of the script that runs. -/
theorem running_of_effect {t : Ability × ActivationId × Activation} (h : m.effect? = some t) :
    ∃ script, m.running = some ⟨.effect t.1 t.2.1 t.2.2, script⟩ := by
  unfold effect? at h
  split at h
  · rename_i a y activation script hrunning
    obtain rfl := Option.some.inj h
    exact ⟨script, hrunning⟩
  · simp at h

/-- The parts of what a deed is not about go on waiting, and running. -/
theorem Course.partsOf_eq {m' : Moment} (h : m.Course d m') (hx : m.isAbout d x = false) :
    m'.partsOf x = m.partsOf x := by
  have hidle : ∀ {e : Engine}, (⟨e, none⟩ : Moment).partsOf x = e.queue.partsOf x := rfl
  have hstarted : ∀ {s : Step} {rest : List Step}, m.starts? d = some s →
      m.engine.queue.running = none → m.engine.queue.steps = s :: rest →
      (m.engine.queue.started rest).partsOf x = m.engine.queue.partsOf x := by
    intro s rest hstarts hqueue hfront
    refine (StepQueue.partsOf_begin_other ?_ (part?_of_not_about hstarts hx)).symm
    simp [StepQueue.order, StepQueue.children, StepQueue.started, hqueue, hfront]
  cases h with
  | stays _ => rfl
  | call hrunning _ changes =>
    rw [hidle, partsOf_idle hrunning]
    exact changes.keeps.parts x hx
  | whole hrunning hstarts hqueue hfront changes =>
    rw [hidle, partsOf_idle hrunning, ← hstarted hstarts hqueue hfront]
    exact changes.keeps.parts x hx
  | @opens s rest r hrunning hstarts hqueue hfront heffect =>
    rw [partsOf_idle hrunning, ← hstarted hstarts hqueue hfront]
    refine partsOf_of_no_effect fun t ht htx => ?_
    obtain ⟨script, hr⟩ := running_of_effect ht
    obtain rfl := Option.some.inj hr
    have habout := (heffect _ _ _ rfl).2
    simp [htx, hx] at habout
  | @goes task script script' e' hrunning changes =>
    -- The effect that was running is running still.
    obtain ⟨e, running⟩ := m
    subst hrunning
    have hparts := changes.keeps.parts x hx
    unfold partsOf
    rw [effect?_rest e' e task script' script, hparts]
  | closes usage hrunning heffect changes =>
    rw [hidle]
    have hforeign : m.partsOf x = m.engine.queue.partsOf x := by
      refine partsOf_of_no_effect fun t ht htx => ?_
      obtain ⟨script, hr⟩ := running_of_effect ht
      obtain rfl := Option.some.inj (hrunning.symm.trans hr)
      have habout := heffect _ _ _ rfl
      simp [htx, hx] at habout
    rw [hforeign]
    exact changes.keeps.parts x hx

/-- What a deed is not about stays as it is, if it cannot be retracted. -/
theorem Course.spared {m' : Moment} (h : m.Course d m') (hx : m.isAbout d x = false)
    (hkept : ∀ t ∈ m.engine.retractable, t.2 ≠ x) :
    m'.engine.activations.get? x = m.engine.activations.get? x ∧ m'.partsOf x = m.partsOf x := by
  refine ⟨?_, h.partsOf_eq hx⟩
  cases h with
  | stays _ => rfl
  | opens _ _ _ _ _ => rfl
  | call _ _ changes => exact changes.keeps.records x hx hkept
  | whole _ _ _ _ changes => exact changes.keeps.records x hx hkept
  | goes _ changes => exact changes.keeps.records x hx hkept
  | closes _ _ _ changes => exact changes.keeps.records x hx hkept

/-- What an order is about is new or can be retracted. -/
theorem new_or_retractable {o : Order} (h : m.engine.entered? o = some x) :
    m.engine.nextActivation ≤ x.number ∨ ∃ t ∈ m.engine.retractable, t.2 = x := by
  unfold Engine.entered? at h
  split at h
  · obtain rfl := Option.some.inj h
    exact .inl (Nat.le_refl _)
  · obtain ⟨t, ht, rfl⟩ := Option.map_eq_some_iff.mp h
    exact .inr ⟨t, (List.mem_filter.mp (List.mem_of_getLast? ht)).1, rfl⟩
  · simp at h

/-- What is said and done about an activation that is not new and cannot be retracted is a step of
it, or the end of its effect. -/
theorem about_cases (hx : m.isAbout d x) (hnumber : x.number < m.engine.nextActivation)
    (hkept : ∀ t ∈ m.engine.retractable, t.2 ≠ x) :
    (∃ s p, m.starts? d = some s ∧ s.kind.part? = some (x, p)) ∨
      ∃ a activation script, d = .go ∧ m.running = some ⟨.effect a x activation, script⟩ ∧
        (script = .done ∨ ∃ err, script = .fail err) := by
  have horder : ∀ {o : Order}, m.engine.entered? o ≠ some x := by
    intro o ho
    rcases new_or_retractable ho with hnew | ⟨t, ht, htx⟩
    · omega
    · exact hkept t ht htx
  have habout : m.about? d = some x := of_decide_eq_true hx
  cases hstarts : m.starts? d with
  | some s =>
    rw [about?_of_starts hstarts] at habout
    unfold Engine.takenOn? at habout
    split at habout
    · obtain rfl := Option.some.inj habout
      exact absurd hnumber (Nat.lt_irrefl _)
    · obtain ⟨⟨y, p⟩, hpart, rfl⟩ := Option.map_eq_some_iff.mp habout
      exact .inl ⟨s, p, rfl, hpart⟩
  | none =>
    unfold about? at habout
    split at habout
    · exact absurd habout horder
    · simp at habout
    · simp [hstarts] at habout
    · exact absurd habout horder
    · rename_i hrunning
      obtain rfl := Option.some.inj habout
      exact .inr ⟨_, _, _, rfl, hrunning, .inl rfl⟩
    · rename_i hrunning
      obtain rfl := Option.some.inj habout
      exact .inr ⟨_, _, _, rfl, hrunning, .inr ⟨_, rfl⟩⟩
    · simp at habout

/-- An activation was entered by no player, and has everything ahead of it that it should have. -/
structure Underway (m : Moment) (x : ActivationId) : Prop where
  number : x.number < m.engine.nextActivation
  kept : ∀ t ∈ m.engine.retractable, t.2 ≠ x
  onTrack : m.OnTrack x

/-- A deed that is about such an activation finds a part of it waiting or running. -/
theorem Underway.parts_of_about (h : m.Underway x) (hx : m.isAbout d x) :
    ∃ p ps, m.partsOf x = p :: ps := by
  rcases about_cases hx h.number h.kept with ⟨s, p, hstarts, hpart⟩ |
    ⟨a, activation, script, -, hrunning, -⟩
  · obtain ⟨q, hrunning, htaken⟩ := frontTaken_of_starts hstarts
    rw [partsOf_idle hrunning]
    exact ⟨p, _, StepQueue.partsOf_begin htaken.order hpart⟩
  · have heffect : m.effect? = some (a, x, activation) := by
      unfold effect?
      rw [hrunning]
    exact ⟨.effect, _, partsOf_of_effect heffect⟩

/-- What cannot be retracted before a deed cannot be retracted after it. -/
theorem Course.kept {m' : Moment} (h : m.Course d m') (hnumber : x.number < m.engine.nextActivation)
    (hkept : ∀ t ∈ m.engine.retractable, t.2 ≠ x) :
    x.number < m'.engine.nextActivation ∧ ∀ t ∈ m'.engine.retractable, t.2 ≠ x := by
  obtain ⟨_, _, _, e₁, hchanges, hafter⟩ := h.changes
  have hkeeps := hchanges.keeps
  rw [hafter]
  refine ⟨Nat.lt_of_lt_of_le hnumber hkeeps.numbers, fun t ht htx => ?_⟩
  rcases hkeeps.retractable t ht with hold | ⟨-, hlow, -⟩
  · exact hkept t hold htx
  · rw [htx] at hlow
    exact absurd hnumber (Nat.not_lt.mpr hlow)

/-- A steady deed leads an activation that is under way to where it is under way. -/
theorem Underway.after (h : m.Underway x) (hsound : m.Sound) (hready : m.Ready)
    (hsteady : m.Steady d) : (m.after d).Underway x := by
  have hcourse := hsound.course d hsteady.2
  obtain ⟨hnumber, hkept⟩ := hcourse.kept h.number h.kept
  refine ⟨hnumber, hkept, ?_⟩
  cases hx : m.isAbout d x with
  | false =>
    obtain ⟨hrecord, hparts⟩ := hcourse.spared hx h.kept
    unfold OnTrack
    rw [hrecord, hparts]
    exact h.onTrack
  | true =>
    rcases about_cases hx h.number h.kept with ⟨s, p, hstarts, hpart⟩ |
      ⟨a, activation, script, rfl, hrunning, hscript⟩
    · exact hsound.onTrack_of_starts hready h.onTrack hsteady hstarts hpart
    · exact hsound.onTrack_of_effect h.onTrack hsteady hrunning hscript

end Moment

end Doomtown
