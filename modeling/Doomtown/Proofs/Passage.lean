import Doomtown.Proofs.Spares
import Mathlib.Data.List.Basic

/-!
# What a deed does to an activation

An activation stands where its record and the parts that wait for it say (`Fits`): at each stage at
most the parts wait that are still ahead, each once. `Advance` lists what can happen to an
activation that so stands, and `Moment.passage` says that this list is complete: any deed either
spares all activations or takes one of them one step on, as listed, and spares all others. The
invariant `Moment.Sound` carries the argument from deed to deed.
-/

namespace Doomtown

open Play

/-! ## Where activations stand -/

theorem Activation.isLive_iff {a : Activation} : a.isLive ↔
    a.cancelled = false ∧ a.deactivated = false ∧ a.stage.isTerminal = false := by
  simp only [isLive, Bool.and_eq_true, Bool.not_eq_true', and_assoc]

/-- The parts that wait for an activation. -/
def StepQueue.partsOf (q : StepQueue) (x : ActivationId) : List Part :=
  (q.parts.filter (·.1 = x)).map (·.2)

namespace StepQueue

theorem partsOf_push {q : StepQueue} {kind : StepKind} {x : ActivationId} {p : Part}
    (hkind : kind.part? = some (x, p)) (hnone : q.partsOf x = []) :
    (q.push kind).partsOf x = [p] := by
  obtain ⟨front, back, hparts, hparts'⟩ := q.parts_push kind
  unfold partsOf at hnone ⊢
  rw [hparts, List.filter_append, List.map_append, List.append_eq_nil_iff] at hnone
  rw [hparts', hkind]
  simp [hnone.1, hnone.2]

theorem partsOf_push_other {q : StepQueue} {kind : StepKind} {x : ActivationId}
    (hkind : ∀ t ∈ kind.part?, t.1 ≠ x) : (q.push kind).partsOf x = q.partsOf x := by
  obtain ⟨front, back, hparts, hparts'⟩ := q.parts_push kind
  unfold partsOf
  rw [hparts, hparts']
  cases hpart : kind.part? with
  | none => simp
  | some t => simp [hkind t hpart]

/-- Of two parts that are pushed in a row where none wait the first stays in front. -/
theorem partsOf_push_push {q : StepQueue} {first second : StepKind} {x : ActivationId} {p p' : Part}
    (hfirst : first.part? = some (x, p)) (hsecond : second.part? = some (x, p'))
    (hnone : q.partsOf x = []) : ((q.push first).push second).partsOf x = [p, p'] := by
  -- While a step runs both go behind what it has queued, otherwise both go to the end.
  unfold partsOf parts order children at hnone ⊢
  rw [List.map_eq_nil_iff] at hnone
  cases hr : q.running with
  | none =>
    simp only [hr, Option.getD_none, List.nil_append] at hnone
    simp [push, hr, hfirst, hsecond, hnone]
  | some own =>
    simp only [hr, Option.getD_some, List.filterMap_append, List.filter_append,
      List.append_eq_nil_iff] at hnone
    simp [push, hr, hfirst, hsecond, hnone.1, hnone.2]

theorem partsOf_pushNext {q : StepQueue} {kind : StepKind} {x : ActivationId} {p : Part}
    (hkind : kind.part? = some (x, p)) : (q.pushNext kind).partsOf x = p :: q.partsOf x := by
  unfold partsOf
  rw [parts_pushNext, hkind]
  simp

/-- A step of an activation that starts has waited in front of its other parts. -/
theorem partsOf_begin {q q' : StepQueue} {s : Step} (horder : q.order = s :: q'.order)
    {x : ActivationId} {p : Part} (hs : s.kind.part? = some (x, p)) :
    q.partsOf x = p :: q'.partsOf x := by
  unfold partsOf parts
  rw [horder, List.filterMap_cons, hs]
  simp

theorem partsOf_begin_other {q q' : StepQueue} {s : Step} (horder : q.order = s :: q'.order)
    {x : ActivationId} (hs : ∀ t ∈ s.kind.part?, t.1 ≠ x) : q.partsOf x = q'.partsOf x := by
  unfold partsOf parts
  rw [horder, List.filterMap_cons]
  cases hpart : s.kind.part? with
  | none => rfl
  | some t => simp [hs t hpart]

end StepQueue

namespace Engine.Spares

variable {mine : ActivationId → Bool} {kept : Prop} {e e' : Engine} {x : ActivationId}

/-- No parts are added for an activation that is spared. -/
theorem partsOf_sublist (h : e.Spares mine kept e') (hx : mine x = false) :
    (e'.queue.partsOf x).Sublist (e.queue.partsOf x) := by
  have hfilter : ∀ l : List (ActivationId × Part),
      l.filter (·.1 = x) = (l.filter fun t => !mine t.1).filter (·.1 = x) := by
    intro l
    rw [List.filter_filter]
    refine List.filter_congr fun t _ => ?_
    by_cases ht : t.1 = x
    · simp [ht, hx]
    · simp [ht]
  unfold StepQueue.partsOf
  rw [hfilter, hfilter e.queue.parts]
  exact (h.parts.filter _).map _

theorem mem_partsOf (h : e.Spares mine kept e') (hk : kept) (hx : mine x = false) {p : Part}
    (hp : p ∈ e.queue.partsOf x) (hchoose : p ≠ .choose) : p ∈ e'.queue.partsOf x := by
  obtain ⟨t, ht, rfl⟩ := List.mem_map.mp hp
  obtain ⟨hmem, heq⟩ := List.mem_filter.mp ht
  have heq' : t.1 = x := by simpa using heq
  subst heq'
  exact List.mem_map.mpr ⟨t, List.mem_filter.mpr ⟨h.kept hk t hmem hx hchoose, heq⟩, rfl⟩

/-- Where an activation has not ended, its record is spared. -/
theorem get?_eq (h : e.Spares mine kept e') (hx : mine x = false) {activation : Activation}
    (hget : e.activations.get? x = some activation) (hlive : activation.stage.isTerminal = false) :
    e'.activations.get? x = some activation := by
  rcases h.activations x hx with heq | ⟨activation', hsome, hended, -⟩
  · rw [heq, hget]
  · rw [hget] at hsome
    obtain rfl := Option.some.inj hsome
    rw [hlive] at hended
    simp at hended

end Engine.Spares

/-- The parts that are still ahead at a stage, in the order in which they are to be played. -/
def ActivationStage.ahead : ActivationStage → List Part
  | idle => [.offer]
  | legalityChecked => [.pay]
  | costsPaid | deactivated => [.choose]
  | targetsResolved => [.execute]
  | executed => [.announce, .complete]
  | eventEmitted => [.complete]
  | completed => []

/-- An activation's record and the parts that wait for it go together: at most those wait that are
ahead, or its effect is running. Nothing waits for one that was cancelled. -/
structure Activation.Fits (activation : Activation) (parts : List Part) : Prop where
  ahead : parts.Sublist activation.stage.ahead ∨
    activation.stage = .targetsResolved ∧ parts = [.effect]
  deactivated : activation.deactivated ↔ activation.stage = .deactivated
  cancelled : activation.cancelled → parts = [] ∧ (activation.stage = .legalityChecked ∨
    activation.stage = .costsPaid ∨ activation.stage = .deactivated)

/-- For an activation that is not filed nothing waits, or what is left from before it was
forgotten. -/
def Fits : Option Activation → List Part → Prop
  | none, parts => parts.Sublist [.choose]
  | some activation, parts => activation.Fits parts

/-- Fewer parts fit where more do. -/
theorem Fits.sublist {a : Option Activation} {ps ps' : List Part} (h : Fits a ps)
    (hps : ps'.Sublist ps) : Fits a ps' := by
  cases a with
  | none => exact hps.trans h
  | some a =>
    refine ⟨?_, h.deactivated, fun hc => ⟨?_, (h.cancelled hc).2⟩⟩
    · rcases h.ahead with hsub | ⟨hstage, rfl⟩
      · exact .inl (hps.trans hsub)
      · rcases List.sublist_singleton.mp hps with rfl | rfl
        · exact .inl (List.nil_sublist _)
        · exact .inr ⟨hstage, rfl⟩
    · have hnil := (h.cancelled hc).1
      rw [hnil] at hps
      exact List.sublist_nil.mp hps

/-- How far an activation has come if a part of it is the next to be played, and what else of it
may wait. -/
def Part.Follows (p : Part) (stage : ActivationStage) (rest : List Part) : Prop :=
  match p with
  | .offer => stage = .idle ∧ rest = []
  | .pay => stage = .legalityChecked ∧ rest = []
  | .choose => (stage = .costsPaid ∨ stage = .deactivated) ∧ rest = []
  | .execute | .effect => stage = .targetsResolved ∧ rest = []
  | .announce => stage = .executed ∧ rest.Sublist [.complete]
  | .complete => (stage = .executed ∨ stage = .eventEmitted) ∧ rest = []

theorem follows_of_ahead {stage : ActivationStage} {p : Part} {ps : List Part}
    (h : (p :: ps).Sublist stage.ahead) : p.Follows stage ps := by
  -- Two parts are ahead at one stage only, of which the first may have been dropped.
  cases stage with
  | executed =>
    cases h with
    | cons_cons _ hrest => exact ⟨rfl, hrest⟩
    | cons _ hrest =>
      rcases List.sublist_singleton.mp hrest with hnil | hone
      · simp at hnil
      · obtain ⟨rfl, rfl⟩ := List.cons.inj hone
        exact ⟨.inl rfl, rfl⟩
  | completed => simp [ActivationStage.ahead] at h
  | _ =>
    rcases List.sublist_singleton.mp h with hnil | hone
    · simp at hnil
    · obtain ⟨rfl, rfl⟩ := List.cons.inj hone
      simp [Part.Follows]

/-- The part that is next tells how far the activation has come, and what else of it waits. -/
theorem follows_of_fits {a : Option Activation} {p : Part} {ps : List Part}
    (h : Fits a (p :: ps)) (hp : p ≠ .choose) :
    ∃ activation, a = some activation ∧ activation.isLive ∧ p.Follows activation.stage ps := by
  cases a with
  | none =>
    rcases List.sublist_singleton.mp h with hnil | hone
    · simp at hnil
    · exact absurd (List.cons.inj hone).1 hp
  | some activation =>
    have hcancelled : activation.cancelled = false := by
      cases hc : activation.cancelled with
      | false => rfl
      | true => simpa using (h.cancelled hc).1
    have hfollows : p.Follows activation.stage ps := by
      rcases h.ahead with hsub | ⟨hstage, hparts⟩
      · exact follows_of_ahead hsub
      · obtain ⟨rfl, rfl⟩ := List.cons.inj hparts
        exact ⟨hstage, rfl⟩
    have hdeactivated := h.deactivated
    refine ⟨activation, rfl, ?_, hfollows⟩
    cases p <;> cases hs : activation.stage <;> rw [hs] at hfollows hdeactivated <;>
      simp [Part.Follows] at hfollows hdeactivated hp <;>
      simp [Activation.isLive, hcancelled, hdeactivated, hs, ActivationStage.isTerminal]

/-- Next to a part that fills slots nothing else waits. -/
theorem alone_of_fits_choose {a : Option Activation} {ps : List Part}
    (h : Fits a (.choose :: ps)) : ps = [] := by
  cases a with
  | none =>
    rcases List.sublist_singleton.mp h with hnil | hone
    · simp at hnil
    · exact (List.cons.inj hone).2
  | some activation =>
    rcases h.ahead with hahead | ⟨-, hparts⟩
    · exact (follows_of_ahead hahead).2
    · simp at hparts

/-! ## What can happen to an activation -/

/-- What happens to an activation besides the change of its stage. -/
inductive Occurrence where
  | paid
  /-- Its effect starts. -/
  | effect
  /-- Its use is counted. -/
  | counted
  /-- The event of its resolution fires. -/
  | announced
deriving DecidableEq

/-- The ability exists and has not reached its limit, or may be used though it has. -/
def Engine.Admits (e : Engine) (a : AbilityId) : Prop :=
  ∃ ability, e.ability? a = some ability ∧ (ability.allowUsed ∨ e.usage.isUsed a = false)

/-- One step of an activation: what it was and what waited for it, what occurred, and what it is and
what waits for it then. Abilities that can be started are those that are admitted. -/
inductive Advance (admits : AbilityId → Prop) : Option Activation → List Part →
    Option Occurrence → Option Activation → List Part → Prop where
  /-- It is entered and at once started. -/
  | start {a : Activation} (hstage : a.stage = .legalityChecked) (hlive : a.isLive)
      (hadmits : admits a.ability) : Advance admits none [] none (some a) [.pay]
  /-- It is entered and offered. -/
  | offer {a : Activation} (hstage : a.stage = .idle) (hlive : a.isLive) :
    Advance admits none [] none (some a) [.offer]
  /-- It is declined, or not legal any more when it is accepted. -/
  | decline {a : Activation} (hstage : a.stage = .idle) :
    Advance admits (some a) [.offer] none none []
  | accept {a : Activation} (hstage : a.stage = .idle) (choice : Option Nat)
      (hadmits : admits a.ability) :
    Advance admits (some a) [.offer] none
      (some { a with choice := choice, stage := .legalityChecked }) [.pay]
  /-- A part passes without effect. -/
  | skip (a : Option Activation) {p : Part} (hp : p ≠ .announce ∧ p ≠ .complete) :
    Advance admits a [p] none a []
  /-- Its costs cannot be paid. -/
  | refuse {a : Activation} (hstage : a.stage = .legalityChecked) :
    Advance admits (some a) [.pay] none (some { a with cancelled := true }) []
  | pay {a : Activation} (hstage : a.stage = .legalityChecked) (receipts : List CostReceipt)
      {ps : List Part} (hps : ps.Sublist [.choose]) :
    Advance admits (some a) [.pay] (some .paid)
      (some { a with receipts := receipts, stage := .costsPaid }) ps
  /-- It has no target for a slot. -/
  | miss {a : Activation} (hstage : a.stage = .costsPaid) (targets : List (String × ChosenTarget)) :
    Advance admits (some a) [.choose] none
      (some { a with targets := targets, cancelled := true }) []
  /-- It waits for a target. -/
  | ask {a : Activation} (hstage : a.stage = .costsPaid) (targets : List (String × ChosenTarget))
      (i : StepId) :
    Advance admits (some a) [.choose] none (some { a with targets := targets, prompt := some i })
      [.choose]
  /-- It is told a target. -/
  | answer (a : Option Activation) (slot : String) (t : ChosenTarget) :
    Advance admits a [.choose] none
      (a.map fun a => { a.choose slot t with prompt := none }) [.choose]
  | resolve {a : Activation} (hstage : a.stage = .costsPaid)
      (targets : List (String × ChosenTarget)) :
    Advance admits (some a) [.choose] none
      (some { a with targets := targets, stage := .targetsResolved }) [.execute]
  | retract {a : Activation} (hstage : a.stage = .costsPaid) {ps ps' : List Part}
      (hps : ps'.Sublist ps) :
    Advance admits (some a) ps none
      (some { a with stage := .deactivated, deactivated := true, prompt := none }) ps'
  | execute {a : Activation} (hstage : a.stage = .targetsResolved) :
    Advance admits (some a) [.execute] (some .effect) (some a) [.effect]
  | conclude {a : Activation} (hstage : a.stage = .targetsResolved) {ps : List Part}
      (hps : ps = [] ∨ ps = [.announce, .complete]) :
    Advance admits (some a) [.effect] (some .counted) (some { a with stage := .executed }) ps
  | announce {a : Activation} (hstage : a.stage = .executed) {ps : List Part}
      (hps : ps.Sublist [.complete]) :
    Advance admits (some a) (.announce :: ps) (some .announced)
      (some { a with stage := .eventEmitted }) ps
  | complete {a : Activation} (hstage : a.stage = .executed ∨ a.stage = .eventEmitted) :
    Advance admits (some a) [.complete] none (some { a with stage := .completed }) []

/-- Whatever happens, record and parts go together. -/
theorem Advance.fits {admits : AbilityId → Prop} {a a' : Option Activation} {ps ps' : List Part}
    {o : Option Occurrence} (h : Advance admits a ps o a' ps') (hfits : Fits a ps) :
    Fits a' ps' := by
  -- An activation for which something waits was not cancelled.
  have hgoing : ∀ {a : Activation} {p : Part} {ps : List Part}, a.Fits (p :: ps) →
      a.cancelled = false := by
    intro a p ps ha
    cases hc : a.cancelled with
    | false => rfl
    | true => simpa using (ha.cancelled hc).1
  cases h with
  | start hstage hl _ =>
    obtain ⟨hc, hd, -⟩ := Activation.isLive_iff.mp hl
    exact ⟨.inl (by simp [hstage, ActivationStage.ahead]), by simp [hd, hstage], by simp [hc]⟩
  | offer hstage hl =>
    obtain ⟨hc, hd, -⟩ := Activation.isLive_iff.mp hl
    exact ⟨.inl (by simp [hstage, ActivationStage.ahead]), by simp [hd, hstage], by simp [hc]⟩
  | decline => exact List.nil_sublist _
  | accept hstage choice _ =>
    have hd := hfits.deactivated
    have hc := hgoing hfits
    exact ⟨.inl (.refl _), by simpa [hstage] using hd, by simp [hc]⟩
  -- Parts may be lost at any stage, so what fits is a sublist of what can be ahead.
  | skip a hp =>
    cases a with
    | none => exact List.nil_sublist _
    | some a =>
      refine ⟨.inl (List.nil_sublist _), hfits.deactivated, fun hc => ?_⟩
      have := hgoing hfits
      simp [this] at hc
  | refuse hstage =>
    exact ⟨.inl (List.nil_sublist _), hfits.deactivated, fun _ => ⟨rfl, .inl hstage⟩⟩
  | pay hstage receipts hps =>
    have hd := hfits.deactivated
    have hc := hgoing hfits
    exact ⟨.inl hps, by simpa [hstage] using hd, by simp [hc]⟩
  | miss hstage targets =>
    exact ⟨.inl (List.nil_sublist _), hfits.deactivated, fun _ => ⟨rfl, .inr (.inl hstage)⟩⟩
  | ask hstage targets i =>
    have hc := hgoing hfits
    exact ⟨.inl (by simp [hstage, ActivationStage.ahead]), hfits.deactivated, by simp [hc]⟩
  | answer a slot t =>
    cases a with
    | none => exact hfits
    | some a => exact ⟨hfits.ahead, hfits.deactivated, hfits.cancelled⟩
  | resolve hstage targets =>
    have hd := hfits.deactivated
    have hc := hgoing hfits
    exact ⟨.inl (.refl _), by simpa [hstage] using hd, by simp [hc]⟩
  | @retract a hstage ps ps' hps =>
    -- Its effect is not running, for it has not got all its targets yet.
    refine ⟨.inl ?_, by simp, fun hc => ⟨?_, .inr (.inr rfl)⟩⟩
    · rcases hfits.ahead with hsub | ⟨hresolved, -⟩
      · rw [hstage] at hsub
        exact hps.trans hsub
      · rw [hstage] at hresolved
        simp at hresolved
    · have hnil := (hfits.cancelled hc).1
      rw [hnil] at hps
      exact List.sublist_nil.mp hps
  | execute hstage =>
    have hc := hgoing hfits
    exact ⟨.inr ⟨hstage, rfl⟩, hfits.deactivated, by simp [hc]⟩
  | conclude hstage hps =>
    have hd := hfits.deactivated
    have hc := hgoing hfits
    refine ⟨.inl ?_, by simpa [hstage] using hd, by simp [hc]⟩
    rcases hps with rfl | rfl
    · exact List.nil_sublist _
    · exact .refl _
  | announce hstage hps =>
    have hd := hfits.deactivated
    have hc := hgoing hfits
    exact ⟨.inl hps, by simpa [hstage] using hd, by simp [hc]⟩
  | complete hstage =>
    have hd := hfits.deactivated
    have hc := hgoing hfits
    refine ⟨.inl (.refl _), ?_, by simp [hc]⟩
    rcases hstage with hstage | hstage <;> simpa [hstage] using hd

/-- An activation that comes to be filed had nothing waiting for it. -/
theorem Advance.entered {admits : AbilityId → Prop} {activation : Activation}
    {ps ps' : List Part} {o : Option Occurrence}
    (h : Advance admits none ps o (some activation) ps') : ps = [] := by
  cases h with
  | start => rfl
  | offer => rfl

/-! ## What occurs in a run -/

/-- Whether the costs of an activation are paid if their payment is tried now. -/
def Engine.pays (e : Engine) (x : ActivationId) : Bool :=
  (e.activations.get? x).any fun activation => activation.isLive &&
    (e.ability? activation.ability).any fun a =>
      ((Payment.payAll a.title activation a.costs).ends e.board).1.isOk

/-- What occurs to an activation when a step starts. -/
def Engine.occurrence (e : Engine) : StepKind → Option (ActivationId × Occurrence)
  | .resolve x .payCosts => if e.pays x then some (x, .paid) else none
  | .resolve x .execute => (e.opening (.resolve x .execute)).map fun _ => (x, .effect)
  | .event _ (.emitted x) => some (x, .announced)
  | _ => none

namespace Moment

/-- The effect that is running. -/
def effect? (m : Moment) : Option (Ability × ActivationId × Activation) :=
  match m.running with
  | some ⟨.effect a x activation, _⟩ => some (a, x, activation)
  | _ => none

/-- The parts of an activation that run or wait. -/
def partsOf (m : Moment) (x : ActivationId) : List Part :=
  match m.effect? with
  | some (_, y, _) =>
    if y = x then .effect :: m.engine.queue.partsOf x else m.engine.queue.partsOf x
  | none => m.engine.queue.partsOf x

/-- What occurs to an activation by a deed. -/
def occurrence (m : Moment) (d : Deed) : Option (ActivationId × Occurrence) :=
  match m.running, d with
  | none, .turn => m.engine.queue.begin?.bind fun s => m.engine.occurrence s.1.kind
  | some ⟨.effect _ x _, .done⟩, .go => some (x, .counted)
  | _, _ => none

/-- The step that is withdrawn by a deed. -/
def withdraws (m : Moment) (d : Deed) : Option StepId :=
  match m.running, d with
  | none, .call (.order (.withdraw i)) => some i
  | some ⟨_, .order (.withdraw i) _⟩, .go => some i
  | _, _ => none

/-- Nobody withdraws a step that belongs to an activation. -/
def Undisturbed (m : Moment) (d : Deed) : Prop :=
  ∀ i ∈ m.withdraws d, ∀ s ∈ m.engine.queue.pending, s.id = i → s.kind.part? = none

instance (m : Moment) (d : Deed) : Decidable (m.Undisturbed d) :=
  inferInstanceAs (Decidable (∀ i ∈ m.withdraws d, ∀ s ∈ m.engine.queue.pending, s.id = i →
    s.kind.part? = none))

end Moment

/-- The step of a number, if it waits, waits for a target of an activation. -/
def Engine.AsksTarget (e : Engine) (x : ActivationId) (i : StepId) : Prop :=
  i.number < e.queue.nextId ∧
    ∀ s ∈ e.queue.order, s.id = i → s.kind.part? = some (x, .choose)

namespace Moment

/-- What holds at every moment of a run. -/
structure Sound (m : Moment) : Prop where
  ids : ∀ s ∈ m.engine.queue.order, s.id.number < m.engine.queue.nextId
  fits : ∀ x, Fits (m.engine.activations.get? x) (m.partsOf x)
  fresh : ∀ x : ActivationId, m.engine.nextActivation ≤ x.number →
    m.engine.activations.get? x = none ∧ m.partsOf x = []
  running : ∀ a x activation, m.effect? = some (a, x, activation) →
    m.engine.activations.get? x = some activation
  prompts : ∀ x activation i, m.engine.activations.get? x = some activation →
    activation.prompt = some i → m.engine.AsksTarget x i
  counters : ∀ a u, m.engine.usage.counters.get? a = some u →
    ∃ ability, m.engine.ability? a = some ability ∧ ability.limit = some u.limit

/-- The engine once what occurs to an activation has been counted. -/
def counted (m : Moment) (x : ActivationId) : Option Occurrence → Engine
  | some .counted =>
    match m.engine.activations.get? x with
    | some activation =>
      { m.engine with usage := m.engine.usage.increment activation.ability }
    | none => m.engine
  | _ => m.engine

/-- From one moment to the next no activation is taken on, or one is taken a step on, and all others
are spared. -/
inductive Passage (kept : Prop) (m : Moment) :
    Option (ActivationId × Occurrence) → Moment → Prop where
  | spare {m' : Moment} (spares : m.engine.Spares (fun _ => false) kept m'.engine)
    (effect : m'.effect? = m.effect?) : Passage kept m none m'
  | step {m' : Moment} (x : ActivationId) {o : Option Occurrence}
    (spares : (m.counted x o).Spares (· = x) kept m'.engine)
    (effect : ∀ t, m'.effect? = some t → t.2.1 ≠ x ∧ m.effect? = some t ∨
      t.2.1 = x ∧ m'.engine.activations.get? x = some t.2.2)
    (advance : Advance m.engine.Admits (m.engine.activations.get? x) (m.partsOf x) o
      (m'.engine.activations.get? x) (m'.partsOf x))
    (prompt : ∀ activation' i, m'.engine.activations.get? x = some activation' →
      activation'.prompt = some i → m'.engine.AsksTarget x i ∨
        ∃ activation, m.engine.activations.get? x = some activation ∧ activation.prompt = some i)
    (number : x.number < m'.engine.nextActivation)
    (entry : m.engine.activations.get? x = none → m.partsOf x = [] →
      m.engine.nextActivation ≤ x.number) :
    Passage kept m (o.map fun o => (x, o)) m'

/-- What occurs to an activation takes it a step on. -/
theorem Passage.advance {kept : Prop} {m m' : Moment} {x : ActivationId} {o : Occurrence}
    (h : Passage kept m (some (x, o)) m') :
    Advance m.engine.Admits (m.engine.activations.get? x) (m.partsOf x) (some o)
      (m'.engine.activations.get? x) (m'.partsOf x) := by
  generalize hsome : some (x, o) = o' at h
  cases h with
  | spare => simp at hsome
  | @step _ y o' _ _ advance =>
    obtain ⟨o'', rfl, heq⟩ := Option.map_eq_some_iff.mp hsome.symm
    obtain ⟨rfl, rfl⟩ := Prod.mk.inj heq
    exact advance

/-! ## The invariant -/

theorem partsOf_of_effect {m : Moment} {x : ActivationId} {a : Ability} {activation : Activation}
    (h : m.effect? = some (a, x, activation)) :
    m.partsOf x = .effect :: m.engine.queue.partsOf x := by
  simp [partsOf, h]

theorem partsOf_of_no_effect {m : Moment} {x : ActivationId}
    (h : ∀ t, m.effect? = some t → t.2.1 ≠ x) : m.partsOf x = m.engine.queue.partsOf x := by
  unfold partsOf
  cases he : m.effect? with
  | none => rfl
  | some t => simp [h t he]

/-- While nothing runs, the parts of an activation are those that wait. -/
theorem partsOf_idle {m : Moment} (hrunning : m.running = none) (x : ActivationId) :
    m.partsOf x = m.engine.queue.partsOf x :=
  partsOf_of_no_effect fun t ht => by simp [effect?, hrunning] at ht

/-- Counting a use changes nothing but the count. -/
theorem counted_eq (m : Moment) (x : ActivationId) (o : Option Occurrence) :
    ∃ usage, m.counted x o = { m.engine with usage := usage } := by
  unfold counted
  split
  · split
    · exact ⟨_, rfl⟩
    · exact ⟨m.engine.usage, rfl⟩
  · exact ⟨m.engine.usage, rfl⟩

/-- A counter that is counted up has the limit that it had. -/
theorem counters_counted {m : Moment} {x : ActivationId} {o : Option Occurrence} {a : AbilityId}
    {u : AbilityUsage} (h : (m.counted x o).usage.counters.get? a = some u) :
    ∃ u', m.engine.usage.counters.get? a = some u' ∧ u.limit = u'.limit := by
  unfold counted at h
  split at h
  · split at h
    · simp only [UsageTracker.increment, IdMap.get?_modify] at h
      split at h
      · rename_i heq
        obtain ⟨u', hu', rfl⟩ := Option.map_eq_some_iff.mp h
        exact ⟨u', heq ▸ hu', rfl⟩
      · exact ⟨u, h, rfl⟩
    · exact ⟨u, h, rfl⟩
  · exact ⟨u, h, rfl⟩

variable {m m' : Moment} {kept : Prop} {mine : ActivationId → Bool} {e : Engine}
  {x y : ActivationId}

/-- Only what is at the stage of what was retracted is marked as retracted. -/
theorem Sound.active (h : m.Sound) {x : ActivationId} {activation : Activation}
    (hget : m.engine.activations.get? x = some activation)
    (hstage : activation.stage ≠ .deactivated) : activation.deactivated = false := by
  have hfits := h.fits x
  rw [hget] at hfits
  exact Bool.eq_false_iff.mpr (mt hfits.deactivated.mp hstage)

/-- What a running effect belongs to has all its targets, and nothing else waits for it. -/
theorem Sound.effect_stage (h : m.Sound) {a : Ability} {activation : Activation}
    (heffect : m.effect? = some (a, x, activation)) :
    activation.stage = .targetsResolved ∧ m.engine.queue.partsOf x = [] := by
  have hfits := h.fits x
  rw [h.running a x activation heffect, partsOf_of_effect heffect] at hfits
  obtain ⟨activation', hsome, -, hfollows⟩ := follows_of_fits hfits (by decide)
  obtain rfl := Option.some.inj hsome
  exact hfollows

/-- Of an activation that is not taken on no parts are added. -/
theorem partsOf_sublist (hqueue : e.queue = m.engine.queue)
    (hspares : e.Spares mine kept m'.engine) (hy : mine y = false)
    (heffect : ∀ t, m'.effect? = some t → t.2.1 = y → m.effect? = some t) :
    (m'.partsOf y).Sublist (m.partsOf y) := by
  have hsub := hspares.partsOf_sublist hy
  rw [hqueue] at hsub
  -- A running effect is itself a part that goes on.
  by_cases hrunning : ∃ t, m'.effect? = some t ∧ t.2.1 = y
  · obtain ⟨⟨a, _, activation⟩, ht, rfl⟩ := hrunning
    rw [partsOf_of_effect ht, partsOf_of_effect (heffect _ ht rfl)]
    exact hsub.cons_cons _
  · rw [partsOf_of_no_effect fun t ht hty => hrunning ⟨t, ht, hty⟩]
    refine hsub.trans ?_
    unfold partsOf
    split
    · split
      · exact List.sublist_cons_self _ _
      · exact .refl _
    · exact .refl _

/-- The invariant is kept for an activation that is not taken on. -/
theorem Sound.fits_spared (h : m.Sound) (hqueue : e.queue = m.engine.queue)
    (hactivations : e.activations = m.engine.activations)
    (hspares : e.Spares mine kept m'.engine) (hy : mine y = false)
    (heffect : ∀ t, m'.effect? = some t → t.2.1 = y → m.effect? = some t) :
    Fits (m'.engine.activations.get? y) (m'.partsOf y) := by
  have hsub := partsOf_sublist hqueue hspares hy heffect
  have hfits := h.fits y
  rcases hspares.activations y hy with heq | ⟨activation, hsome, hended, hnone⟩
  · rw [heq, hactivations]
    exact hfits.sublist hsub
  · -- It had ended and is forgotten.
    rw [hactivations] at hsome
    rw [hsome] at hfits
    rw [hnone]
    have hchoose : (m.partsOf y).Sublist [.choose] := by
      rcases hfits.ahead with hahead | ⟨hstage, -⟩
      · cases hstage : activation.stage <;> rw [hstage] at hahead hended
        all_goals first
          | exact absurd hended (by decide)
          | exact hahead
          | exact hahead.trans (List.nil_sublist _)
      · rw [hstage] at hended
        exact absurd hended (by decide)
    exact hsub.trans hchoose

/-- The step for a target goes on waiting for no more than that. -/
theorem Sound.prompts_spared (h : m.Sound) (hqueue : e.queue = m.engine.queue)
    (hspares : e.Spares mine kept m'.engine) {activation : Activation} {i : StepId}
    (hget : m.engine.activations.get? y = some activation) (hi : activation.prompt = some i) :
    m'.engine.AsksTarget y i := by
  obtain ⟨hlt, hchoose⟩ := h.prompts y activation i hget hi
  -- Its number was given before, so no new step has it.
  have hids := hspares.ids
  rw [hqueue] at hids
  refine ⟨by omega, fun s hs hsi => ?_⟩
  rcases hspares.steps s hs with hold | ⟨hnew, -⟩
  · exact hchoose s (hqueue ▸ hold) hsi
  · rw [hqueue, hsi] at hnew
    omega

theorem Sound.ids_spared (h : m.Sound) (hqueue : e.queue = m.engine.queue)
    (hspares : e.Spares mine kept m'.engine) :
    ∀ s ∈ m'.engine.queue.order, s.id.number < m'.engine.queue.nextId := by
  intro s hs
  rcases hspares.steps s hs with hold | ⟨-, hlt⟩
  · have := h.ids s (hqueue ▸ hold)
    have hids := hspares.ids
    rw [hqueue] at hids
    omega
  · exact hlt

/-- What was spared and is filed was filed before. -/
theorem get?_spared (hactivations : e.activations = m.engine.activations)
    (hspares : e.Spares mine kept m'.engine) (hy : mine y = false) {activation : Activation}
    (hget : m'.engine.activations.get? y = some activation) :
    m.engine.activations.get? y = some activation := by
  rcases hspares.activations y hy with heq | ⟨_, -, -, hnone⟩
  · rw [← hactivations, ← heq]
    exact hget
  · rw [hnone] at hget
    simp at hget

/-- A counter has the limit of its ability, whether it is new or was there before. -/
theorem Sound.counters_spared (h : m.Sound) (habilities : e.abilities = m.engine.abilities)
    (hcounters : ∀ a u, e.usage.counters.get? a = some u →
      ∃ u', m.engine.usage.counters.get? a = some u' ∧ u.limit = u'.limit)
    (hspares : e.Spares mine kept m'.engine) {a : AbilityId} {u : AbilityUsage}
    (hu : m'.engine.usage.counters.get? a = some u) :
    ∃ ability, m'.engine.ability? a = some ability ∧ ability.limit = some u.limit := by
  rcases hspares.counters a u hu with ⟨-, hlimit⟩ | ⟨u', hu', hlimit, -⟩
  · exact hlimit
  · obtain ⟨u'', hu'', hlimit'⟩ := hcounters a u' hu'
    obtain ⟨ability, hability, hmax⟩ := h.counters a u'' hu''
    have hability' : e.ability? a = some ability := by
      unfold Engine.ability? at hability ⊢
      rw [habilities]
      exact hability
    exact ⟨ability, hspares.abilities a ability hability', by rw [hmax, hlimit, hlimit']⟩

/-- Where no activation was given the number before, none is spared under it. -/
theorem Sound.fresh_spared (h : m.Sound) (hqueue : e.queue = m.engine.queue)
    (hactivations : e.activations = m.engine.activations)
    (hnext : e.nextActivation = m.engine.nextActivation)
    (hspares : e.Spares mine kept m'.engine) (hy : mine y = false)
    (heffect : ∀ t, m'.effect? = some t → t.2.1 = y → m.effect? = some t)
    (hfresh : m'.engine.nextActivation ≤ y.number) :
    m'.engine.activations.get? y = none ∧ m'.partsOf y = [] := by
  have hnumbers := hspares.numbers
  rw [hnext] at hnumbers
  obtain ⟨hnone, hparts⟩ := h.fresh y (by omega)
  have hsub := partsOf_sublist hqueue hspares hy heffect
  rw [hparts] at hsub
  refine ⟨?_, List.sublist_nil.mp hsub⟩
  rcases hspares.activations y hy with heq | ⟨_, -, -, hgone⟩
  · rw [heq, hactivations, hnone]
  · exact hgone

/-- A running effect keeps the record with which it started: it has not ended, so it is not
forgotten. -/
theorem Sound.running_spared (h : m.Sound)
    (hactivations : e.activations = m.engine.activations) (hspares : e.Spares mine kept m'.engine)
    {a : Ability} {activation : Activation} (hy : mine y = false)
    (heffect : m.effect? = some (a, y, activation)) :
    m'.engine.activations.get? y = some activation := by
  refine hspares.get?_eq hy (hactivations ▸ h.running a y activation heffect) ?_
  rw [(h.effect_stage heffect).1]
  rfl

/-- From one moment to the next the invariant is kept. -/
theorem Passage.sound {o : Option (ActivationId × Occurrence)} (h : m.Sound)
    (hpassage : Passage kept m o m') : m'.Sound := by
  cases hpassage with
  | spare hspares heffect =>
    have heffect' : ∀ y t, m'.effect? = some t → t.2.1 = y → m.effect? = some t :=
      fun y t ht _ => heffect ▸ ht
    exact {
      ids := h.ids_spared rfl hspares
      fits := fun y => h.fits_spared rfl rfl hspares rfl (heffect' y)
      fresh := fun y => h.fresh_spared rfl rfl rfl hspares rfl (heffect' y)
      running := fun a y activation ht => h.running_spared rfl hspares rfl (heffect' y _ ht rfl)
      prompts := fun y activation i hget hi =>
        h.prompts_spared rfl hspares (get?_spared rfl hspares rfl hget) hi
      counters := fun a u =>
        h.counters_spared rfl (fun _ u' hu' => ⟨u', hu', rfl⟩) hspares }
  | @step _ x o hspares heffect hadvance hprompt hnumber _ =>
    obtain ⟨usage, husage⟩ := m.counted_eq x o
    have hqueue : (m.counted x o).queue = m.engine.queue := by rw [husage]
    have hactivations : (m.counted x o).activations = m.engine.activations := by rw [husage]
    have hother : ∀ {y}, y ≠ x → decide (y = x) = false := fun hy => by simpa using hy
    have heffect' : ∀ {y}, y ≠ x → ∀ t, m'.effect? = some t → t.2.1 = y → m.effect? = some t := by
      intro y hy t ht hty
      rcases heffect t ht with ⟨-, hold⟩ | ⟨hx, -⟩
      · exact hold
      · exact absurd (hty.symm.trans hx) hy
    -- The activation that is taken on keeps to what is listed, all others are spared.
    exact {
      ids := h.ids_spared hqueue hspares
      fits := fun y => by
        by_cases hy : y = x
        · rw [hy]
          exact hadvance.fits (h.fits x)
        · exact h.fits_spared hqueue hactivations hspares (hother hy) (heffect' hy)
      fresh := fun y hfresh => by
        have hy : y ≠ x := by
          rintro rfl
          omega
        exact h.fresh_spared hqueue hactivations (by rw [husage]) hspares (hother hy) (heffect' hy)
          hfresh
      running := fun a y activation ht => by
        rcases heffect _ ht with ⟨hy, hold⟩ | ⟨hy, hget⟩
        · exact h.running_spared hactivations hspares (hother hy) hold
        · exact (show y = x from hy) ▸ hget
      prompts := fun y activation i hget hi => by
        by_cases hy : y = x
        · subst hy
          rcases hprompt activation i hget hi with hasks | ⟨activation', hget', hi'⟩
          · exact hasks
          · exact h.prompts_spared hqueue hspares hget' hi'
        · exact h.prompts_spared hqueue hspares
            (get?_spared hactivations hspares (hother hy) hget) hi
      counters := fun a u =>
        h.counters_spared (by rw [husage]) (fun _ _ => counters_counted) hspares }

end Moment

end Doomtown
