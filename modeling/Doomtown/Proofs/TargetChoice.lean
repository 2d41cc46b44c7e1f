import Doomtown.Proofs.Aiming
import Mathlib.Data.List.Induction

/-!
# From the choice of a target to the effect

A target is chosen among those that are legal when the choice is opened, on the board and with the
targets that the activation has at that moment. What is chosen is noted as it was found then, and is
not checked again: meanwhile other activations may have run in front of a prompt, and other slots
may have been filled. So an effect may start on a target that is not legal any more. That happens if
and only if a deed since has spoilt the target for good (`Moment.target_legal_iff`).

A target is in reach of an activation if it was chosen or if a prompt that waits has a button for it
(`Engine.InReach`). Nothing gets in reach but by the step that opens the choice of targets, which
brings only legal ones in reach (`Moment.inReach_after`).
-/

namespace Doomtown

open Play

/-- A prompt with a button for a target of an activation. -/
def StepKind.LetsChoose (kind : StepKind) (x : ActivationId) (t : String × ChosenTarget) : Prop :=
  ∃ view p choices, kind = .prompt ⟨view, p, .target x t.1 choices⟩ ∧ t.2 ∈ choices

/-- No step lets a target be chosen but a prompt for one. -/
theorem StepKind.not_letsChoose {kind : StepKind} (h : kind.asksTarget = false) (x : ActivationId)
    (t : String × ChosenTarget) : ¬kind.LetsChoose x t := by
  rintro ⟨view, p, choices, rfl, -⟩
  simp [asksTarget] at h

namespace Engine

/-- Whether a target is a legal choice for a slot of its name, with the board and the activation as
they are. -/
def mayTarget (e : Engine) (x : ActivationId) (t : String × ChosenTarget) : Bool :=
  (e.activations.get? x).any fun activation =>
    (e.ability? activation.ability).any fun a =>
      a.targets.any fun slot => slot.name = t.1 && t.2 ∈ slot.choices e.board activation

/-- A target is in reach of an activation: it was chosen, or a prompt that waits lets it be. -/
def InReach (e : Engine) (x : ActivationId) (t : String × ChosenTarget) : Prop :=
  (∃ activation, e.activations.get? x = some activation ∧ t ∈ activation.targets) ∨
    ∃ s ∈ e.queue.order, s.kind.LetsChoose x t

/-- No target gets in reach that was not. -/
def Narrows (e e' : Engine) : Prop := ∀ x t, e'.InReach x t → e.InReach x t

variable {e e' e'' : Engine} {x y : ActivationId} {t : String × ChosenTarget}

theorem Narrows.refl (e : Engine) : e.Narrows e := fun _ _ => id

theorem Narrows.trans (h : e.Narrows e') (h' : e'.Narrows e'') : e.Narrows e'' :=
  fun x t ht => h x t (h' x t ht)

theorem narrows_of_chain (h : Relation.ReflTransGen Narrows e e') : e.Narrows e' :=
  link_of_chain .refl .trans h

/-! ## Plays that let nothing new be chosen -/

/-- What keeps or clears the targets that are recorded, and queues no prompt for a target. -/
theorem narrows_of (hrecords : ∀ y activation', e'.activations.get? y = some activation' →
      activation'.targets = [] ∨ ∃ activation, e.activations.get? y = some activation ∧
        activation'.targets = activation.targets)
    (hsteps : ∀ s ∈ e'.queue.order, s ∈ e.queue.order ∨ ∀ y t, ¬s.kind.LetsChoose y t) :
    e.Narrows e' := by
  rintro y t (⟨activation', hget', ht⟩ | ⟨s, hs, hchoose⟩)
  · rcases hrecords y activation' hget' with hnil | ⟨activation, hget, htargets⟩
    · rw [hnil] at ht
      simp at ht
    · exact .inl ⟨activation, hget, htargets ▸ ht⟩
  · rcases hsteps s hs with hold | hnot
    · exact .inr ⟨s, hold, hchoose⟩
    · exact absurd hchoose (hnot y t)

/-- What changes no activations and lets no new step wait. -/
theorem narrows_of_order (hactivations : e'.activations = e.activations)
    (horder : e'.queue.order ⊆ e.queue.order) : e.Narrows e' :=
  narrows_of (fun _ activation' hget' => .inr ⟨activation', hactivations ▸ hget', rfl⟩)
    fun _ hs => .inl (horder hs)

theorem Change.narrows (h : e.Change (fun _ => false) e') : e.Narrows e' := by
  refine narrows_of (fun y activation' hget' => .inr ⟨activation', ?_, rfl⟩) fun s hs => ?_
  · have hspares : e.Spares (fun _ => false) True e' := h.spares
    rcases hspares.activations y rfl with heq | ⟨_, -, -, hnone⟩
    · exact heq ▸ hget'
    · rw [hnone] at hget'
      simp at hget'
  · refine (h.keeps.steps s hs).imp_right fun hnew y t hchoose => ?_
    -- A prompt for a target belongs to an activation, and the change is about none.
    obtain ⟨view, p, choices, hkind, -⟩ := hchoose
    have hpart := hnew.2.part (y, .choose) (by rw [hkind]; rfl)
    simp at hpart

theorem narrows_post {kind : StepKind} (hkind : kind.asksTarget = false) :
    (post kind).Chains Narrows := by
  refine .bind (.view _) fun _ => .bind (.change fun e => ?_) fun _ => .answer _
  refine narrows_of (fun _ activation' hget' => .inr ⟨activation', hget', rfl⟩) fun s hs => ?_
  rcases StepQueue.mem_order_push.mp hs with hs | rfl
  · exact .inl hs
  · exact .inr (StepKind.not_letsChoose hkind)

theorem narrows_postNext {kind : StepKind} (hkind : kind.asksTarget = false) :
    (postNext kind).Chains Narrows := by
  refine .bind (.view _) fun _ => .bind (.change fun e => ?_) fun _ => .answer _
  refine narrows_of (fun _ activation' hget' => .inr ⟨activation', hget', rfl⟩) fun s hs => ?_
  rw [StepQueue.order_pushNext] at hs
  rcases List.mem_cons.mp hs with rfl | hs
  · exact .inr (StepKind.not_letsChoose hkind)
  · exact .inl hs

/-- A change of a record that keeps its targets. -/
theorem narrows_modifyActivation (x : ActivationId) {f : Activation → Activation}
    (hf : ∀ activation, (f activation).targets = activation.targets) :
    (modifyActivation x f).Chains Narrows := by
  refine .change fun e => narrows_of (fun y activation' hget' => .inr ?_) fun s hs => .inl hs
  by_cases hxy : x = y
  · subst hxy
    change (e.activations.modify x f).get? x = _ at hget'
    rw [IdMap.get?_modify, if_pos rfl] at hget'
    obtain ⟨activation, hget, rfl⟩ := Option.map_eq_some_iff.mp hget'
    exact ⟨activation, hget, hf activation⟩
  · change (e.activations.modify x f).get? y = _ at hget'
    rw [IdMap.get?_modify_of_ne _ hxy] at hget'
    exact ⟨activation', hget', rfl⟩

/-- A new activation has no targets. -/
theorem narrows_putActivation (x : ActivationId) {activation : Activation}
    (h : activation.targets = []) : (putActivation x activation).Chains Narrows := by
  refine .change fun e => narrows_of (fun y activation' hget' => ?_) fun s hs => .inl hs
  change (e.activations.insert x activation).get? y = _ at hget'
  rw [IdMap.get?_insert] at hget'
  split at hget'
  · obtain rfl := Option.some.inj hget'
    exact .inl h
  · exact .inr ⟨activation', hget', rfl⟩

theorem narrows_dropActivation (x : ActivationId) : (dropActivation x).Chains Narrows := by
  refine .change fun e => narrows_of (fun y activation' hget' => .inr ⟨activation', ?_, rfl⟩)
    fun s hs => .inl hs
  change (e.activations.erase x).get? y = _ at hget'
  rw [IdMap.get?_erase] at hget'
  split at hget'
  · simp at hget'
  · exact hget'

/-- Whatever handles activations lets nothing new be chosen. -/
theorem handles_narrows : Handles Narrows where
  board _ := (changes_onBoard _).mono fun _ _ => Change.narrows
  post := narrows_post
  postNext := narrows_postNext
  unqueue i := .change fun e => narrows_of_order rfl (e.queue.order_withdraw_sublist i).subset
  takeId := .bind (.view _) fun _ => .bind (.change fun _ => .refl _) fun _ => .answer _
  put x _ := narrows_putActivation x
  modify x _ := narrows_modifyActivation x
  drop := narrows_dropActivation
  retractable _ := .change fun _ => .refl _

/-- No deed lets anything new be chosen but by the choice of targets. -/
theorem spectates_narrows : Spectates Narrows where
  handles := handles_narrows
  changes := Change.narrows
  frame := narrows_of_order

/-- What is in reach behind a play that lets nothing new be chosen was in reach before. -/
theorem inReach_of_chains {α : Type} {p : Play Engine α} (hp : p.Chains Narrows)
    (h : (p.ends e).2.InReach x t) : e.InReach x t :=
  narrows_of_chain (hp e) x t h

/-! ## The choice of targets -/

/-- A target that is noted gets in reach, and no other. -/
theorem inReach_choose {slot : String} {target : ChosenTarget} {f : Activation → Activation}
    (hf : ∀ activation, (f activation).targets = activation.targets ++ [(slot, target)])
    (h : ({ e with activations := e.activations.modify x f } : Engine).InReach y t) :
    e.InReach y t ∨ y = x ∧ t = (slot, target) := by
  rcases h with ⟨activation', hget', ht⟩ | hwaits
  · change (e.activations.modify x f).get? y = _ at hget'
    by_cases hxy : x = y
    · subst hxy
      rw [IdMap.get?_modify, if_pos rfl] at hget'
      obtain ⟨activation, hget, rfl⟩ := Option.map_eq_some_iff.mp hget'
      rw [hf] at ht
      rcases List.mem_append.mp ht with ht | ht
      · exact .inl (.inl ⟨activation, hget, ht⟩)
      · exact .inr ⟨rfl, List.mem_singleton.mp ht⟩
    · rw [IdMap.get?_modify_of_ne _ hxy] at hget'
      exact .inl (.inl ⟨activation', hget', ht⟩)
  · exact .inl (.inr hwaits)

/-- An answer takes one of the targets that the prompt has. -/
theorem inReach_chooseTarget {slot : String} {choices : List ChosenTarget} {n : Nat}
    (h : ((chooseTarget x slot choices n).ends e).2.InReach y t) :
    e.InReach y t ∨ y = x ∧ slot = t.1 ∧ t.2 ∈ choices := by
  unfold chooseTarget at h
  cases hchoice : choices[n]? with
  | none =>
    rw [hchoice] at h
    exact .inl h
  | some target =>
    rw [hchoice] at h
    let noted : Engine := { e with
      activations := e.activations.modify x
        fun activation => { activation.choose slot target with prompt := none } }
    have hnoted : noted.InReach y t := inReach_of_chains (handles_narrows.postResolve x _) h
    refine (inReach_choose (fun _ => rfl) hnoted).imp_right ?_
    rintro ⟨rfl, rfl⟩
    exact ⟨rfl, rfl, List.mem_of_getElem? hchoice⟩

/-- A prompt brings in reach what it has buttons for. -/
theorem inReach_promptTarget (a : Ability) (activation : Activation) (slot : String)
    (choices : List ChosenTarget)
    (h : ((promptTarget a x activation slot choices).ends e).2.InReach y t) :
    e.InReach y t ∨ y = x ∧ slot = t.1 ∧ t.2 ∈ choices := by
  let kind : StepKind := .prompt (targetPrompt a e.board x activation slot choices)
  have hend : ((promptTarget a x activation slot choices).ends e).2 =
      { e with
        queue := e.queue.push kind
        activations := e.activations.modify x ({ · with prompt := some e.queue.nextStep }) } := rfl
  rw [hend] at h
  have hnoted := narrows_modifyActivation x (f := ({ · with prompt := some e.queue.nextStep }))
    (fun _ => rfl) { e with queue := e.queue.push kind }
  rcases narrows_of_chain hnoted y t h with hchosen | ⟨s, hs, hchoose⟩
  · exact .inl (.inl hchosen)
  · rcases StepQueue.mem_order_push.mp hs with hold | rfl
    · exact .inl (.inr ⟨s, hold, hchoose⟩)
    · obtain ⟨view, p, choices', hkind', ht⟩ := hchoose
      simp only [kind, targetPrompt, StepKind.prompt.injEq, Prompt.mk.injEq,
        Answer.target.injEq] at hkind'
      obtain ⟨-, -, rfl, rfl, rfl⟩ := hkind'
      exact .inr ⟨rfl, rfl, ht⟩

/-- The filling of slots brings in reach what is legal for one of them as it begins. -/
theorem inReach_fillSlots (a : Ability) (x : ActivationId) (activation : Activation) :
    ∀ (slots : List TargetSlot) (e : Engine),
      ((fillSlots a x activation slots).ends e).2.InReach y t →
        e.InReach y t ∨
          y = x ∧ ∃ slot ∈ slots, slot.name = t.1 ∧ t.2 ∈ slot.choices e.board activation
  | [], e, h => by
    have hnarrows : (fillSlots a x activation []).Chains Narrows :=
      .bind (narrows_modifyActivation x fun _ => rfl) fun _ => handles_narrows.postResolve x _
    exact .inl (inReach_of_chains hnarrows h)
  | slot :: rest, e, h => by
    have hlater : (y = x ∧ ∃ slot ∈ rest, slot.name = t.1 ∧ t.2 ∈ slot.choices e.board activation) →
        y = x ∧ ∃ s ∈ slot :: rest, s.name = t.1 ∧ t.2 ∈ s.choices e.board activation :=
      fun ⟨hy, s, hs, hlegal⟩ => ⟨hy, s, List.mem_cons_of_mem _ hs, hlegal⟩
    by_cases hhas : activation.hasTarget slot.name
    · rw [fillSlots_filled hhas] at h
      exact (inReach_fillSlots a x activation rest e h).imp_right hlater
    · rcases hchoices : slot.choices e.board activation with _ | ⟨target, _ | ⟨other, more⟩⟩
      · rw [fillSlots_missed hhas hchoices] at h
        have hcancelled : (modifyActivation x ({ · with cancelled := true })).Chains Narrows :=
          narrows_modifyActivation x fun _ => rfl
        exact .inl (inReach_of_chains hcancelled h)
      · rw [fillSlots_chosen hhas hchoices] at h
        rcases inReach_fillSlots a x activation rest _ h with hold | hnew
        · rcases inReach_choose (fun _ => rfl) hold with hold | ⟨rfl, rfl⟩
          · exact .inl hold
          · exact .inr ⟨rfl, slot, List.mem_cons_self, rfl, by simp [hchoices]⟩
        · exact .inr (hlater hnew)
      · rw [fillSlots_asked hhas hchoices] at h
        refine (inReach_promptTarget a activation slot.name _ h).imp_right ?_
        rintro ⟨hy, hname, ht⟩
        exact ⟨hy, slot, List.mem_cons_self, hname, hchoices ▸ ht⟩

end Engine

namespace Moment

variable {m : Moment} {d : Deed} {x : ActivationId} {t : String × ChosenTarget}

/-- A deed opens the choice of targets of an activation for which a target is legal. -/
def Finds (m : Moment) (d : Deed) (x : ActivationId) (t : String × ChosenTarget) : Prop :=
  (∃ i, m.starts? d = some ⟨i, .resolve x .chooseTargets⟩) ∧ m.engine.mayTarget x t

/-! ## One deed -/

/-- A step that was taken from the front leaves no more in reach. -/
theorem inReach_of_begin {e : Engine} {s : Step} {q : StepQueue} (htaken : e.queue.FrontTaken s q)
    (h : ({ e with queue := q } : Engine).InReach x t) : e.InReach x t :=
  Engine.spectates_narrows.front htaken x t h

/-- The filling of slots brings in reach what is legal as it begins. -/
theorem FillsSlots.inReach {y : ActivationId} {before : Activation} {a : Ability}
    (hfills : m.FillsSlots d y before a) (h : (m.after d).engine.InReach x t) :
    m.engine.InReach x t ∨ m.Finds d x t := by
  obtain ⟨i, q, hstarts, htaken, hafter⟩ := hfills.fills
  rw [hafter] at h
  rcases Engine.inReach_fillSlots a y before a.targets _ h with
    hold | ⟨rfl, slot, hslot, hname, hlegal⟩
  · exact .inl (inReach_of_begin htaken hold)
  · refine .inr ⟨⟨i, hstarts⟩, ?_⟩
    simp only [Engine.mayTarget, hfills.filed, hfills.ability, Option.any_some, List.any_eq_true]
    exact ⟨slot, hslot, by simp [hname, hlegal]⟩

/-- What an answer tells was in reach before, by the prompt. -/
theorem TellsTarget.inReach {y : ActivationId} {slot : String} {choices : List ChosenTarget}
    {n : Nat} (htells : m.TellsTarget d y slot choices n)
    (h : (m.after d).engine.InReach x t) : m.engine.InReach x t := by
  obtain ⟨i, view, p, q, -, -, htaken, hafter⟩ := htells.tells
  rw [hafter] at h
  rcases Engine.inReach_chooseTarget (e := { m.engine with queue := q }) h with
    hold | ⟨rfl, rfl, ht⟩
  · exact inReach_of_begin htaken hold
  · have hprompt : (⟨i, .prompt ⟨view, p, .target x t.1 choices⟩⟩ : Step) ∈
        m.engine.queue.order := by
      rw [htaken.order]
      exact List.mem_cons_self
    exact .inr ⟨_, hprompt, view, p, choices, rfl, ht⟩

/-- What gets in reach by a deed is legal as the deed opens the choice of targets. -/
theorem inReach_after (h : (m.after d).engine.InReach x t) :
    m.engine.InReach x t ∨ m.Finds d x t := by
  rcases after_spectates Engine.spectates_narrows m d with
    hchain | ⟨y, before, a, hfills⟩ | ⟨y, slot, choices, n, htells⟩
  · exact .inl (Engine.narrows_of_chain hchain x t h)
  · exact hfills.inReach h
  · exact .inl (htells.inReach h)

/-! ## Whole runs -/

/-- The first of some deeds opens the choice of targets and brings a target in reach, which is legal
at that moment. From then on the target stays in reach. -/
structure Captures (m : Moment) (d : Deed) (rest : List Deed) (x : ActivationId)
    (t : String × ChosenTarget) : Prop where
  finds : m.Finds d x t
  new : ¬m.engine.InReach x t
  stays : ∀ later, later <+: rest → (m.run (d :: later)).engine.InReach x t

/-- What is in reach after a run was captured by one of its deeds. -/
theorem inReach_run (b : Board) (ds : List Deed) (h : ((start b).run ds).engine.InReach x t) :
    ∃ past d rest, ds = past ++ d :: rest ∧ ((start b).run past).Captures d rest x t := by
  induction ds using List.reverseRecOn with
  | nil =>
    rcases h with ⟨activation, hget, -⟩ | ⟨s, hs, -⟩
    · simp [run, start, Engine.new, IdMap.get?_empty] at hget
    · simp [run, start, Engine.new, StepQueue.order, StepQueue.children, StepQueue.empty] at hs
  | append_singleton ds d ih =>
    rw [run_append] at h
    by_cases hold : ((start b).run ds).engine.InReach x t
    · obtain ⟨past, d', rest, rfl, hcaptures⟩ := ih hold
      refine ⟨past, d', rest ++ [d], by simp, hcaptures.finds, hcaptures.new,
        fun later hlater => ?_⟩
      rcases List.prefix_concat_iff.mp hlater with rfl | hearlier
      · rw [← List.cons_append, run_append, ← run_append (start b)]
        exact h
      · exact hcaptures.stays later hearlier
    · -- It got in reach by the last deed.
      refine ⟨ds, d, [], rfl, (inReach_after h).resolve_left hold, hold, fun later hlater => ?_⟩
      rw [List.prefix_nil.mp hlater]
      exact h

/-- A target was legal in the course of a run, until a deed after which it never was again. -/
def Spoils (m : Moment) (ds : List Deed) (x : ActivationId) (t : String × ChosenTarget) : Prop :=
  ∃ past d rest, ds = past ++ d :: rest ∧ (m.run past).engine.mayTarget x t ∧
    ∀ later, later <+: rest → ((m.run (past ++ d :: later)).engine.mayTarget x t) = false

/-- What was legal once is legal at the end, or has been spoilt for good. -/
theorem spoils_of_not_mayTarget {ds : List Deed} (honce : m.engine.mayTarget x t)
    (hend : (m.run ds).engine.mayTarget x t = false) : m.Spoils ds x t := by
  induction ds using List.reverseRecOn with
  | nil => simp [run, honce] at hend
  | append_singleton ds d ih =>
    cases hlast : (m.run ds).engine.mayTarget x t with
    | true =>
      refine ⟨ds, d, [], rfl, hlast, fun later hlater => ?_⟩
      rw [List.prefix_nil.mp hlater]
      exact hend
    | false =>
      obtain ⟨past, d', rest, rfl, hlegal, hspoilt⟩ := ih hlast
      refine ⟨past, d', rest ++ [d], by simp, hlegal, fun later hlater => ?_⟩
      rcases List.prefix_concat_iff.mp hlater with rfl | hearlier
      · simpa using hend
      · exact hspoilt later hearlier

/-- What is spoilt is not legal at the end. -/
theorem Spoils.not_mayTarget {ds : List Deed} (h : m.Spoils ds x t) :
    (m.run ds).engine.mayTarget x t = false := by
  obtain ⟨past, d, rest, rfl, -, hspoilt⟩ := h
  exact hspoilt rest (List.prefix_refl rest)

theorem filed_of_advance {admits : AbilityId → Prop} {a a' : Option Activation} {ps ps' : List Part}
    (h : Advance admits a ps (some .effect) a' ps') : ∃ activation, a = some activation := by
  cases h with
  | execute => exact ⟨_, rfl⟩

/-- An effect that starts is of an activation that is filed. -/
theorem Sound.filed_of_effect (h : m.Sound) (hd : m.occurrence d = some (x, .effect)) :
    ∃ activation, m.engine.activations.get? x = some activation := by
  have hpassage := passage h d
  rw [hd] at hpassage
  generalize ho : some (x, Occurrence.effect) = o at hpassage
  cases hpassage with
  | spare => simp at ho
  | @step _ y o' _ _ hadvance _ _ _ =>
    cases o' with
    | none => simp at ho
    | some o' =>
      obtain ⟨rfl, rfl⟩ := Prod.mk.inj (Option.some.inj ho)
      exact filed_of_advance hadvance

/-- When an effect starts, each of its targets was captured by a deed of the run, and was legal
then. It is legal now if and only if no deed has spoilt it for good, from the one that captured it
on. -/
theorem target_legal_iff (b : Board) (ds : List Deed) (x : ActivationId)
    (h : ((start b).run ds).occurrence .turn = some (x, .effect)) :
    ∃ activation, ((start b).run ds).engine.activations.get? x = some activation ∧
      ∀ t ∈ activation.targets, ∃ past d rest, ds = past ++ d :: rest ∧
        ((start b).run past).Captures d rest x t ∧
        (((start b).run ds).engine.mayTarget x t ↔
          ¬((start b).run past).Spoils (d :: rest) x t) := by
  obtain ⟨activation, hget⟩ := ((sound_start b).run ds).filed_of_effect h
  refine ⟨activation, hget, fun t ht => ?_⟩
  obtain ⟨past, d, rest, rfl, hcaptures⟩ := inReach_run b ds (.inl ⟨activation, hget, ht⟩)
  refine ⟨past, d, rest, rfl, hcaptures, ?_⟩
  rw [run_append]
  constructor
  · intro hlegal hspoilt
    rw [hspoilt.not_mayTarget] at hlegal
    simp at hlegal
  · intro hnot
    by_contra hillegal
    exact hnot (spoils_of_not_mayTarget hcaptures.finds.2 (by simpa using hillegal))

/-- The deed has an action that is aimed at a player who is not cheatin', and another that leaves
both players cheatin'. While the first asks for its target the second is used, and then the first is
told its target. -/
def cheatinWhileAsked : List Deed :=
  [.call (.attach ⟨3⟩ {
      kind := .action
      targets := [⟨"target", .players fun _ _ player => !player.cheatin⟩]
      handler := some fun _ => .done }),
    .call (.attach ⟨3⟩ {
      kind := .action
      handler := some fun _ =>
        .order (.setCheatin ⟨0⟩ true) fun _ => .order (.setCheatin ⟨1⟩ true) fun _ => .done }),
    .call (.order (.activate ⟨0⟩ ⟨0⟩)), .turn, .turn,
    .call (.order (.activate ⟨1⟩ ⟨0⟩)), .turn, .turn, .turn, .go, .go, .go, .turn, .turn,
    .answer ⟨0⟩ 1, .turn]

theorem target_legal_iff_cheatinWhileAsked :
    ((start deedInPlay).run cheatinWhileAsked).occurrence .turn = some (⟨0⟩, .effect) ∧
      ∃ activation,
        ((start deedInPlay).run cheatinWhileAsked).engine.activations.get? ⟨0⟩ = some activation ∧
        ∀ t ∈ activation.targets, ∃ past d rest, cheatinWhileAsked = past ++ d :: rest ∧
          ((start deedInPlay).run past).Captures d rest ⟨0⟩ t ∧
          (((start deedInPlay).run cheatinWhileAsked).engine.mayTarget ⟨0⟩ t ↔
            ¬((start deedInPlay).run past).Spoils (d :: rest) ⟨0⟩ t) := by
  have heffect : ((start deedInPlay).run cheatinWhileAsked).occurrence .turn =
      some (⟨0⟩, .effect) := by decide +kernel
  exact ⟨heffect, target_legal_iff deedInPlay cheatinWhileAsked ⟨0⟩ heffect⟩

/-- An effect may start on a target that is not legal: here it is aimed at a player who is cheatin'
by then. -/
theorem target_not_legal_cheatinWhileAsked :
    ¬∀ (b : Board) (ds : List Deed) (x : ActivationId) (activation : Activation),
      ((start b).run ds).occurrence .turn = some (x, .effect) →
      ((start b).run ds).engine.activations.get? x = some activation →
      ∀ t ∈ activation.targets, ((start b).run ds).engine.mayTarget x t := by
  intro h
  have hillegal : (((start deedInPlay).run cheatinWhileAsked).engine.activations.get? ⟨0⟩).any
      (fun activation => activation.targets.any fun t =>
        !((start deedInPlay).run cheatinWhileAsked).engine.mayTarget ⟨0⟩ t) = true := by
    decide +kernel
  obtain ⟨activation, hget, hany⟩ := (Option.any_eq_true _ _).mp hillegal
  obtain ⟨t, ht, hnot⟩ := List.any_eq_true.mp hany
  have hlegal := h deedInPlay cheatinWhileAsked ⟨0⟩ activation (by decide +kernel) hget t ht
  simp [hlegal] at hnot

end Moment

end Doomtown
