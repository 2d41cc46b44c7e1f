import Doomtown.Proofs.Beginnings
import Doomtown.Proofs.BoardPlays
import Doomtown.Proofs.StrandedCards
import Doomtown.Proofs.UsageCount

/-!
# Headlines in a round

An ability of a headline is not legal once a headline was used in the round, and that one was used
is noted when the effect of its ability has run. Prompts, other activations and whole windows can
come between the check and the note. So between two rounds' beginnings more than one headline is
played if and only if one that started while none had been used is executed after another was
(`Moment.keepsHeadline_iff`), and that can be (`Moment.not_keepsHeadline_headlineInHeadline`).
-/

namespace Doomtown

open Play

/-! ## What plays leave the note alone -/

namespace Board

variable {b b' : Board}

/-- Whether a headline was used is noted as before. -/
def SameHeadline (b b' : Board) : Prop := b'.round.headlineUsed = b.round.headlineUsed

theorem sameHeadline_change {f : Board → Board} (h : ∀ b, (f b).round = b.round) :
    (change f).Chains SameHeadline :=
  .change fun b => by rw [SameHeadline, h]

theorem sameHeadline_of_chain (h : Relation.ReflTransGen SameHeadline b b') : b.SameHeadline b' :=
  link_of_chain (fun _ => rfl) (fun h h' => Eq.trans h' h) h

theorem round_modifyZone (b : Board) (owner : PlayerId) (f : Zone → Zone) (l : Location) :
    (b.modifyZone owner f l).round = b.round := by
  cases l <;> rfl

theorem sameHeadline_modifyCard (c : CardId) (f : Card → Card) :
    (modifyCard c f).Chains SameHeadline :=
  .bind (.discard (chains_getCard c)) fun _ => sameHeadline_change fun _ => rfl

theorem sameHeadline_modifyPlayer (p : PlayerId) (f : Player → Player) :
    (modifyPlayer p f).Chains SameHeadline :=
  .bind (.discard (chains_getPlayer p)) fun _ => sameHeadline_change fun _ => rfl

theorem sameHeadline_spend (p : PlayerId) (amount : Nat) : (spend p amount).Chains SameHeadline :=
  .bind (chains_getPlayer p) fun _ => .ite (sameHeadline_modifyPlayer p _) (.fail _)

theorem sameHeadline_sendHome (c : CardId) : (sendHome c).Chains SameHeadline :=
  .bind (sameHeadline_change fun _ => rfl) fun _ => sameHeadline_modifyCard c _

theorem sameHeadline_takeTimestamp : takeTimestamp.Chains SameHeadline :=
  .bind (.view _) fun _ => .bind (sameHeadline_change fun _ => rfl) fun _ => .answer _

theorem sameHeadline_moveCard (c : CardId) (destination : Location) :
    (moveCard c destination).Chains SameHeadline := by
  refine .single fun b => ?_
  rcases moveCard_cases c destination b with ⟨e, hends⟩ | ⟨card, -, -, hends⟩
  · rw [hends]
    exact rfl
  · rw [hends]
    exact congrArg RoundState.headlineUsed
      ((round_modifyZone _ _ _ _).trans (round_modifyZone _ _ _ _))

end Board

open Board

/-- A payment that is undone. -/
theorem CostReceipt.sameHeadline_revert (r : CostReceipt) : r.revert.Chains SameHeadline := by
  cases r with
  | booted c => exact sameHeadline_modifyCard c _
  | ghostRockSpent p amount => exact sameHeadline_modifyPlayer p _
  | moved c origin destination => exact .discard (sameHeadline_moveCard c origin)

theorem Cost.sameHeadline_pay (cost : Cost) (x : Activation) :
    (cost.pay x).Chains SameHeadline := by
  have hboot : ∀ c, (payBoot c).Chains SameHeadline := fun c =>
    .bind (sameHeadline_modifyCard c _) fun _ => .answer _
  have hmove : ∀ l, (payMove x.source l).Chains SameHeadline := fun l =>
    .bind (sameHeadline_moveCard x.source l) fun _ => .answer _
  unfold Cost.pay
  cases cost with
  | bootSelf => exact .bind .look fun _ => .ite (.bind (.fail _) fun _ => hboot _) (hboot _)
  | bootCard c => exact .bind .look fun _ => .ite (.bind (.fail _) fun _ => hboot c) (hboot c)
  | payGhostRock amount =>
    have hspend := Play.Chains.bind (sameHeadline_spend x.player amount) fun _ =>
      Play.Chains.answer (CostReceipt.ghostRockSpent x.player amount)
    exact .bind .look fun _ => .ite (.bind (.fail _) fun _ => hspend) hspend
  | discardSelf | aceSelf | playAction =>
    exact .bind .look fun _ => .ite (.bind (.fail _) fun _ => hmove _) (hmove _)

namespace Payment

theorem sameHeadline_revertAll :
    ∀ receipts : List CostReceipt, (revertAll receipts).Chains SameHeadline
  | [] => .answer _
  | r :: rest => .bind r.sameHeadline_revert fun _ => sameHeadline_revertAll rest

theorem sameHeadline_payFrom (title : String) (x : Activation) :
    ∀ (costs : List Cost) (paid : List CostReceipt),
      (payFrom title x paid costs).Chains SameHeadline
  | [], _ => .answer _
  | cost :: rest, paid => by
    refine .bind (.attempt (cost.sameHeadline_pay x)) fun r => ?_
    cases r with
    | ok receipt => exact sameHeadline_payFrom title x rest (receipt :: paid)
    | error cause => exact .bind (sameHeadline_revertAll paid) fun _ => .fail _

theorem sameHeadline_payAll (title : String) (x : Activation) (costs : List Cost) :
    (payAll title x costs).Chains SameHeadline :=
  .bind .look fun _ => .ite (.bind (.fail _) fun _ => sameHeadline_payFrom title x costs [])
    (sameHeadline_payFrom title x costs [])

theorem sameHeadline_unpayAll (receipts : List CostReceipt) :
    (unpayAll receipts).Chains SameHeadline := by
  unfold unpayAll
  induction receipts.reverse with
  | nil => exact .answer _
  | cons r rest ih =>
    refine .bind (.bind .look fun _ => ?_) fun _ => ih
    exact .ite (.bind (.fail _) fun _ => r.sameHeadline_revert) r.sameHeadline_revert

end Payment

theorem Board.suits_sameHeadline : Suits SameHeadline where
  refl _ := rfl
  trans h h' := Eq.trans h' h
  takeTimestamp := sameHeadline_takeTimestamp
  moveCard := sameHeadline_moveCard
  payAll := Payment.sameHeadline_payAll

namespace Engine

variable {e e' : Engine}

/-- Whether a headline was used is noted as before. -/
def SameHeadline (e e' : Engine) : Prop := e.board.SameHeadline e'.board

theorem sameHeadline_retract (a : AbilityId) (p : PlayerId) :
    e.SameHeadline ((retract a p).ends e).2 := by
  have hboard : ∀ activation : Activation, e.board.SameHeadline
      ((Payment.unpayAll activation.receipts).ends e.board).2 := fun activation =>
    Board.sameHeadline_of_chain (Payment.sameHeadline_unpayAll activation.receipts e.board)
  have hretracts := retract_ends e a p
  generalize (retract a p).ends e = ending at hretracts
  cases hretracts with
  | refused => exact rfl
  | @failed _ activation _ _ _ _ _ hpay | @retracted _ activation _ _ _ _ hpay =>
    have hsame := hboard activation
    rw [hpay] at hsame
    exact hsame

/-- Of all that scripts order only the beginning of a round changes what is noted. -/
theorem sameHeadline_order (o : Order) (h : o ≠ .beginRound) :
    e.SameHeadline (o.carryOut.ends e).2 := by
  have hboard : ∀ {α : Type} {p : Play Board α}, p.Chains Board.SameHeadline →
      e.SameHeadline ((onBoard p).ends e).2 := fun hp =>
    suits_sameHeadline.boards_of_chain (suits_sameHeadline.onBoard hp e)
  have hdiscard : ∀ {α : Type} {p : Play Engine α}, p.Chains (Boards Board.SameHeadline) →
      e.SameHeadline ((discard p).ends e).2 := fun hp =>
    suits_sameHeadline.boards_of_chain (Play.Chains.discard hp e)
  have hplain : ∀ {α : Type} {p : Play Engine α}, p.Chains (Boards Board.SameHeadline) →
      e.SameHeadline (p.ends e).2 := fun hp => suits_sameHeadline.boards_of_chain (hp e)
  cases o with
  | shift c l => exact hdiscard (suits_sameHeadline.onBoard (sameHeadline_moveCard c l))
  | move c l => exact hdiscard (suits_sameHeadline.relocate c l)
  | message | note | respond => exact rfl
  | register a => exact hplain (suits_sameHeadline.register a)
  | unregister a => exact hplain (suits_sameHeadline.unregister a)
  | activate a p => exact hplain (suits_sameHeadline.activate a p)
  | retract a p => exact sameHeadline_retract a p
  | resume => exact hplain chains_resume
  | withdraw i => exact hplain (suits_sameHeadline.withdraw i)
  | beginRound => exact absurd rfl h
  | setPhase | setWindow | setActivePlayer => exact hboard (.change fun _ => rfl)
  | spend p n => exact hboard (sameHeadline_spend p n)
  | sendHome c => exact hboard (sameHeadline_sendHome c)
  | gain p | modifyRank p | setCheatin p | restrict p => exact hboard (sameHeadline_modifyPlayer p _)
  | boot c | unboot c | addControl c | setInfluence c | setBlank c | setController c =>
    exact hboard (sameHeadline_modifyCard c _)

/-- That a headline was used is noted as its ability's effect is concluded. -/
theorem headlineUsed_conclude (a : Ability) (x : ActivationId) (activation : Activation) :
    ((conclude a x activation).ends e).2.board.round.headlineUsed =
      (e.board.round.headlineUsed || e.board.cardIs a.source (·.hasKeyword .headline)) := by
  let e₁ : Engine := { e with usage := e.usage.increment activation.ability }
  obtain ⟨e₂, hnote, hused⟩ : ∃ e₂, (noteHeadline a.source).ends e₁ = (.ok (), e₂) ∧
      e₂.board.round.headlineUsed =
        (e.board.round.headlineUsed || e.board.cardIs a.source (·.hasKeyword .headline)) := by
    unfold noteHeadline
    rw [ends_bind_ok (ends_look e₁)]
    cases hcard : e.board.cardIs a.source (·.hasKeyword .headline) with
    | true =>
      rw [Bool.or_true]
      exact ⟨_, rfl, rfl⟩
    | false =>
      rw [Bool.or_false]
      exact ⟨e₁, rfl, rfl⟩
  have hrest : (do
      modifyActivation x ({ · with stage := .executed })
      discardPlayed a.source
      raise (.abilityResolved activation.ability a.source activation.player) (.emitted x)
      discard (post (.complete x)) : Play Engine Unit).Chains (Boards Board.SameHeadline) :=
    suits_sameHeadline.ended a x activation
  unfold conclude
  rw [ends_bind_ok (ends_change _ e), ends_bind_ok hnote]
  exact Eq.trans (suits_sameHeadline.boards_of_chain (hrest e₂)) hused

end Engine

namespace Moment

variable {m : Moment} {d d' : Deed} {x : ActivationId} {b : Board} {ds past mid rest : List Deed}

/-! ## Headlines that are played -/

/-- Whether a headline was used in the round. -/
def headlineUsed (m : Moment) : Bool := m.engine.board.round.headlineUsed

/-- Whether an activation is of an ability on a headline. -/
def isHeadline (m : Moment) (x : ActivationId) : Bool :=
  (m.engine.activations.get? x).any fun activation =>
    m.engine.board.cardIs activation.source (·.hasKeyword .headline)

/-- An activation of an ability on a headline is executed by a deed. -/
structure PlaysHeadline (m : Moment) (d : Deed) (x : ActivationId) : Prop where
  executed : .reached .executed ∈ happenings x m d
  headline : m.isHeadline x

/-- Nobody who sets up the board writes whether a headline was used. -/
def LeavesHeadline (m : Moment) : Deed → Prop
  | .call (.board f) => m.engine.board.SameHeadline (f m.engine.board)
  | _ => True

/-- Whether a round begins by a deed. -/
def beginsRound (m : Moment) (d : Deed) : Bool :=
  match m.gives d with
  | some .beginRound => true
  | _ => false

/-- Between two beginnings of a round at most one headline is played in a run. -/
def KeepsHeadline (b : Board) (ds : List Deed) : Prop :=
  ∀ past mid rest, ds = past ++ (mid ++ rest) →
    Along (fun m d => m.beginsRound d = false) ((start b).run past) mid →
    ∀ xs : List ActivationId, xs.Nodup →
      (∀ x ∈ xs, ∃ past' d rest', mid = past' ++ d :: rest' ∧
        (((start b).run past).run past').PlaysHeadline d x) → xs.length ≤ 1

/-- In a run an activation starts where no headline was used or its card is none, and is executed as
one on a headline after one was used. -/
def LateHeadline (b : Board) (ds : List Deed) : Prop :=
  ∃ past d mid d' rest x, ds = past ++ d :: (mid ++ d' :: rest) ∧
    .reached .legalityChecked ∈ happenings x ((start b).run past) d ∧
    (((start b).run (past ++ [d])).headlineUsed = false ∨
      ((start b).run (past ++ [d])).isHeadline x = false) ∧
    ((start b).run (past ++ d :: mid)).PlaysHeadline d' x ∧
    ((start b).run (past ++ d :: mid)).headlineUsed = true

/-- The activation on a headline whose use is counted by a deed. -/
def headline? (m : Moment) (d : Deed) : Option ActivationId :=
  ((m.occurrence d).filter fun t => t.2 = .counted ∧ m.isHeadline t.1).map (·.1)

/-- The activations on headlines whose uses are counted by some deeds. -/
def headlines : Moment → List Deed → List ActivationId
  | _, [] => []
  | m, d :: ds => (m.headline? d).toList ++ headlines (m.after d) ds

theorem headline?_eq_some_iff :
    m.headline? d = some x ↔ m.occurrence d = some (x, .counted) ∧ m.isHeadline x := by
  unfold headline?
  constructor
  · intro h
    obtain ⟨⟨y, o⟩, hfilter, rfl⟩ := Option.map_eq_some_iff.mp h
    obtain ⟨ho, hcounts⟩ := Option.filter_eq_some_iff.mp hfilter
    obtain ⟨rfl, hheadline⟩ : o = .counted ∧ m.isHeadline y := by simpa using hcounts
    exact ⟨ho, hheadline⟩
  · rintro ⟨ho, hheadline⟩
    simp [ho, hheadline]

/-- Of a filed activation that is executed by a deed the deed counts the use, and otherwise. -/
theorem Sound.playsHeadline_iff (h : m.Sound) :
    m.PlaysHeadline d x ↔ m.occurrence d = some (x, .counted) ∧ m.isHeadline x := by
  constructor
  · rintro ⟨hexecuted, hheadline⟩
    refine ⟨?_, hheadline⟩
    obtain ⟨activation, hget, -⟩ := (Option.any_eq_true _ _).mp hheadline
    rcases (Moment.passage h d).spared_or_taken x with ⟨_, _, -, -, -, hbetween⟩ |
      ⟨o, hadvance, -, -, hbetween⟩
    · simp [happenings, hbetween] at hexecuted
    · rw [happenings, hbetween] at hexecuted
      obtain ⟨rfl, -⟩ := hadvance.executes hexecuted
      have hoccurred : .occurred .counted ∈ between x m (m.occurrence d) (m.after d) := by
        rw [hbetween]
        simp [stepHappenings]
      exact occurrence_of_mem_between hoccurred
  · rintro ⟨ho, hheadline⟩
    obtain ⟨activation, hget, -⟩ := (Option.any_eq_true _ _).mp hheadline
    have hcounts : m.Counts d x activation.ability := ⟨ho, by rw [abilityOf?, hget]; rfl⟩
    exact ⟨(hcounts.executes h).1, hheadline⟩

theorem mem_headlines (h : m.Sound) : x ∈ headlines m ds ↔
    ∃ past d rest, ds = past ++ d :: rest ∧ (m.run past).PlaysHeadline d x := by
  induction ds generalizing m with
  | nil => simp [headlines]
  | cons d ds ih =>
    rw [headlines, List.mem_append, Option.mem_toList, headline?_eq_some_iff,
      ← h.playsHeadline_iff, ih (h.after d)]
    constructor
    · rintro (hplays | ⟨past, d', rest, rfl, hplays⟩)
      · exact ⟨[], d, ds, rfl, hplays⟩
      · exact ⟨d :: past, d', rest, rfl, hplays⟩
    · rintro ⟨past, d', rest, hsplit, hplays⟩
      cases past with
      | nil =>
        obtain ⟨rfl, -⟩ := List.cons.inj hsplit
        exact .inl hplays
      | cons d₁ past =>
        obtain ⟨rfl, rfl⟩ := List.cons.inj hsplit
        exact .inr ⟨past, d', rest, rfl, hplays⟩

/-! ## What is noted -/

theorem gives_of_beginsRound (h : m.beginsRound d = true) : m.gives d = some .beginRound := by
  unfold beginsRound at h
  split at h
  · assumption
  · simp at h

theorem beginsRound_of_gives {o : Order} (hgives : m.gives d = some o)
    (h : m.beginsRound d = false) : o ≠ .beginRound := by
  rintro rfl
  simp [beginsRound, hgives] at h

/-- With a round begins that no headline was used in it. -/
theorem headlineUsed_of_beginsRound (h : m.beginsRound d = true) :
    (m.after d).headlineUsed = false := by
  unfold headlineUsed
  rw [(after_gives (gives_of_beginsRound h)).1]
  change ((Engine.beginRound).ends m.engine).2.board.round.headlineUsed = false
  unfold Engine.beginRound
  rw [ends_bind_ok (ends_change _ _), ends_bind_ok (ends_look _), ends_bind_ok (ends_log _ _)]
  exact suits_sameHeadline.boards_of_chain (suits_sameHeadline.raise _ _ _)

/-- While no script runs no use is counted. -/
theorem headline?_idle (h : m.running = none) : m.headline? d = none := by
  cases hsome : m.headline? d with
  | none => rfl
  | some x =>
    obtain ⟨_, _, -, hrunning⟩ := running_of_counted (headline?_eq_some_iff.mp hsome).1
    simp [h] at hrunning

/-- But for the beginning of a round and the end of an effect, no deed changes what is noted. -/
theorem sameHeadline_after (hleaves : m.LeavesHeadline d) (hkeeps : m.beginsRound d = false)
    (hgoes : ∀ a x activation, m.running ≠ some ⟨.effect a x activation, .done⟩) :
    m.engine.SameHeadline (m.after d).engine := by
  refine suits_sameHeadline.after m d (fun f _ hd => ?_) (fun o ho => ?_) fun a x activation h =>
    absurd h (hgoes a x activation)
  · subst hd
    exact hleaves
  · exact Engine.sameHeadline_order o (beginsRound_of_gives ho hkeeps)

/-- When an effect has ended it is noted whether its card is a headline. -/
theorem headlineUsed_close {e : Engine} {task : Task}
    (heffect : ∀ a x activation, task = .effect a x activation →
      e.activations.get? x = some activation ∧ a.source = activation.source) :
    (after ⟨e, some ⟨task, .done⟩⟩ .go).headlineUsed =
      (headlineUsed ⟨e, some ⟨task, .done⟩⟩ ||
        (headline? ⟨e, some ⟨task, .done⟩⟩ .go).isSome) := by
  cases task with
  | plain => exact (Bool.or_false _).symm
  | event event =>
    have hopens := suits_sameHeadline.boards_of_chain (suits_sameHeadline.openWindow event e)
    exact hopens.trans (Bool.or_false _).symm
  | effect a x activation =>
    obtain ⟨hget, hsource⟩ := heffect a x activation rfl
    have hheadline : isHeadline ⟨e, some ⟨.effect a x activation, .done⟩⟩ x =
        e.board.cardIs a.source (·.hasKeyword .headline) := by
      rw [isHeadline, hget, Option.any_some, hsource]
    refine (Engine.headlineUsed_conclude a x activation).trans (congrArg _ ?_)
    rw [← hheadline]
    unfold headline?
    cases hx : isHeadline ⟨e, some ⟨.effect a x activation, .done⟩⟩ x <;>
      simp [occurrence, hx, Option.filter]

/-- No headline is played while a script goes on. -/
theorem headline?_go {e : Engine} {task : Task} {script : Script} (hscript : script ≠ .done) :
    headline? ⟨e, some ⟨task, script⟩⟩ .go = none := by
  cases hsome : headline? ⟨e, some ⟨task, script⟩⟩ .go with
  | none => rfl
  | some x =>
    obtain ⟨_, _, -, hrunning⟩ := running_of_counted (headline?_eq_some_iff.mp hsome).1
    obtain ⟨-, rfl⟩ := Running.mk.inj (Option.some.inj hrunning)
    exact absurd rfl hscript

/-- But for the beginning of a round, that a headline was used is noted where one is played, and
nowhere else. -/
theorem Reached.headlineUsed_after (h : m.Reached) (hleaves : m.LeavesHeadline d)
    (hkeeps : m.beginsRound d = false) :
    (m.after d).headlineUsed = (m.headlineUsed || (m.headline? d).isSome) := by
  have hsame : m.engine.SameHeadline (m.after d).engine → m.headline? d = none →
      (m.after d).headlineUsed = (m.headlineUsed || (m.headline? d).isSome) := by
    intro hsame hnone
    rw [hnone, Option.isSome_none, Bool.or_false]
    exact hsame
  cases hrunning : m.running with
  | none =>
    have hgoes := sameHeadline_after hleaves hkeeps fun a x activation h => by simp [hrunning] at h
    exact hsame hgoes (headline?_idle hrunning)
  | some r =>
    have hsound := h.sound
    have hsource : ∀ a x activation, m.effect? = some (a, x, activation) →
        a.source = activation.source := fun _ _ _ => h.sourced.source_of_effect hsound
    clear h
    obtain ⟨e, running⟩ := m
    subst hrunning
    obtain ⟨task, script⟩ := r
    cases d with
    | go =>
      by_cases hscript : script = .done
      · subst hscript
        refine headlineUsed_close fun a x activation htask => ?_
        subst htask
        exact ⟨hsound.running a x activation rfl, hsource a x activation rfl⟩
      · have hgoes := sameHeadline_after hleaves hkeeps fun a x activation h =>
          hscript (Running.mk.inj (Option.some.inj h)).2
        exact hsame hgoes (headline?_go hscript)
    | _ => cases task <;> cases script <;> exact hsame rfl rfl

/-- Where a headline was used one was played since the round has begun. -/
theorem exists_headline (hstart : b.round.headlineUsed = false)
    (hleaves : Along LeavesHeadline (start b) ds)
    (hused : ((start b).run ds).headlineUsed = true) :
    ∃ past d rest x, ds = past ++ d :: rest ∧ ((start b).run past).PlaysHeadline d x ∧
      ((start b).run past).beginsRound d = false ∧
      Along (fun m d => m.beginsRound d = false) ((start b).run (past ++ [d])) rest := by
  induction ds using List.reverseRecOn with
  | nil =>
    rw [show ((start b).run []).headlineUsed = false from hstart] at hused
    simp at hused
  | append_singleton ds d ih =>
    obtain ⟨hleaves, hlast, -⟩ := along_append.mp hleaves
    have hreached : ((start b).run ds).Reached := ⟨b, ds, rfl⟩
    rw [run_append] at hused
    change (((start b).run ds).after d).headlineUsed = true at hused
    cases hkeeps : ((start b).run ds).beginsRound d with
    | false =>
      rw [hreached.headlineUsed_after hlast hkeeps] at hused
      cases hx : ((start b).run ds).headline? d with
      | some x =>
        have hplays := hreached.sound.playsHeadline_iff.mpr (headline?_eq_some_iff.mp hx)
        exact ⟨ds, d, [], x, rfl, hplays, hkeeps, trivial⟩
      | none =>
        rw [hx, Option.isSome_none, Bool.or_false] at hused
        obtain ⟨past, d', rest, x, rfl, hplays, hround, hrest⟩ := ih hleaves hused
        refine ⟨past, d', rest ++ [d], x, by simp, hplays, hround, ?_⟩
        rw [along_append, ← run_append]
        exact ⟨hrest, by simpa using hkeeps, trivial⟩
    | true =>
      rw [headlineUsed_of_beginsRound hkeeps] at hused
      simp at hused

/-! ## Headlines that start -/

/-- What starts is on no headline if one was used. -/
theorem Reached.headline_of_starts (h : m.Reached)
    (hstarts : .reached .legalityChecked ∈ happenings x m d) :
    (m.after d).headlineUsed = false ∨ (m.after d).isHeadline x = false := by
  obtain ⟨a, judged, hbegins⟩ := h.sound.begins h.ready hstarts
  obtain ⟨choice, hget⟩ := hbegins.filed
  obtain ⟨a', hability, hsource⟩ := (h.after d).sourced.filed x _ hget
  have hability' := (Moment.passage h.sound d).ability? hbegins.ability
  obtain rfl : a = a' := Option.some.inj (hability'.symm.trans hability)
  obtain ⟨card, hcard, hlegal, -⟩ := Legality.card_of_check hbegins.legal
  rw [← hbegins.board] at hcard hlegal
  rw [isHeadline, hget, Option.any_some, ← hsource, Board.cardIs, hcard, Option.any_some]
  exact hlegal.symm

/-- An activation that is under way in a run has started in it. -/
theorem exists_beginning {a : AbilityId} (h : ((start b).run ds).UnderWay x a) :
    ∃ past d mid, ds = past ++ d :: mid ∧
      .reached .legalityChecked ∈ happenings x ((start b).run past) d := by
  induction ds using List.reverseRecOn with
  | nil =>
    obtain ⟨activation, hget, -⟩ := h
    simp [run, start, Engine.new, IdMap.get?_empty] at hget
  | append_singleton ds d ih =>
    rw [run_append] at h
    rcases h.before (Moment.passage ((sound_start b).run ds) d) with hbefore | ⟨-, hreached⟩
    · obtain ⟨past, d', mid, rfl, hstarts⟩ := ih hbefore
      exact ⟨past, d', mid ++ [d], by simp, hstarts⟩
    · exact ⟨ds, d, [], by simp, hreached⟩

/-- What is executed on a headline after one was used is late. -/
theorem lateHeadline_of_used (hplays : ((start b).run past).PlaysHeadline d x)
    (hused : ((start b).run past).headlineUsed = true) : LateHeadline b (past ++ d :: rest) := by
  have hsound := (sound_start b).run past
  obtain ⟨ho, hheadline⟩ := hsound.playsHeadline_iff.mp hplays
  obtain ⟨activation, hget, -⟩ := (Option.any_eq_true _ _).mp hheadline
  have hpassage := Moment.passage hsound d
  rw [ho] at hpassage
  obtain ⟨past', d', mid, rfl, hstarts⟩ := exists_beginning
    (hpassage.counted (a := activation.ability) hsound (by rw [abilityOf?, hget]; rfl)).1
  refine ⟨past', d', mid, d, rest, x, by simp, hstarts, ?_, hplays, hused⟩
  rw [run_append]
  exact Reached.headline_of_starts ⟨b, past', rfl⟩ hstarts

/-! ## Keeping to one headline -/

/-- While none is late, no headline is played in a round in which one was used. -/
theorem headlines_of_used (hnot : ¬LateHeadline b (past ++ (mid ++ rest)))
    (hleaves : Along LeavesHeadline ((start b).run past) mid)
    (hround : Along (fun m d => m.beginsRound d = false) ((start b).run past) mid)
    (hused : ((start b).run past).headlineUsed = true) :
    headlines ((start b).run past) mid = [] := by
  induction mid generalizing past with
  | nil => rfl
  | cons d mid ih =>
    have hreached : ((start b).run past).Reached := ⟨b, past, rfl⟩
    have hnone : ((start b).run past).headline? d = none := by
      by_contra hsome
      obtain ⟨x, hx⟩ := Option.ne_none_iff_exists'.mp hsome
      exact hnot (lateHeadline_of_used
        (hreached.sound.playsHeadline_iff.mpr (headline?_eq_some_iff.mp hx)) hused)
    have hstill : (((start b).run past).after d).headlineUsed = true := by
      rw [hreached.headlineUsed_after hleaves.1 hround.1, hused, Bool.true_or]
    have hrun : ((start b).run past).after d = (start b).run (past ++ [d]) := by
      rw [run_append]
      rfl
    rw [headlines, hnone, hrun]
    rw [hrun] at hstill
    refine @ih (past ++ [d]) (by simpa using hnot) ?_ ?_ hstill
    · exact hrun ▸ hleaves.2
    · exact hrun ▸ hround.2

/-- While none is late, at most one headline is played in a round. -/
theorem length_headlines (hnot : ¬LateHeadline b (past ++ (mid ++ rest)))
    (hleaves : Along LeavesHeadline ((start b).run past) mid)
    (hround : Along (fun m d => m.beginsRound d = false) ((start b).run past) mid) :
    (headlines ((start b).run past) mid).length ≤ 1 := by
  induction mid generalizing past with
  | nil => exact Nat.zero_le 1
  | cons d mid ih =>
    have hreached : ((start b).run past).Reached := ⟨b, past, rfl⟩
    have hrun : ((start b).run past).after d = (start b).run (past ++ [d]) := by
      rw [run_append]
      rfl
    have hnot' : ¬LateHeadline b (past ++ [d] ++ (mid ++ rest)) := by simpa using hnot
    have hleaves' : Along LeavesHeadline ((start b).run (past ++ [d])) mid := hrun ▸ hleaves.2
    have hround' : Along (fun m d => m.beginsRound d = false) ((start b).run (past ++ [d])) mid :=
      hrun ▸ hround.2
    rw [headlines, hrun]
    cases hx : ((start b).run past).headline? d with
    | none => exact ih hnot' hleaves' hround'
    | some x =>
      -- The first one that is played is noted, so that no other is.
      have hused : ((start b).run (past ++ [d])).headlineUsed = true := by
        rw [← hrun, hreached.headlineUsed_after hleaves.1 hround.1, hx, Option.isSome_some,
          Bool.or_true]
      rw [headlines_of_used hnot' hleaves' hround' hused]
      exact Nat.le_refl 1

/-- The same activation is not played again. -/
theorem PlaysHeadline.not_again (h : m.Sound) (hplays : m.PlaysHeadline d x) (ds : List Deed)
    {d' : Deed} : ¬((m.after d).run ds).PlaysHeadline d' x := by
  intro hplays'
  obtain ⟨ho, hheadline⟩ := h.playsHeadline_iff.mp hplays
  obtain ⟨activation, hget, -⟩ := (Option.any_eq_true _ _).mp hheadline
  have hcounts : m.Counts d x activation.ability := ⟨ho, by rw [abilityOf?, hget]; rfl⟩
  obtain ⟨ho', hheadline'⟩ := ((h.after d).run ds).playsHeadline_iff.mp hplays'
  obtain ⟨activation', hget', -⟩ := (Option.any_eq_true _ _).mp hheadline'
  have hcounts' : ((m.after d).run ds).Counts d' x activation'.ability :=
    ⟨ho', by rw [abilityOf?, hget']; rfl⟩
  exact hcounts.not_again h ds hcounts'

/-- What plays a headline begins no round. -/
theorem PlaysHeadline.beginsRound (h : m.Sound) (hplays : m.PlaysHeadline d x) :
    m.beginsRound d = false := by
  obtain ⟨_, _, rfl, hrunning⟩ := running_of_counted (h.playsHeadline_iff.mp hplays).1
  simp [Moment.beginsRound, gives, hrunning]

/-- Where a headline is played after one was used, another one was played in the round before. -/
theorem not_keepsHeadline_of_used (hstart : b.round.headlineUsed = false)
    (hleaves : Along LeavesHeadline (start b) past)
    (hplays : ((start b).run past).PlaysHeadline d x)
    (hused : ((start b).run past).headlineUsed = true) : ¬KeepsHeadline b (past ++ d :: rest) := by
  intro hkeeps
  -- The one that was used and the one that is played are two in the round.
  obtain ⟨past, d₁, mid, y, rfl, hplays₁, hround₁, hround⟩ := exists_headline hstart hleaves hused
  have hsound := (sound_start b).run past
  have hrun : ((start b).run past).run (d₁ :: mid) = (start b).run (past ++ d₁ :: mid) :=
    (run_append _ _ _).symm
  have hafter : (start b).run (past ++ [d₁]) = ((start b).run past).after d₁ := run_append _ _ _
  have hne : y ≠ x := by
    rintro rfl
    rw [← hrun] at hplays
    exact hplays₁.not_again hsound mid hplays
  have hgo := hplays.beginsRound ((sound_start b).run _)
  have hlength := hkeeps past (d₁ :: (mid ++ [d])) rest (by simp)
    ⟨hround₁, along_append.mpr ⟨hafter ▸ hround, ?_, trivial⟩⟩ [y, x] (by simp [hne]) ?_
  · simp at hlength
  · rw [← run_cons, hrun]
    exact hgo
  · intro z hz
    rcases List.mem_pair.mp hz with rfl | rfl
    · exact ⟨[], d₁, mid ++ [d], rfl, hplays₁⟩
    · exact ⟨d₁ :: mid, d, [], rfl, hrun ▸ hplays⟩

/-- Between two beginnings of a round at most one headline is played in a run if and only if none is
executed after one was used in the round and has started before. -/
theorem keepsHeadline_iff (hstart : b.round.headlineUsed = false)
    (hleaves : Along LeavesHeadline (start b) ds) :
    KeepsHeadline b ds ↔ ¬LateHeadline b ds := by
  constructor
  · rintro hkeeps ⟨past, d, mid, d', rest, x, rfl, -, -, hplays, hused⟩
    have hsplit : past ++ d :: (mid ++ d' :: rest) = (past ++ d :: mid) ++ d' :: rest := by simp
    rw [hsplit] at hkeeps hleaves
    exact not_keepsHeadline_of_used hstart (along_append.mp hleaves).1 hplays hused hkeeps
  · intro hnot past mid rest hds hround xs hxs hplayed
    subst hds
    have hleaves' := (along_append.mp (along_append.mp hleaves).2).1
    have hsubset : xs ⊆ headlines ((start b).run past) mid := fun x hx =>
      (mem_headlines ((sound_start b).run past)).mpr (hplayed x hx)
    exact Nat.le_trans (hxs.length_le_of_subset hsubset) (length_headlines hnot hleaves' hround)

/-! ## Two headlines in a round -/

/-- A run in which nobody sets up the board leaves alone what is noted of headlines. -/
theorem leavesHeadline_of_no_board (h : ∀ d ∈ ds, ∀ f, d ≠ .call (.board f)) :
    Along LeavesHeadline m ds := by
  induction ds generalizing m with
  | nil => trivial
  | cons d ds ih =>
    refine ⟨?_, ih fun d' hd' => h d' (List.mem_cons_of_mem d hd')⟩
    unfold LeavesHeadline
    split
    · exact absurd rfl (h _ List.mem_cons_self _)
    · trivial

/-- Two players at noon, of whom the first has a headline in play. -/
def headlineInPlay : Board :=
  { deedInPlay with
    cards := IdMap.empty.insert ⟨3⟩
      { Card.new ⟨3⟩ "A" .deed ⟨0⟩ with location := .playArea, keywords := [.headline] } }

/-- The headline is given an action in whose effect it is used again. Both uses are played to the
end. -/
def headlineInHeadline : List Deed :=
  [.call (.attach ⟨3⟩ {
      kind := .action
      handler := some fun _ => .order (.activate ⟨0⟩ ⟨0⟩) fun _ => .done }),
    .call (.order (.activate ⟨0⟩ ⟨0⟩)), .turn, .turn, .turn, .go, .go,
    .turn, .turn, .turn, .go, .go]

theorem leavesHeadline_headlineInHeadline :
    Along LeavesHeadline (start headlineInPlay) headlineInHeadline :=
  leavesHeadline_of_no_board (by simp [headlineInHeadline])

theorem keepsHeadline_iff_headlineInHeadline :
    headlineInPlay.round.headlineUsed = false ∧
      Along LeavesHeadline (start headlineInPlay) headlineInHeadline ∧
      (KeepsHeadline headlineInPlay headlineInHeadline ↔
        ¬LateHeadline headlineInPlay headlineInHeadline) :=
  ⟨rfl, leavesHeadline_headlineInHeadline,
    keepsHeadline_iff rfl leavesHeadline_headlineInHeadline⟩

/-- It is not always at most one headline that is played in a round: here it is two. -/
theorem not_keepsHeadline_headlineInHeadline :
    ¬∀ (b : Board) (ds : List Deed), b.round.headlineUsed = false →
      Along LeavesHeadline (start b) ds → KeepsHeadline b ds := by
  intro h
  have hkeeps := h headlineInPlay headlineInHeadline rfl leavesHeadline_headlineInHeadline
  have htwo : headlines (start headlineInPlay) headlineInHeadline = [⟨0⟩, ⟨1⟩] := by
    decide +kernel
  have hround : Along (fun m d => m.beginsRound d = false) (start headlineInPlay)
      headlineInHeadline := by decide +kernel
  have hlength := hkeeps [] headlineInHeadline [] (by simp) hround [⟨0⟩, ⟨1⟩] (by decide)
    fun x hx => (mem_headlines (sound_start _)).mp (htwo ▸ hx)
  simp at hlength

end Moment

end Doomtown
