import Doomtown.Catalog
import Doomtown.Proofs.ForcedTriggers

/-!
# Showdowns

In a shootout the hands are shown before the step that decides it, which waits in the queue. A
cheatin' hand of Mortimer's controller sends him home in between: he is booted, without influence
and out of the shootout before that step starts, and if one posse is empty without him, the step is
withdrawn and never starts (`Moment.showdown_decided`). With an honest hand nothing happens to him,
and the step is run.
-/

namespace Doomtown

open Play

/-! ## Scripts that give orders -/

/-- An order that succeeds is answered, and the script goes on. -/
theorem Script.run_obey {o : Order} {next : o.Reply → Script} {e e' : Engine} {reply : o.Reply}
    (h : o.carryOut.ends e = (.ok reply, e')) :
    (Script.obey o next).run.ends e = (next reply).run.ends e' := by
  have hattempt : o.carryOut.attempt.ends e = (.ok (.ok reply), e') := by
    rw [ends_attempt, h]
  exact ends_bind_ok hattempt _

namespace Catalog

/-! ## His ability -/

/-- What Mortimer's ability does. -/
def sendsHome : Effect := fun x =>
  .obey (.setInfluence x.source 0) fun _ =>
  .obey (.sendHome x.source) fun _ =>
  .look fun v => (decidingStep? v.board).elim .done fun step => .just (.withdraw step)

/-- An ability that a dude was given as Mortimer's. -/
def IsMortimers (c : CardId) (ability : Ability) : Prop :=
  ∃ design ∈ mortimerParsons.designs c, ∃ card : Card,
    card.id = c ∧ card.type = mortimerParsons.type ∧ design.build card = .ok ability

/-- It is a forced trigger of the card that costs nothing, is aimed at nothing and has no limit. -/
structure Mortimers (c : CardId) (ability : Ability) : Prop where
  source : ability.source = c
  kind : ability.kind = .forced
  costs : ability.costs = []
  targets : ability.targets = []
  limit : ability.limit = none
  subscriptions : ability.subscriptions = [(.drawHandsRevealed, .trigger)]
  /-- It listens for hands that are shown in a shootout, and then looks at the controller's. -/
  accepts : ∀ b timestamp,
    ability.accepts b ⟨timestamp, .drawHandsRevealed true⟩ = isCaughtCheatin c b
  locations : ability.locations = [.playArea]
  responsible : ability.responsible = none
  condition : ability.condition = fun _ _ => true
  permission : ability.permission = fun _ _ => true
  /-- It runs without regard to alternatives, of which there are none. -/
  script : ∀ b x, x.choice = none → Engine.effectScript ability b x = sendsHome x

theorem IsMortimers.mortimers {c : CardId} {ability : Ability} (h : IsMortimers c ability) :
    Mortimers c ability := by
  obtain ⟨design, hdesign, card, rfl, htype, hbuild⟩ := h
  obtain rfl : design = _ := List.mem_singleton.mp hdesign
  simp only [Design.build, Design.handlerOn, AbilityKind.isTriggered, List.isEmpty_cons,
    Bool.and_false, Bool.false_eq_true, if_false, Option.isNone_some, Bool.false_and] at hbuild
  obtain rfl := Except.ok.inj hbuild
  refine ⟨rfl, rfl, ?_, rfl, rfl, rfl, fun b timestamp => ?_, ?_, rfl, rfl, rfl, fun b x hx => ?_⟩
  · simp [Design.costsOn, htype, mortimerParsons]
  · simp [Ability.accepts, GameEvent.name, EventData.name]
  · simp [htype, mortimerParsons, CardType.naturalLocation]
  · simp only [Engine.effectScript, Engine.fizzles, Ability.isAction, Ability.effect?, hx]
    refine congrArg (Script.obey _) (funext fun _ => congrArg (Script.obey _) (funext fun _ =>
      congrArg Script.look (funext fun v => ?_)))
    cases decidingStep? v.board <;> rfl

end Catalog

/-! ## Who is caught -/

namespace Board

/-- A card is caught when the hands are shown: it is a dude in play that is not blank and no
headline, its controller's hand is cheatin', and nothing keeps the controller from using it. -/
structure Catches (b : Board) (card : Card) (player : Player) : Prop where
  inPlay : card.location = .playArea
  notBlank : card.blank = false
  noHeadline : card.hasKeyword .headline = false
  controller : b.player? card.controller = some player
  cheatin : player.cheatin
  unrestricted : player.restrictions = []

/-- Whether the controller of a card has a cheatin' hand. -/
def CheatsFor (b : Board) (card : Card) : Prop :=
  ∃ player, b.player? card.controller = some player ∧ player.cheatin

end Board

/-- A card that was sent home with nothing left of its influence. -/
def Card.disgraced (card : Card) : Card :=
  { card with influence := 0, inTownSquare := false, booted := true }

/-- The board once such a card was sent home. -/
def Board.disgracing (b : Board) (c : CardId) : Board :=
  { b.removeFromShootout c with cards := b.cards.modify c Card.disgraced }

namespace Catalog.Mortimers

variable {c : CardId} {ability : Ability} {card : Card}

/-- The ability of who is caught is legal for his controller. -/
theorem isLegal {b : Board} {usage : UsageTracker} {player : Player} {x : Activation}
    {event : GameEvent} (h : Mortimers c ability) (hcard : b.card? c = some card)
    (hdude : card.type = .dude) (hcaught : b.Catches card player)
    (hplayer : x.player = card.controller) (hevent : x.event = some event)
    (hunused : usage.isUsed x.ability = false) : Legality.isLegal b usage ability x := by
  have hplace : Legality.isInPlace b ability card x := by
    simp [Legality.isInPlace, hdude, Ability.listensIn, h.locations, hcaught.inPlay]
  have hallowed : Legality.isAllowed b ability card x := by
    simp [Legality.isAllowed, Ability.isAction, h.kind, hevent, Ability.responsibleFor,
      h.responsible, h.source, hcard, hplayer]
  have hfound : b.player? x.player = some player := hplayer ▸ hcaught.controller
  have hable : player.canTrigger ability.kind c := by
    simp [Player.canTrigger, hcaught.unrestricted]
  have hwindow : Legality.fitsWindow b ability := by
    simp [Legality.fitsWindow, Ability.isAction, h.kind]
  have hdefault : Legality.meetsDefault b ability card x := by
    simp [Legality.meetsDefault, Ability.isAction, h.kind]
  have hseated : Legality.hasPlayer b ability x := by
    simp [Legality.hasPlayer, hfound, h.responsible]
  have hpayable : Payment.canPayAll b x ability.costs := by
    simp [Payment.canPayAll, h.costs]
  have haimed : ability.hasTargets b x := by
    simp [Ability.hasTargets, h.targets]
  unfold Legality.isLegal Legality.check
  rw [h.source, hcard]
  simp only [hwindow, hplace, hcaught.noHeadline, hfound, hable, hunused, hallowed,
    hcaught.notBlank, hdefault, hseated, hpayable, haimed, h.condition, h.permission,
    Legality.require]
  simp [bind, Except.bind, Except.isOk, Except.toBool]

end Catalog.Mortimers

/-! ## What is done to him -/

namespace Board

variable {b : Board} {c : CardId} {card : Card} {sh : Shootout}

/-- Who was sent home is in no shootout. -/
theorem isParticipating_disgracing (b : Board) (c : CardId) :
    (b.disgracing c).isParticipating c = false := by
  unfold isParticipating disgracing removeFromShootout
  cases b.shootout with
  | none => rfl
  | some sh => simp [Shootout.contains, Shootout.remove]

theorem card?_disgracing (h : b.card? c = some card) :
    (b.disgracing c).card? c = some card.disgraced :=
  IdMap.get?_modify_self h _

/-- The step that decides a shootout is found once the shootout is over. -/
theorem decidingStep?_disgracing (h : b.shootout = some sh) :
    Catalog.decidingStep? (b.disgracing c) =
      if (sh.remove c).isOver then sh.pendingStep else none := by
  have hshootout : (b.disgracing c).shootout = some (sh.remove c) := by
    simp [disgracing, removeFromShootout, h]
  have hpending : (sh.remove c).pendingStep = sh.pendingStep := rfl
  unfold Catalog.decidingStep?
  rw [hshootout, ← hpending]
  generalize sh.remove c = left
  by_cases hover : left.isOver <;> simp [hover, Option.filter]

end Board

/-- The effect of the ability sends him home, and withdraws the deciding step if that ends the
shootout. -/
theorem Catalog.run_sendsHome {e : Engine} {x : Activation} {card : Card} {sh : Shootout}
    {deciding : Step} {n : Nat} (hcard : e.board.card? x.source = some card)
    (hshootout : e.board.shootout = some sh) (hpending : sh.pendingStep = some deciding.id)
    (hqueue : e.queue = ⟨[deciding], some [], n⟩) :
    (sendsHome x).run.ends e = (.ok (), { e with
      board := e.board.disgracing x.source
      queue := ⟨if (sh.remove x.source).isOver then [] else [deciding], some [], n⟩ }) := by
  let b₁ : Board :=
    { e.board with cards := e.board.cards.modify x.source ({ · with influence := 0 }) }
  have hcard₁ : b₁.card? x.source = some { card with influence := 0 } :=
    IdMap.get?_modify_self hcard _
  have hinfluence : (Order.setInfluence x.source 0).carryOut.ends e =
      (.ok (), { e with board := b₁ }) :=
    Engine.onBoard_ends (Board.modifyCard_ends hcard _)
  have hsend : (Board.sendHome x.source).ends b₁ = (.ok (), e.board.disgracing x.source) := by
    have hremoved : (b₁.removeFromShootout x.source).card? x.source =
        some { card with influence := 0 } := hcard₁
    unfold Board.sendHome
    rw [ends_bind_ok (ends_change _ b₁), Board.modifyCard_ends hremoved]
    unfold Board.disgracing Board.removeFromShootout
    dsimp only [b₁]
    rw [IdMap.modify_modify]
    rfl
  have hhome : (Order.sendHome x.source).carryOut.ends { e with board := b₁ } =
      (.ok (), { e with board := e.board.disgracing x.source }) := Engine.onBoard_ends hsend
  unfold sendsHome
  rw [Script.run_obey hinfluence, Script.run_obey hhome]
  -- He is home; what he sees then is whether a step is left to decide anything.
  let e₁ : Engine := { e with board := e.board.disgracing x.source }
  show (Option.elim (decidingStep? (e.board.disgracing x.source)) Script.done
    fun step => .just (.withdraw step)).run.ends e₁ = _
  rw [Board.decidingStep?_disgracing hshootout, hpending]
  by_cases hover : (sh.remove x.source).isOver
  · have hwithdraw : (Order.withdraw deciding.id).carryOut.ends e₁ =
        (.ok true, { e₁ with queue := ⟨[], some [], n⟩ }) := by
      have hcontains : e₁.queue.contains deciding.id := by
        simp [e₁, hqueue, StepQueue.contains, StepQueue.pending]
      have hleft : e₁.queue.withdraw deciding.id = ⟨[], some [], n⟩ := by
        simp [e₁, hqueue, StepQueue.withdraw]
      show (Engine.withdraw _).ends _ = _
      unfold Engine.withdraw
      rw [ends_bind_ok (ends_look e₁), if_pos hcontains, ← hleft]
      rfl
    rw [if_pos hover, if_pos hover]
    exact Script.run_obey hwithdraw
  · rw [if_neg hover, if_neg hover, ← hqueue]
    rfl

namespace Engine

/-! ## The step that is decided about -/

/-- No step runs, and no others wait than these. -/
def Awaits (e : Engine) (l : List Step) : Prop := e.queue.running = none ∧ e.queue.steps = l

/-- While the queue runs, it comes to a state in which a step is all that waits if the step is to be
run at all, and nothing waits otherwise. The step has not been run until then, and the board is as
said. Whenever the queue stops, the step has been run or not, as it was to be, and the board is as
said for the end. -/
structure Decides (e : Engine) (s : Step) (runs : Prop) (before after : Board → Prop) : Prop where
  comes : ∃ n e₁, (∀ k, (settle (n + k)).ends e = (settle k).ends e₁) ∧ s.id ∉ e.stepsRun n ∧
    before e₁.board ∧ (runs → e₁.Awaits [s]) ∧ (¬runs → e₁.Awaits [])
  idle : ¬runs → ∃ n e₁, (settle n).ends e = (.ok (some .idle), e₁)
  stops : ∀ n r e₁, (settle n).ends e = (r, e₁) → r ≠ .ok none →
    (s.id ∈ e.stepsRun n ↔ runs) ∧ after e₁.board

/-- Whatever comes of a step once it is all that waits, the card is as it was when the queue stops,
and in a shootout only if it was so before. -/
def LeavesAlone (e : Engine) (s : Step) (c : CardId) : Prop :=
  ∀ n e₁, (settle n).ends e = (.ok none, e₁) → e₁.Awaits [s] →
    ∀ k r e', (settle k).ends e₁ = (r, e') → r ≠ .ok none →
      e'.board.card? c = e₁.board.card? c ∧
        (e'.board.isParticipating c → e₁.board.isParticipating c)

variable {e e₁ : Engine} {s : Step}

theorem stepsRun_of_empty (h : e.Awaits []) (n : Nat) : e.stepsRun n = [] := by
  cases n with
  | zero => rfl
  | succ n =>
    have hbegin : e.queue.begin? = none := by simp [StepQueue.begin?, h.1, h.2]
    rw [stepsRun, hbegin, turn_rests h.1 (.inl h.2)]
    rfl

theorem mem_stepsRun_of_front {rest : List Step} (hidle : e.queue.running = none)
    (hfront : e.queue.steps = s :: rest) (hkind : ∀ p, s.kind ≠ .prompt p) (n : Nat) :
    s.id ∈ e.stepsRun (n + 1) := by
  rw [stepsRun, StepQueue.begin?_front hidle hfront hkind]
  exact List.mem_cons_self

/-- What comes of a step is decided by turns that lead to it or past it. -/
theorem decides_of_turns {l : List StepId} {runs : Prop} {before after : Board → Prop}
    (hturns : e.Turns l e₁) (hnot : s.id ∉ l) (hkind : ∀ p, s.kind ≠ .prompt p)
    (hbefore : before e₁.board) (hruns : runs → e₁.Awaits [s]) (hover : ¬runs → e₁.Awaits [])
    (hafter : ∀ k r e', (settle k).ends e₁ = (r, e') → r ≠ .ok none → after e'.board) :
    e.Decides s runs before after where
  comes := by
    refine ⟨l.length, e₁, hturns.settle_add, ?_, hbefore, hruns, hover⟩
    have hsteps := hturns.stepsRun_add 0
    rw [Nat.add_zero] at hsteps
    rw [hsteps, stepsRun, List.append_nil]
    exact hnot
  idle := by
    intro hnever
    obtain ⟨hidle, hempty⟩ := hover hnever
    refine ⟨l.length + 1, e₁, ?_⟩
    rw [hturns.settle_add, settle_status hidle (.inl hempty)]
    simp [status, StepQueue.frontPrompt?, hempty]
  stops := by
    intro n r e' hends hr
    obtain ⟨k, rfl, hrest⟩ := hturns.passed hends hr
    refine ⟨?_, hafter k r e' hrest hr⟩
    rw [hturns.stepsRun_add, List.mem_append, or_iff_right hnot]
    constructor
    · intro hmem
      by_contra hnever
      rw [stepsRun_of_empty (hover hnever)] at hmem
      exact absurd hmem List.not_mem_nil
    · intro h
      cases k with
      | zero =>
        rw [settle_zero] at hrest
        exact absurd (Prod.mk.inj hrest).1.symm hr
      | succ k => exact mem_stepsRun_of_front (hruns h).1 (hruns h).2 hkind k

/-! ## The showdown -/

/-- The step that shows the hands of a shootout. -/
def revealing (i : StepId) (label : String) : Step :=
  ⟨i, .task label (.raise (.drawHandsRevealed true) .done .done)⟩

/-- A dude with Mortimer's ability is in a shootout, and no ability is registered but his. The hands
are about to be shown, and then to be run is the step that decides the shootout. -/
structure Showdown (e : Engine) (a : AbilityId) (c : CardId) (card : Card) (sh : Shootout)
    (deciding : Step) : Prop where
  ability : ∃ ability, e.ability? a = some ability ∧ Catalog.IsMortimers c ability
  alone : ∀ a', e.registrar.isRegistered a' = true ↔ a' = a
  found : e.board.card? c = some card
  dude : card.type = .dude
  shootout : e.board.shootout = some sh
  takesPart : sh.contains c
  pending : sh.pendingStep = some deciding.id
  queue : ∃ i label, e.queue.steps = [revealing i label, deciding]
  runnable : ∀ p, deciding.kind ≠ .prompt p

namespace Showdown

variable {a : AbilityId} {c : CardId} {card : Card} {sh : Shootout} {deciding : Step}
  {ability : Ability} {player : Player}

/-- All that is subscribed to is the one event that his ability listens to. -/
theorem subscriptions (h : e.Showdown a c card sh deciding) (hproper : e.Proper)
    (hability : e.ability? a = some ability) (hhis : Catalog.Mortimers c ability) :
    (∃ i, e.registrar.subscriptions = [⟨i, a, .drawHandsRevealed, .trigger⟩]) ∧
      e.usage.isUsed a = false := by
  have hall : e.registrar.of a = e.registrar.subscriptions := by
    rw [Registrar.of_eq_filter]
    refine List.filter_eq_self.mpr fun s hs => decide_eq_true ((h.alone s.ability).mp ?_)
    exact (Registrar.isRegistered_iff_exists _ _).mpr ⟨s, hs, rfl⟩
  obtain ⟨s, hs, -⟩ := (Registrar.isRegistered_iff_exists _ _).mp ((h.alone a).mpr rfl)
  rcases hproper a with hempty | ⟨ability', hability', hwhole⟩
  · have hnone : e.registrar.of a = [] := congrArg Entry.subscriptions hempty
    rw [← hall, hnone] at hs
    exact absurd hs List.not_mem_nil
  · obtain rfl := Option.some.inj (hability.symm.trans hability')
    have hlist : (e.registrar.of a).map (fun s => (s.event, s.listener)) =
        [(.drawHandsRevealed, .trigger)] := hwhole.subscriptions.trans hhis.subscriptions
    have hlimit : (e.usage.counters.get? a).map (·.limit) = none := hwhole.limit.trans hhis.limit
    constructor
    · obtain ⟨⟨i, a', event, listener⟩, hone, heq⟩ := List.map_eq_singleton_iff.mp hlist
      have hmem : (⟨i, a', event, listener⟩ : Subscription) ∈ e.registrar.of a :=
        hone ▸ List.mem_cons_self
      obtain rfl : a' = a := (e.registrar.mem_of.mp hmem).2
      obtain ⟨rfl, rfl⟩ := Prod.mk.inj heq
      exact ⟨i, hall.symm.trans hone⟩
    · have hcounter : e.usage.counters.get? a = none := Option.map_eq_none_iff.mp hlimit
      simp [UsageTracker.isUsed, hcounter]

/-- The event of the hands that are shown. -/
def shown (e : Engine) : GameEvent := ⟨e.board.clock + 1, .drawHandsRevealed true⟩

/-- The engine once the hands are shown. -/
def showing (e : Engine) (deciding : Step) : Engine :=
  e.heralding (.drawHandsRevealed true) [deciding]

variable {i : SubscriptionId}

/-- Nothing but his ability listens, and only to trigger. -/
theorem listenersFor
    (hsubscribed : e.registrar.subscriptions = [⟨i, a, .drawHandsRevealed, .trigger⟩])
    (event : EventName) : e.registrar.listenersFor event =
      if event = .drawHandsRevealed then [⟨i, a, .drawHandsRevealed, .trigger⟩] else [] := by
  unfold Registrar.listenersFor
  rw [hsubscribed]
  by_cases hevent : event = .drawHandsRevealed
  · simp [hevent]
  · simp [hevent, Ne.symm hevent]

/-- Two turns show the hands and open the window of that event. -/
theorem turns_shown (hidle : e.queue.running = none)
    (hsubscribed : e.registrar.subscriptions = [⟨i, a, .drawHandsRevealed, .trigger⟩])
    {j : StepId} {label : String} (hfront : e.queue.steps = [revealing j label, deciding]) :
    e.Turns [j, e.queue.nextStep] { showing e deciding with
      queue := (showing e deciding).windowed (shown e) [deciding] } := by
  have hlisteners : (showing e deciding).registrar.listenersFor (shown e).name =
      [⟨i, a, .drawHandsRevealed, .trigger⟩] := listenersFor hsubscribed _
  have hshown : (showing e deciding).Turns [e.queue.nextStep] { showing e deciding with
      queue := (showing e deciding).windowed (shown e) [deciding] } :=
    turns_event rfl rfl rfl rfl (by simp [hlisteners])
  exact (turns_heralding hidle hfront).trans hshown

/-- The hands set off his ability for his controller if the controller is cheatin'. -/
theorem pending_shown (h : e.Showdown a c card sh deciding) (hability : e.ability? a = some ability)
    (hhis : Catalog.Mortimers c ability)
    (hsubscribed : e.registrar.subscriptions = [⟨i, a, .drawHandsRevealed, .trigger⟩]) :
    ((showing e deciding).collect (shown e)).pending =
      if Catalog.isCaughtCheatin c e.board then [⟨a, card.controller⟩] else [] := by
  have hcandidate : (showing e deciding).candidate? (shown e) ⟨i, a, .drawHandsRevealed, .trigger⟩ =
      if Catalog.isCaughtCheatin c e.board then some ⟨a, card.controller⟩ else none := by
    have hability₁ : (showing e deciding).ability? a = some ability := hability
    have haccepts : ability.accepts (showing e deciding).board (shown e) =
        Catalog.isCaughtCheatin c e.board := hhis.accepts _ _
    have hresponsible : ability.responsibleFor (showing e deciding).board (shown e) =
        some card.controller := by
      have hfound : (showing e deciding).board.card? c = some card := h.found
      simp [Ability.responsibleFor, hhis.responsible, hhis.source, hfound]
    simp only [candidate?, hability₁, Option.bind_eq_bind, Option.bind_some, haccepts, hresponsible,
      hhis.kind, AbilityKind.isTriggered, decide_true, Bool.true_and]
  have hperm := (showing e deciding).collect_perm (shown e)
  have hlisteners : (showing e deciding).registrar.listenersFor (shown e).name =
      [⟨i, a, .drawHandsRevealed, .trigger⟩] := listenersFor hsubscribed _
  rw [hlisteners, List.filterMap_cons, hcandidate, List.filterMap_nil] at hperm
  by_cases hcaught : Catalog.isCaughtCheatin c e.board
  · simp only [hcaught, if_true] at hperm ⊢
    exact List.perm_singleton.mp hperm
  · simp only [hcaught, Bool.false_eq_true, if_false] at hperm ⊢
    exact hperm.eq_nil

theorem isCaughtCheatin_iff (h : e.Showdown a c card sh deciding) :
    Catalog.isCaughtCheatin c e.board = true ↔ e.board.CheatsFor card := by
  have hpart : e.board.isParticipating c = true := by
    simp [Board.isParticipating, h.shootout, h.takesPart]
  simp [Catalog.isCaughtCheatin, hpart, Board.cardIs, h.found, Board.CheatsFor, Option.any_eq_true]

/-! ### An honest hand -/

/-- With an honest hand two turns lead to the deciding step. -/
theorem turns_honest (h : e.Showdown a c card sh deciding) (hidle : e.queue.running = none)
    (hability : e.ability? a = some ability) (hhis : Catalog.Mortimers c ability)
    (hsubscribed : e.registrar.subscriptions = [⟨i, a, .drawHandsRevealed, .trigger⟩])
    (hhonest : ¬e.board.CheatsFor card) {j : StepId} {label : String}
    (hfront : e.queue.steps = [revealing j label, deciding]) :
    e.Turns [j, e.queue.nextStep] { showing e deciding with
      queue := ⟨[deciding], none, e.queue.nextId + 1⟩ } := by
  have hpending := h.pending_shown hability hhis hsubscribed
  rw [if_neg (fun hcaught => hhonest (h.isCaughtCheatin_iff.mp hcaught))] at hpending
  have hturns := turns_shown hidle hsubscribed hfront
  rwa [windowed_of_none hpending] at hturns

/-! ### A cheatin' hand -/

/-- The steps that are run from the moment the hands are shown. -/
def courseOf (e : Engine) (j : StepId) : List StepId :=
  j :: (List.range 7).map fun n => ⟨e.queue.nextId + n⟩

/-- With a cheatin' hand eight turns send him home and lead to the deciding step, if it is not
withdrawn. -/
theorem turns_caught (h : e.Showdown a c card sh deciding) (hidle : e.queue.running = none)
    (hability : e.ability? a = some ability) (hhis : Catalog.Mortimers c ability)
    (hsubscribed : e.registrar.subscriptions = [⟨i, a, .drawHandsRevealed, .trigger⟩])
    (hunused : e.usage.isUsed a = false) (hcaught : e.board.Catches card player) {j : StepId}
    {label : String} (hfront : e.queue.steps = [revealing j label, deciding]) :
    ∃ e', e.Turns (courseOf e j) e' ∧
      e'.Awaits (if (sh.remove c).isOver then [] else [deciding]) ∧
      ∃ timestamp, e'.board = { e.board.disgracing c with clock := timestamp } := by
  have hpending := h.pending_shown hability hhis hsubscribed
  rw [if_pos (h.isCaughtCheatin_iff.mpr ⟨player, hcaught.controller, hcaught.cheatin⟩)] at hpending
  have hturns := turns_shown hidle hsubscribed hfront
  -- The window has his ability only, which is legal.
  let e₂ : Engine := { showing e deciding with
    queue := (showing e deciding).windowed (shown e) [deciding] }
  have hwindow : e₂.queue = ⟨[⟨⟨e.queue.nextId + 1⟩, .window ⟨shown e, [⟨a, card.controller⟩]⟩⟩,
      deciding], none, e.queue.nextId + 2⟩ := by
    show (showing e deciding).windowed (shown e) [deciding] = _
    unfold windowed
    rw [hpending]
    rfl
  have hnext : e₂.queue.nextId = e.queue.nextId + 2 := congrArg StepQueue.nextId hwindow
  have hcaught₂ : e₂.board.Catches card player := { hcaught with }
  have hlegal : Legality.isLegal e₂.board e₂.usage ability
      (.new a ability.source card.controller (some (shown e))) :=
    hhis.isLegal h.found h.dude hcaught₂ rfl rfl hunused
  have hawaiting := turns_awaiting (congrArg StepQueue.running hwindow)
    (congrArg StepQueue.steps hwindow) hability hhis.kind hhis.costs hhis.targets hlegal
  -- His effect sends him home and may withdraw what waits behind it.
  let x : Activation := awaiting (shown e) ⟨a, card.controller⟩ ability
  let e₃ : Engine := e₂.entering x
    (e₂.staged ⟨e₂.queue.nextId + 2⟩ .execute [deciding] (e₂.queue.nextId + 3))
  have hsource : x.source = c := hhis.source
  have hscript : (effectScript ability e₃.board x).run.ends
      { e₃ with queue := e₃.queue.started [deciding] } = (.ok (), { e₃ with
        board := e₃.board.disgracing c
        queue := ⟨if (sh.remove c).isOver then [] else [deciding], some [],
          e₂.queue.nextId + 3⟩ }) := by
    rw [hhis.script _ _ rfl, ← hsource]
    exact Catalog.run_sendsHome (e := { e₃ with queue := e₃.queue.started [deciding] })
      (hsource ▸ h.found) h.shootout h.pending rfl
  have hfound : (e₃.board.disgracing c).card? ability.source = some card.disgraced := by
    rw [hhis.source]
    exact Board.card?_disgracing (b := e₃.board) h.found
  have hheadline : (e₃.board.disgracing c).cardIs ability.source (·.hasKeyword .headline) =
      false := by
    rw [Board.cardIs, hfound]
    exact hcaught.noHeadline
  have hplayed : isBeingPlayed (e₃.board.disgracing c) ability.source = false := by
    have hdude : card.disgraced.type = .dude := h.dude
    simp [isBeingPlayed, Board.cardIs, hfound, hdude]
  obtain ⟨e', heffect, hqueue, hboard⟩ := turns_effect (e := e₃) rfl rfl (e₂.get?_entering x _) rfl
    hability hscript rfl hheadline hplayed ((listenersFor hsubscribed _).trans (if_neg (by decide)))
  have hcourse : [j, e.queue.nextStep] ++ ([⟨e.queue.nextId + 1⟩, e₂.queue.nextStep,
      ⟨e₂.queue.nextId + 1⟩] ++ [⟨e₂.queue.nextId + 2⟩, ⟨e₂.queue.nextId + 3⟩,
        ⟨e₂.queue.nextId + 3 + 1⟩]) = courseOf e j := by
    rw [StepQueue.nextStep, StepQueue.nextStep, hnext]
    rfl
  refine ⟨e', hcourse ▸ hturns.trans (hawaiting.trans heffect), ?_, _, hboard⟩
  rw [Awaits, hqueue]
  exact ⟨rfl, rfl⟩

end Showdown

/-! ### What is left to the deciding step -/

/-- From where turns have led to, the card stays as it is until the queue stops: the step leaves it
alone, or nothing waits any more. -/
theorem LeavesAlone.stays {c : CardId} {l : List StepId} (h : e.LeavesAlone s c)
    (hturns : e.Turns l e₁) (hwaits : e₁.Awaits [s] ∨ e₁.Awaits []) {k : Nat}
    {r : Except RulesError (Option QueueStatus)} {e' : Engine}
    (hends : (settle k).ends e₁ = (r, e')) (hr : r ≠ .ok none) :
    e'.board.card? c = e₁.board.card? c ∧
      (e'.board.isParticipating c → e₁.board.isParticipating c) := by
  rcases hwaits with hfront | ⟨hidle, hempty⟩
  · exact h l.length e₁ hturns.settle hfront k r e' hends hr
  · cases k with
    | zero =>
      rw [settle_zero] at hends
      exact absurd (Prod.mk.inj hends).1.symm hr
    | succ k =>
      rw [settle_status hidle (.inl hempty)] at hends
      obtain ⟨-, rfl⟩ := Prod.mk.inj hends
      exact ⟨rfl, id⟩

end Engine

namespace Moment

open Engine

variable {e : Engine} {a : AbilityId} {c : CardId} {card : Card} {sh : Shootout} {deciding : Step}

/-- The deciding step is none of the steps that come of the hands: it was queued before them. -/
theorem deciding_not_mem_courseOf (hreached : Reached ⟨e, none⟩) {j : StepId} {label : String}
    (hfront : e.queue.steps = [revealing j label, deciding]) :
    deciding.id ∉ Showdown.courseOf e j := by
  have hlater : deciding.id.number < e.queue.nextId :=
    hreached.sound.ids deciding (StepQueue.mem_order_of_mem_steps (by simp [hfront]))
  have hdistinct := hreached.distinct.sublist (List.sublist_append_right _ _)
  rw [hfront] at hdistinct
  have hother : j ≠ deciding.id := (List.pairwise_cons.mp hdistinct).1 deciding List.mem_cons_self
  intro hmem
  rcases List.mem_cons.mp hmem with hfirst | hlate
  · exact hother hfirst.symm
  · obtain ⟨n, -, hn⟩ := List.mem_map.mp hlate
    rw [← hn] at hlater
    exact absurd hlater (Nat.not_lt.mpr (Nat.le_add_right _ n))

/-- A cheatin' hand sends Mortimer home before the deciding step is run, if it is run at all. -/
theorem decides_caught (hreached : Reached ⟨e, none⟩) (h : e.Showdown a c card sh deciding)
    (halone : e.LeavesAlone deciding c) {player : Player} (hcaught : e.board.Catches card player) :
    e.Decides deciding
      ((sh.remove c).leaderPosse.dudes ≠ [] ∧ (sh.remove c).markPosse.dudes ≠ [])
      (fun b => b.card? c = some card.disgraced ∧ b.shootout = some (sh.remove c))
      (fun b => b.card? c = some card.disgraced ∧ b.isParticipating c = false) := by
  have hidle : e.queue.running = none := by simpa using hreached.ready.running
  obtain ⟨ability, hability, hmade⟩ := h.ability
  obtain ⟨⟨i, hsubscribed⟩, hunused⟩ := h.subscriptions hreached.proper hability hmade.mortimers
  obtain ⟨j, label, hfront⟩ := h.queue
  obtain ⟨e₁, hturns, hwaits, timestamp, hboard⟩ :=
    h.turns_caught hidle hability hmade.mortimers hsubscribed hunused hcaught hfront
  have hcard : e₁.board.card? c = some card.disgraced := by
    rw [hboard]
    exact Board.card?_disgracing h.found
  have hout : e₁.board.isParticipating c = false := by
    rw [hboard]
    exact e.board.isParticipating_disgracing c
  have hshootout : e₁.board.shootout = some (sh.remove c) := by
    rw [hboard]
    simp [Board.disgracing, Board.removeFromShootout, h.shootout]
  have hover : (sh.remove c).isOver = false ↔
      (sh.remove c).leaderPosse.dudes ≠ [] ∧ (sh.remove c).markPosse.dudes ≠ [] := by
    simp [Shootout.isOver]
  rw [← hover]
  refine decides_of_turns hturns (deciding_not_mem_courseOf hreached hfront) h.runnable
    ⟨hcard, hshootout⟩ (fun hruns => ?_) (fun hnever => ?_) fun k r e' hends hr => ?_
  · rwa [if_neg (by simp [hruns])] at hwaits
  · rwa [if_pos (by simpa using hnever)] at hwaits
  · have hlast : e₁.Awaits [deciding] ∨ e₁.Awaits [] := by
      by_cases hend : (sh.remove c).isOver
      · rw [if_pos hend] at hwaits
        exact .inr hwaits
      · rw [if_neg hend] at hwaits
        exact .inl hwaits
    obtain ⟨hstays, hjoins⟩ := halone.stays hturns hlast hends hr
    refine ⟨hstays.trans hcard, Bool.eq_false_iff.mpr fun hin => ?_⟩
    exact absurd (hout.symm.trans (hjoins hin)) Bool.false_ne_true

/-- With an honest hand nothing happens to Mortimer, and the deciding step is run. -/
theorem decides_honest (hreached : Reached ⟨e, none⟩) (h : e.Showdown a c card sh deciding)
    (halone : e.LeavesAlone deciding c) (hhonest : ¬e.board.CheatsFor card) :
    e.Decides deciding True (fun b => b.card? c = some card ∧ b.shootout = some sh)
      (fun b => b.card? c = some card) := by
  have hidle : e.queue.running = none := by simpa using hreached.ready.running
  obtain ⟨ability, hability, hmade⟩ := h.ability
  obtain ⟨⟨i, hsubscribed⟩, -⟩ := h.subscriptions hreached.proper hability hmade.mortimers
  obtain ⟨j, label, hfront⟩ := h.queue
  have hturns := h.turns_honest hidle hability hmade.mortimers hsubscribed hhonest hfront
  have hcourse : [j, e.queue.nextStep] ⊆ Showdown.courseOf e j :=
    List.cons_subset_cons j fun k hk =>
      List.mem_map.mpr ⟨0, by decide, (List.mem_singleton.mp hk).symm⟩
  have hnot : deciding.id ∉ [j, e.queue.nextStep] :=
    fun hmem => deciding_not_mem_courseOf hreached hfront (hcourse hmem)
  refine decides_of_turns hturns hnot h.runnable ⟨h.found, h.shootout⟩ (fun _ => ⟨rfl, rfl⟩)
    (fun hnever => absurd trivial hnever) fun k r e' hends hr => ?_
  rw [(halone.stays hturns (.inl ⟨rfl, rfl⟩) hends hr).1]
  exact h.found

/-- Let a deciding step that leaves Mortimer alone wait behind the step that shows the hands. If his
controller is caught with a cheatin' hand, he is booted, without influence and out of the shootout
before the deciding step would be run, and it is run if and only if both posses have dudes left
without him. If his controller's hand is honest, nothing changes about him and the step is run. -/
theorem showdown_decided (hreached : Reached ⟨e, none⟩) (h : e.Showdown a c card sh deciding)
    (halone : e.LeavesAlone deciding c) :
    (∀ player, e.board.Catches card player →
      e.Decides deciding
        ((sh.remove c).leaderPosse.dudes ≠ [] ∧ (sh.remove c).markPosse.dudes ≠ [])
        (fun b => b.card? c = some card.disgraced ∧ b.shootout = some (sh.remove c))
        (fun b => b.card? c = some card.disgraced ∧ b.isParticipating c = false)) ∧
      (¬e.board.CheatsFor card →
        e.Decides deciding True (fun b => b.card? c = some card ∧ b.shootout = some sh)
          (fun b => b.card? c = some card)) := by
  constructor
  · intro player hcaught
    exact decides_caught hreached h halone hcaught
  · intro hhonest
    exact decides_honest hreached h halone hhonest

/-- A task that changes nothing leaves everybody alone. -/
theorem leavesAlone_of_idle {i : StepId} {label : String} {body : Script}
    (hbody : ∀ e : Engine, body.run.ends e = (.ok (), e)) (e : Engine) (c : CardId) :
    e.LeavesAlone ⟨i, .task label body⟩ c := by
  intro n e₁ _ hwaits k r e' hends hr
  obtain ⟨hidle, hfront⟩ := hwaits
  have hturns := turns_of_step hidle hfront (by simp) ((runStep_kind _ _).trans (hbody _))
  obtain ⟨more, -, hrest⟩ := hturns.passed hends hr
  cases more with
  | zero =>
    rw [settle_zero] at hrest
    exact absurd (Prod.mk.inj hrest).1.symm hr
  | succ more =>
    rw [settle_status rfl (.inl rfl)] at hrest
    obtain ⟨-, rfl⟩ := Prod.mk.inj hrest
    exact ⟨rfl, id⟩

/-- Mortimer before the showdown. -/
def mortimer : Card :=
  { Card.new ⟨3⟩ "Mortimer Parsons" .dude ⟨0⟩ with location := .playArea, influence := 1 }

/-- The shootout that he is in. -/
def mortimersShootout : Shootout :=
  { (Shootout.new ⟨3⟩ ⟨0⟩ ⟨4⟩ ⟨1⟩).join ⟨0⟩ ⟨5⟩ with pendingStep := some ⟨1⟩ }

/-- The step that says that the shootout resolves. -/
def resolving : Step :=
  ⟨⟨1⟩, .task "resolve shootout" (.just (.message "The shootout resolves" []))⟩

/-- The first player leads Mortimer and another dude against the second player's, with a cheatin'
hand. -/
def twoAgainstOne : List Deed :=
  [.call (.board fun b => ((Board.createCard ⟨0⟩ "Mortimer Parsons" .dude .playArea).ends b).2),
    .call (.board fun b => ((Board.createCard ⟨1⟩ "A" .dude .playArea).ends b).2),
    .call (.board fun b => ((Board.createCard ⟨0⟩ "B" .dude .playArea).ends b).2),
    .call (.board fun b => ((Board.modifyCard ⟨3⟩ ({ · with influence := 1 })).ends b).2)] ++
  (Catalog.mortimerParsons.designs ⟨3⟩).map (fun design => .call (.attach ⟨3⟩ design)) ++
  [.call (.queue "reveal draw hands" (.raise (.drawHandsRevealed true) .done .done)),
    .call (.queue "resolve shootout" (.just (.message "The shootout resolves" []))),
    .call (.order (.setCheatin ⟨0⟩ true)),
    .call (.board fun b => { b with shootout := some mortimersShootout })]

/-- The engine then. -/
def outnumbering : Engine := ((start (.twoPlayer "Ann" "Bob" 0)).run twoAgainstOne).engine

theorem showdown_outnumbering :
    outnumbering.Showdown ⟨0⟩ ⟨3⟩ mortimer mortimersShootout resolving where
  ability := ⟨_, rfl, _, List.mem_cons_self, mortimer, rfl, rfl, rfl⟩
  alone := by
    have hsubscribed : outnumbering.registrar.subscriptions =
        [⟨⟨0⟩, ⟨0⟩, .drawHandsRevealed, .trigger⟩] := by decide +kernel
    intro a'
    rw [Registrar.isRegistered_iff_exists, hsubscribed]
    simp [eq_comm]
  found := by decide +kernel
  dude := rfl
  shootout := rfl
  takesPart := by decide
  pending := rfl
  queue := ⟨⟨0⟩, "reveal draw hands", rfl⟩
  runnable := by simp [resolving]

/-- Mortimer is sent home, and then the shootout is decided for the dude who is left. -/
theorem showdown_decided_twoAgainstOne :
    Reached ⟨outnumbering, none⟩ ∧
      outnumbering.Showdown ⟨0⟩ ⟨3⟩ mortimer mortimersShootout resolving ∧
      outnumbering.LeavesAlone resolving ⟨3⟩ ∧
      ∃ player, outnumbering.board.Catches mortimer player ∧
        outnumbering.Decides resolving True
          (fun b => b.card? ⟨3⟩ = some mortimer.disgraced ∧
            b.shootout = some (mortimersShootout.remove ⟨3⟩))
          (fun b => b.card? ⟨3⟩ = some mortimer.disgraced ∧ b.isParticipating ⟨3⟩ = false) := by
  have hreached : Reached ⟨outnumbering, none⟩ := ⟨_, _, rfl⟩
  have halone : outnumbering.LeavesAlone resolving ⟨3⟩ := leavesAlone_of_idle (fun _ => rfl) _ _
  have hcatches : outnumbering.board.Catches mortimer
      { Player.new ⟨0⟩ "Ann" 0 with cheatin := true } := ⟨rfl, rfl, rfl, rfl, rfl, rfl⟩
  obtain ⟨hcaught, -⟩ := showdown_decided hreached showdown_outnumbering halone
  have hleft : ((mortimersShootout.remove ⟨3⟩).leaderPosse.dudes ≠ [] ∧
      (mortimersShootout.remove ⟨3⟩).markPosse.dudes ≠ []) ↔ True := by decide
  have hdecides := hcaught _ hcatches
  rw [hleft] at hdecides
  exact ⟨hreached, showdown_outnumbering, halone, _, hcatches, hdecides⟩

end Moment

end Doomtown
