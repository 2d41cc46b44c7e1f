import Doomtown.Engine.Menu
import Doomtown.Saved.Board

/-!
# Saved forms of the rules' values

The saved forms of costs, limits, events, activations, subscriptions, prompts and messages.
-/

namespace Doomtown.Saved

/-! ## Costs and limits -/

/-- A cost; one that names a card or an amount holds it. -/
def cost : Saved Cost where
  save
    | .bootSelf => .text "BootSelf"
    | .bootCard c => held "BootCard" (id.save c)
    | .payGhostRock n => held "PayGhostRock" (.nat n)
    | .discardSelf => .text "DiscardSelf"
    | .aceSelf => .text "AceSelf"
    | .playAction => .text "PlayAction"
  load j := do
    match ← case? j with
    | ("BootSelf", content) => if isBare content then some .bootSelf else none
    | ("BootCard", some c) => return .bootCard (← id.load c)
    | ("PayGhostRock", some n) => return .payGhostRock (← word32.load n)
    | ("DiscardSelf", content) => if isBare content then some .discardSelf else none
    | ("AceSelf", content) => if isBare content then some .aceSelf else none
    | ("PlayAction", content) => if isBare content then some .playAction else none
    | _ => none

/-- A receipt, which holds a record of what was paid. -/
def receipt : Saved CostReceipt where
  save
    | .booted c => held "Booted" (.object [("card", id.save c)])
    | .ghostRockSpent p n =>
      held "GhostRockSpent" (.object [("player", id.save p), ("amount", .nat n)])
    | .moved c origin destination => held "Moved" (.object [("card", id.save c),
        ("from", location.save origin), ("to", location.save destination)])
  load j := do
    match ← case? j with
    | ("Booted", some body) =>
      let [c] ← members? ["card"] body | none
      return .booted (← id.field c)
    | ("GhostRockSpent", some body) =>
      let [p, n] ← members? ["player", "amount"] body | none
      return .ghostRockSpent (← id.field p) (← word32.field n)
    | ("Moved", some body) =>
      let [c, f, t] ← members? ["card", "from", "to"] body | none
      return .moved (← id.field c) (← location.field f) (← location.field t)
    | _ => none

/-- A period, by its name. -/
def limitPeriod : Saved LimitPeriod := named [.round, .shootout] LimitPeriod.tag

/-- A limit. -/
def limit : Saved AbilityLimit where
  save l := .object [("max", .nat l.max), ("period", limitPeriod.save l.period)]
  load j := do
    let [m, p] ← fields? ["max", "period"] j | none
    some ⟨← word32.field m, ← limitPeriod.field p⟩

/-- A counter with its limit. -/
def usage : Saved AbilityUsage where
  save u := .object [("limit", limit.save u.limit), ("count", .nat u.count)]
  load j := do
    let [l, c] ← fields? ["limit", "count"] j | none
    some ⟨← limit.field l, ← word32.field c⟩

/-! ## Abilities -/

/-- A kind of ability, by its name. -/
def abilityKind : Saved AbilityKind :=
  named [.action, .reaction, .forced, .prompted] AbilityKind.tag

/-- A type of play, by its name. -/
def playType : Saved PlayType :=
  named [.noon, .shootout, .shootoutJoin, .resolution, .cheatinResolution, .any] PlayType.tag

/-- The check that failed, by its name. -/
def illegal : Saved Illegal :=
  named [.playType, .location, .headline, .playerRestricted, .usedUp, .notAllowedPlayer, .blank,
    .defaultCondition, .condition, .unresolvablePlayer, .unaffordable, .noTargets,
    .effectDisallowed] Illegal.tag

/-- An entry of a menu. -/
def menuItem : Saved MenuItem where
  save m := .object [("text", .text m.text), ("method", .text m.method), ("arg", .text m.arg),
    ("any_player", .bool m.anyPlayer), ("disabled", .bool m.disabled)]
  load j := do
    let [t, m, a, p, d] ← fields? ["text", "method", "arg", "any_player", "disabled"] j | none
    some ⟨← text.field t, ← text.field m, ← text.field a, ← bool.field p, ← bool.field d⟩

/-! ## Activations -/

/-- A stage of an activation, by its name. -/
def stage : Saved ActivationStage :=
  named [.idle, .legalityChecked, .costsPaid, .deactivated, .targetsResolved, .executed,
    .eventEmitted, .completed] fun
    | .idle => "Idle"
    | .legalityChecked => "LegalityChecked"
    | .costsPaid => "CostsPaid"
    | .deactivated => "Deactivated"
    | .targetsResolved => "TargetsResolved"
    | .executed => "Executed"
    | .eventEmitted => "EventEmitted"
    | .completed => "Completed"

/-- A target, which holds its number. -/
def target : Saved ChosenTarget where
  save
    | .player p => held "Player" (id.save p)
    | .card c => held "Card" (id.save c)
  load j := do
    match ← case? j with
    | ("Player", some p) => return .player (← id.load p)
    | ("Card", some c) => return .card (← id.load c)
    | _ => none

/-- A stage that is still to come, by its name. -/
def resolutionStage : Saved ResolutionStage :=
  named [.payCosts, .chooseTargets, .execute] ResolutionStage.tag

/-- An argument of a message, which holds its value. -/
def messageArg : Saved MessageArg where
  save
    | .player p => held "Player" (id.save p)
    | .card c => held "Card" (id.save c)
    | .text s => held "Text" (.text s)
    | .number n => held "Number" (.int n)
  load j := do
    match ← case? j with
    | ("Player", some p) => return .player (← id.load p)
    | ("Card", some c) => return .card (← id.load c)
    | ("Text", some s) => return .text (← text.load s)
    | ("Number", some n) => return .number (← int64.load n)
    | _ => none

/-! ## Events -/

/-- The name of an event. -/
def eventName : Saved EventName :=
  named [.beginRound, .phaseStarted, .phaseEnded, .playWindowOpened, .playWindowClosed,
    .drawHandsRevealed, .abilityResolved, .cardEnteredPlay, .cardLeftPlay, .shootoutFinished]
    EventName.tag

/-- An event; all but the end of a shootout hold a record of what happened. -/
def eventData : Saved EventData where
  save d :=
    let body : List (String × Json) := match d with
      | .beginRound n => [("round", .nat n)]
      | .phaseStarted p | .phaseEnded p => [("phase", phase.save p)]
      | .playWindowOpened w | .playWindowClosed w => [("window", playWindow.save w)]
      | .drawHandsRevealed s => [("shootout", .bool s)]
      | .abilityResolved a c p =>
        [("ability", id.save a), ("source", id.save c), ("player", id.save p)]
      | .cardEnteredPlay c l => [("card", id.save c), ("from", location.save l)]
      | .cardLeftPlay c l => [("card", id.save c), ("to", location.save l)]
      | .shootoutFinished => []
    if body.isEmpty then .text d.name.tag else held d.name.tag (.object body)
  load j := do
    match ← case? j with
    | ("BeginRound", some body) =>
      let [n] ← members? ["round"] body | none
      return .beginRound (← word32.field n)
    | ("PhaseStarted", some body) =>
      let [p] ← members? ["phase"] body | none
      return .phaseStarted (← phase.field p)
    | ("PhaseEnded", some body) =>
      let [p] ← members? ["phase"] body | none
      return .phaseEnded (← phase.field p)
    | ("PlayWindowOpened", some body) =>
      let [w] ← members? ["window"] body | none
      return .playWindowOpened (← playWindow.field w)
    | ("PlayWindowClosed", some body) =>
      let [w] ← members? ["window"] body | none
      return .playWindowClosed (← playWindow.field w)
    | ("DrawHandsRevealed", some body) =>
      let [s] ← members? ["shootout"] body | none
      return .drawHandsRevealed (← bool.field s)
    | ("AbilityResolved", some body) =>
      let [a, c, p] ← members? ["ability", "source", "player"] body | none
      return .abilityResolved (← id.field a) (← id.field c) (← id.field p)
    | ("CardEnteredPlay", some body) =>
      let [c, l] ← members? ["card", "from"] body | none
      return .cardEnteredPlay (← id.field c) (← location.field l)
    | ("CardLeftPlay", some body) =>
      let [c, l] ← members? ["card", "to"] body | none
      return .cardLeftPlay (← id.field c) (← location.field l)
    | ("ShootoutFinished", content) => if isBare content then some .shootoutFinished else none
    | _ => none

/-- An event with its timestamp. -/
def gameEvent : Saved GameEvent where
  save e := .object [("timestamp", .nat e.timestamp), ("data", eventData.save e.data)]
  load j := do
    let [t, d] ← fields? ["timestamp", "data"] j | none
    some ⟨← word64.field t, ← eventData.field d⟩

/-! ## Subscriptions -/

/-- A listener, by its name. -/
def listener : Saved Listener :=
  named [.trigger, .resetUsage, .clearActivations] fun
    | .trigger => "Trigger"
    | .resetUsage => "ResetUsage"
    | .clearActivations => "ClearActivations"

/-- Subscriptions are numbered with 64 bits. -/
def subscriptionId : Saved SubscriptionId := word64.like Id.mk Id.number

/-- A subscription. -/
def subscription : Saved Subscription where
  save s := .object [("id", subscriptionId.save s.id), ("ability", id.save s.ability),
    ("event", eventName.save s.event), ("listener", listener.save s.listener)]
  load j := do
    let [i, a, e, l] ← fields? ["id", "ability", "event", "listener"] j | none
    some ⟨← subscriptionId.field i, ← id.field a, ← eventName.field e, ← listener.field l⟩

/-! ## Prompts -/

/-- What is shown of a prompt. The source may be missing. -/
def promptView : Saved PromptView where
  save p := .object [("title", .text p.title), ("buttons", text.list.save p.buttons),
    ("source", id.option.save p.source)]
  load j := do
    let [t, b, s] ← fields? ["title", "buttons", "source"] j | none
    some ⟨← text.field t, ← text.list.field b, ← id.option.field s⟩

/-- Where the queue stands; a waiting prompt holds a record of its player. -/
def queueStatus : Saved QueueStatus where
  save
    | .idle => .text "Idle"
    | .awaiting p => held "AwaitingPrompt" (.object [("player", id.save p)])
  load j := do
    match ← case? j with
    | ("Idle", content) => if isBare content then some .idle else none
    | ("AwaitingPrompt", some body) =>
      let [p] ← members? ["player"] body | none
      return .awaiting (← id.field p)
    | _ => none

end Doomtown.Saved
