import Doomtown.CardText.Instruction
import Doomtown.Saved.Rules

/-!
# Written card texts

Card texts as JSON. A name, an amount or a condition is a word, a number or an array that starts
with a word; an instruction is an array that starts with its verb. What is no name stands for
nobody and what is no condition never holds, while what is no instruction is not read at all.
-/

namespace Doomtown.CardText

/-! ## Names and conditions -/

/-- The card that a value names. -/
def cardRef (j : Json) : CardRef :=
  match j with
  | .number .. => ((Saved.id.load j).map CardRef.number).getD .nothing
  | .text "source" => .source
  | .text "it" => .candidate
  | .text "event" => .ofEvent
  | .object [("target", .text slot)] => .target slot
  | .object [("top", l)] => ((Saved.location.load l).map CardRef.top).getD .nothing
  | .object [("first", l)] => ((Saved.location.load l).map CardRef.first).getD .nothing
  | _ => .nothing

/-- The comparison of a sign. -/
def comparison? : String → Option Comparison
  | "<" => some .less
  | "<=" => some .atMost
  | "==" => some .equal
  | "!=" => some .unequal
  | ">=" => some .atLeast
  | ">" => some .greater
  | _ => none

mutual

/-- The player whom a value names. -/
def playerRef (j : Json) : PlayerRef :=
  match j with
  | .number m n => ((Saved.id.load (.number m n)).map PlayerRef.number).getD .nobody
  | .text "player" => .user
  | .text "it" => .candidate
  | .text "active" => .active
  | .text "chosen" => .chosen
  | .text "event" => .ofEvent
  | .object [("target", .text slot)] => .target slot
  | .object [("controller", c)] => .controller (cardRef c)
  | .object [("owner", c)] => .owner (cardRef c)
  | .object [("opponent", p)] => .opponent (playerRef p)
  | .object [("if", .array [c, x, y])] => .ifElse (clause c) (playerRef x) (playerRef y)
  | _ => .nobody

/-- The amount that a value speaks of. -/
def amount? (j : Json) : Option Amount :=
  match j with
  | .array [.text "rock", p] => some (.ghostRock (playerRef p))
  | .array [.text "rank", p] => some (.rank (playerRef p))
  | .array [.text "hand", p] => some (.handSize (playerRef p))
  | .array [.text "influence", c] => some (.influence (cardRef c))
  | .array [.text "control", c] => some (.control (cardRef c))
  | .array [.text "round"] => some .round
  | .array [.text "event_round"] => some .beginningRound
  | .array [.text "count", l] => (Saved.location.load l).map .count
  | .array [.text "seat", p] => some (.seatDistance (playerRef p))
  | _ => none

/-- The condition that a value states. -/
def clause (j : Json) : Clause :=
  match j with
  | .bool v => if v then .always else .never
  | .array [.text "not", c] => .not (clause c)
  | .array (.text "and" :: cs) => allOf cs
  | .array (.text "or" :: cs) => anyOf cs
  | .array [.text "booted", c] => .card (cardRef c) .booted
  | .array [.text "blank", c] => .card (cardRef c) .blank
  | .array [.text "town", c] => .card (cardRef c) .inTownSquare
  | .array [.text "type", c, t] =>
    ((Saved.cardType.load t).map fun t => Clause.card (cardRef c) (.ofType t)).getD .never
  | .array [.text "keyword", c, .text k] => .card (cardRef c) (.hasKeyword (.of k))
  | .array [.text "at", c, l] =>
    ((Saved.location.load l).map fun l => Clause.card (cardRef c) (.isAt l)).getD .never
  | .array [.text "controlled", c, p] => .controlled (cardRef c) (playerRef p)
  | .array [.text "owned", c, p] => .owned (cardRef c) (playerRef p)
  | .array [.text "participating", c] => .participating (cardRef c)
  | .array [.text "same_card", c, d] => .sameCard (cardRef c) (cardRef d)
  | .array [.text "same_player", p, q] => .samePlayer (playerRef p) (playerRef q)
  | .array [.text "cheatin", p] => .cheatin (playerRef p)
  | .array [.text "phase", p] => ((Saved.phase.load p).map Clause.phase).getD .never
  | .array [.text "window", w] => ((Saved.playWindow.load w).map Clause.window).getD .never
  | .array [.text "headline_used"] => .headlineUsed
  | .array [.text "has_target", .text slot] => .hasTarget slot
  | .array [.text "event_is", n] => ((Saved.eventName.load n).map Clause.eventName).getD .never
  | .array [.text "event_data", d] => ((Saved.eventData.load d).map Clause.eventData).getD .never
  | .array [.text "event_window", w] =>
    ((Saved.playWindow.load w).map Clause.eventWindow).getD .never
  | .array [.text "cmp", a, .text sign, n] =>
    match amount? a, comparison? sign, Saved.int64.load n with
    | some a, some how, some n => .compare a how n
    | _, _, _ => .never
  | _ => .never

/-- All the conditions of a list. -/
def allOf : List Json → Clause
  | [] => .always
  | c :: rest => .both (clause c) (allOf rest)

/-- One of the conditions of a list. -/
def anyOf : List Json → Clause
  | [] => .never
  | c :: rest => .either (clause c) (anyOf rest)

end

/-- What a message mentions. -/
def mention (j : Json) : Mention :=
  let unknown : Mention := .plain (.text "?")
  match j with
  | .object [("player", p)] => .player (playerRef p)
  | .object [("card", c)] => .card (cardRef c)
  | .object [("text", .text t)] => .plain (.text t)
  | .object [("number", n)] =>
    ((Saved.int64.load n).map fun n => Mention.plain (.number n)).getD unknown
  | .object [("num", a)] => ((amount? a).map Mention.amount).getD unknown
  | _ => unknown

/-- All that a message mentions. -/
def mentions : Json → List Mention
  | .array l => l.map mention
  | _ => []

/-! ## Instructions -/

/-- An order to a player by an amount. -/
def toPlayerBy {α : Type} (p n : Json) (s : Saved α) (o : PlayerId → α → Order) :
    Option Instruction := do
  let n ← s.load n
  some (.toPlayer (playerRef p) fun p => o p n)

/-- An order to a card with a value. -/
def toCardBy {α : Type} (c n : Json) (s : Saved α) (o : CardId → α → Order) :
    Option Instruction := do
  let n ← s.load n
  some (.toCard (cardRef c) fun c => o c n)

mutual

/-- The instruction that a value writes. -/
def instruction? (j : Json) : Option Instruction :=
  match j with
  | .array [.text "gain", p, n] => toPlayerBy p n Saved.word32 .gain
  | .array [.text "spend", p, n] => toPlayerBy p n Saved.word32 .spend
  | .array [.text "rank", p, n] => toPlayerBy p n Saved.int32 .modifyRank
  | .array [.text "cheatin", p, v] => toPlayerBy p v Saved.bool .setCheatin
  | .array [.text "restrict", p, r] => toPlayerBy p r Saved.restriction .restrict
  | .array [.text "boot", c] => some (.toCard (cardRef c) .boot)
  | .array [.text "unboot", c] => some (.toCard (cardRef c) .unboot)
  | .array [.text "send_home", c] => some (.toCard (cardRef c) .sendHome)
  | .array [.text "control", c, n] => toCardBy c n Saved.int32 .addControl
  | .array [.text "blank", c, v] => toCardBy c v Saved.bool .setBlank
  | .array [.text "take", c, p] => some (.take (cardRef c) (playerRef p))
  | .array [.text "move", c, l] => toCardBy c l Saved.location .move
  | .array [.text "state_move", c, l] => toCardBy c l Saved.location .shift
  | .array [.text "message", .text template, args] => some (.message template (mentions args))
  | .array [.text "raise", d] => return .raise (← Saved.eventData.load d) []
  | .array [.text "raise", d, .array change] =>
    return .raise (← Saved.eventData.load d) (← instructions? change)
  | .array [.text "queue", .text label, .array body] => return .queue label (← instructions? body)
  | .array [.text "prompt", p, .text title, buttons, .array answers] =>
    return .prompt (playerRef p) title (← Saved.text.list.load buttons) (← answers? answers)
  | .array [.text "cancel", step] => return .withdraw (← Saved.id.option.load step)
  | .array [.text "execute", a, p] => return .activate (← Saved.id.load a) (playerRef p)
  | .array [.text "deactivate", a, p] => return .retract (← Saved.id.load a) (playerRef p)
  | .array [.text "respond", p, n] => return .respond (playerRef p) (← Saved.word64.load n)
  | .array [.text "continue"] => some .resume
  | .array [.text "begin_round"] => some (.order .beginRound)
  | .array [.text "register", a] => return .order (.register (← Saved.id.load a))
  | .array [.text "unregister", a] => return .order (.unregister (← Saved.id.load a))
  | .array [.text "phase", p] => return .order (.setPhase (← Saved.phase.load p))
  | .array [.text "window", w] => return .order (.setWindow (← Saved.playWindow.option.load w))
  | .array [.text "active", p] => some (.toPlayer (playerRef p) .setActivePlayer)
  | .array [.text "if", c, .array yes, .array no] =>
    return .ifElse (clause c) (← instructions? yes) (← instructions? no)
  | .array [.text "fail", .text why] => some (.fail why)
  | _ => none

/-- Instructions one after the other. -/
def instructions? : List Json → Option (List Instruction)
  | [] => some []
  | j :: rest => return (← instruction? j) :: (← instructions? rest)

/-- The instructions of each button. -/
def answers? : List Json → Option (List (List Instruction))
  | [] => some []
  | .array l :: rest => return (← instructions? l) :: (← answers? rest)
  | _ :: _ => none

end

/-- The script of an array of instructions. -/
def script? (s : Scope) : Json → Option Script
  | .array l => (instructions? l).map (scriptOf s)
  | _ => none

end Doomtown.CardText
