import Doomtown.CardText.Clause
import Doomtown.Script

/-!
# Instructions

What card texts tell the engine to do, as data. An instruction names its players and cards, and
`script` resolves the names when its turn comes; it is refused if a name then stands for nobody.
Instructions inside others, behind an event, in a step or under a button, keep the scope in which
they were given.
-/

namespace Doomtown.CardText

/-- Something that a message mentions. -/
inductive Mention where
  | player (p : PlayerRef)
  | card (c : CardRef)
  | amount (a : Amount)
  | plain (arg : MessageArg)

/-- The argument of a mention; what cannot be resolved is a question mark. -/
def Mention.argument (b : Board) (s : Scope) (m : Mention) : MessageArg :=
  let arg? : Option MessageArg := match m with
    | player p => (p.resolve b s).map .player
    | card c => (c.resolve b s).map .card
    | amount a => (a.value b s).map .number
    | plain arg => some arg
  arg?.getD (.text "?")

/-- Something that a text tells the engine to do. -/
inductive Instruction where
  | order (o : Order)
  | toPlayer (p : PlayerRef) (o : PlayerId → Order)
  | toCard (c : CardRef) (o : CardId → Order)
  /-- Give a card to another controller. -/
  | take (c : CardRef) (p : PlayerRef)
  | message (template : String) (mentions : List Mention)
  | raise (data : EventData) (change : List Instruction)
  | queue (label : String) (body : List Instruction)
  | prompt (p : PlayerRef) (title : String) (buttons : List String)
      (answers : List (List Instruction))
  /-- Withdraw a step, or the one that decides the shootout, and note what came of it. -/
  | withdraw (step : Option StepId)
  /-- Start an action and note what came of it. -/
  | activate (a : AbilityId) (p : PlayerRef)
  /-- Retract an action and note what came of it. -/
  | retract (a : AbilityId) (p : PlayerRef)
  /-- Answer the open prompt and note what came of it. -/
  | respond (p : PlayerRef) (choice : Nat)
  /-- Go on with the queue and note where it stands. -/
  | resume
  | ifElse (c : Clause) (yes no : List Instruction)
  | fail (why : String)

/-! ## Meaning -/

/-- Refuse for a reason. -/
def refuse (why : String) : Script := .fail (.refused (.because why))

/-- Go on with the player of a name. -/
def withPlayer (s : Scope) (p : PlayerRef) (next : PlayerId → Script) : Script :=
  .look fun v =>
    match p.resolve v.board s with
    | some p => next p
    | none => refuse "no such player"

/-- Go on with the card of a name. -/
def withCard (s : Scope) (c : CardRef) (next : CardId → Script) : Script :=
  .look fun v =>
    match c.resolve v.board s with
    | some c => next c
    | none => refuse "no such card"

/-- A truth value as traces show it. -/
def shown (b : Bool) : String := if b then "true" else "false"

/-- Note what came of an order. -/
def noting (name : String) (reply : Bool) : Script := .just (.note s!"{name}: {shown reply}")

/-- Withdraw a step if there is one, and note what came of it. -/
def withdrawing : Option StepId → Script
  | some step => .obey (.withdraw step) fun done => .just (.note s!"cancel: Some({shown done})")
  | none => .just (.note "cancel: None")

mutual

/-- The script of an instruction. -/
def Instruction.script (s : Scope) : Instruction → Script
  | .order o => .just o
  | .toPlayer p o => withPlayer s p fun p => .just (o p)
  | .toCard c o => withCard s c fun c => .just (o c)
  | .take c p => withCard s c fun c => withPlayer s p fun p => .just (.setController c p)
  | .message template mentions =>
    .look fun v => .just (.message template (mentions.map (·.argument v.board s)))
  | .raise data change => .raise data (scriptOf s change) .done
  | .queue label body => .queue label (scriptOf s body) fun _ => .done
  | .prompt p title buttons answers => withPlayer s p fun p =>
      .prompt p title buttons (s.activation.map (·.source)) (answerOf s answers) fun _ => .done
  | .withdraw (some step) => withdrawing (some step)
  | .withdraw none => .look fun v => withdrawing (v.board.shootout.bind (·.pendingStep))
  | .activate a p => withPlayer s p fun p => .obey (.activate a p) (noting "execute")
  | .retract a p => withPlayer s p fun p => .obey (.retract a p) (noting "deactivate")
  | .respond p n => withPlayer s p fun p => .obey (.respond p n) (noting "respond")
  | .resume => .obey .resume fun status => .just (.note s!"continue: {QueueStatus.tag status}")
  | .ifElse c yes no =>
    .look fun v => if c.holds v.board s then scriptOf s yes else scriptOf s no
  | .fail why => refuse why

/-- The script of instructions one after the other. -/
def scriptOf (s : Scope) : List Instruction → Script
  | [] => .done
  | i :: rest => (i.script s).andThen (scriptOf s rest)

/-- The script of a button; one without instructions does nothing. -/
def answerOf (s : Scope) : List (List Instruction) → Nat → Script
  | [], _ => .done
  | l :: _, 0 => scriptOf s l
  | _ :: rest, n + 1 => answerOf s rest n

end

end Doomtown.CardText
