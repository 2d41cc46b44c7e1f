import Doomtown.Catalog
import Doomtown.Engine.Match
import Doomtown.Engine.Menu
import Doomtown.Recorded

/-!
# The sample round

Alice and Bob play part of a round with the sample cards: a noon action, a reaction when shootout
plays begin, a forced trigger when the hands are revealed, and a cheatin' resolution play.
-/

namespace Doomtown.Demo

open Play

/-- A play of the demo, which may run out of turns. -/
abbrev Scene := OptionT (Play (Match Controller))

/-- How many turns a scene may take between two decisions, and how many decisions. -/
def turns : Nat := 10000

/-- The first player. -/
def alice : PlayerId := ⟨0⟩

/-- The second player. -/
def bob : PlayerId := ⟨1⟩

/-- The cards that take part. -/
structure Cast where
  allie : CatalogCard
  pearlys : CatalogCard
  varmint : CatalogCard
  mortimer : CatalogCard

/-! ## Elements of a scene -/

/-- Play on the engine. -/
def onEngine {α : Type} (p : Play Engine α) : Scene α := OptionT.lift (Match.onEngine p)

/-- Play on the engine and run its queue. -/
def running {α : Type} (p : Play Engine (Option α)) : Scene α := OptionT.mk (Match.onEngine p)

/-- Change the board. -/
def onBoard (p : Play Board Unit) : Scene Unit := onEngine (Engine.onBoard p)

/-- Let the players decide until the queue is empty. -/
def decideAll : Scene Unit := OptionT.mk (Match.runWith Controller.choose turns turns)

/-- Open a window. -/
def openWindow (w : PlayWindow) : Scene Unit := do
  onBoard (change fun b => { b with round := { b.round with window := some w } })
  running (Engine.raiseEvent turns (.playWindowOpened w) .done)

/-- Start an action of Alice and let the players decide. -/
def play (a : AbilityId) : Scene Unit := do
  discard (running (Engine.playAction turns a alice))
  decideAll

/-! ## The scenes -/

/-- Put the cards on the board. -/
def deal : Scene Cast := do
  let allie ← onEngine (Catalog.place Catalog.allieHensman alice .playArea)
  let pearlys ← onEngine (Catalog.place Catalog.pearlysPalace alice .playArea)
  let varmint ← onEngine (Catalog.place Catalog.cheatinVarmint alice .hand)
  let mortimer ← onEngine (Catalog.place Catalog.mortimerParsons bob .playArea)
  onBoard (Board.modifyCard allie.card ({ · with inTownSquare := true }))
  return ⟨allie, pearlys, varmint, mortimer⟩

/-- The round begins, up to the noon plays. -/
def morning : Scene Cast := do
  let cast ← deal
  running (Engine.startRound turns)
  onBoard (change fun b => { b with round := { b.round with phase := .highNoon } })
  openWindow .noon
  return cast

/-- The menu entries of the actions among some abilities. -/
def menuOf : List AbilityId → Scene (List MenuItem)
  | [] => return []
  | a :: rest => do
    let ability ← onEngine (Engine.getAbility a)
    let others ← menuOf rest
    if ability.isAction then
      return (← onEngine (Engine.menuItem a a.text alice)) :: others
    else
      return others

/-- Alice's menu. -/
def menu (cast : Cast) : Scene (List MenuItem) :=
  menuOf ([cast.allie, cast.pearlys, cast.varmint, cast.mortimer].flatMap (·.abilities))

/-- Reveal the hands with Bob caught cheatin', and let the shootout resolve unless Mortimer's
walk home has ended it. -/
def reveal : Scene Unit := do
  onBoard (Board.modifyPlayer bob ({ · with cheatin := true }))
  discard (onEngine (Engine.post (.task "reveal draw hands"
    (.raise (.drawHandsRevealed true) .done .done))))
  let resolving ← onEngine (Engine.post (.task "resolve shootout"
    (.just (.message "The shootout resolves" []))))
  onBoard (change fun b => { b with
    shootout := b.shootout.map ({ · with pendingStep := some resolving }) })
  discard (running (Engine.settle turns))
  decideAll

/-- From the noon plays to the end. -/
def showdown (cast : Cast) : Scene Unit := do
  cast.allie.abilities.forM play
  onBoard (change fun b =>
    { b with shootout := some (.new cast.allie.card alice cast.mortimer.card bob) })
  openWindow .shootoutPlays
  decideAll
  reveal
  onBoard (change fun b => { b with shootout := none })
  openWindow .resolution
  (cast.varmint.abilities.drop 1).forM play

/-! ## The show -/

/-- A recorded match before the first scene. -/
def start (log : Log) (controller : PlayerId → Controller) : Recorded (Match Controller) :=
  ⟨⟨.new (.twoPlayer "Alice" "Bob" 10), [⟨alice, controller alice⟩, ⟨bob, controller bob⟩]⟩, log⟩

/-- Print lines past the log. -/
def printLines (g : Recorded (Match Controller)) (lines : List String) :
    Recorded (Match Controller) :=
  { g with log := { g.log with printed := g.log.printed ++ lines.toArray } }

/-- How the show ended. `none` in the place of the error stands for running out of turns. -/
abbrev Ending := Except (Option RulesError) Unit

/-- The ending of a scene. -/
def ending {α : Type} : Except RulesError (Option α) → Except (Option RulesError) α
  | .ok (some a) => .ok a
  | .ok none => .error none
  | .error e => .error (some e)

/-- Play all scenes; between noon and the rest, the lines of `menuLines` are printed for Alice's
menu. What the log kept is printed at the end. -/
def playRound (menuLines : List MenuItem → List String) (g : Recorded (Match Controller)) :
    Ending × Recorded (Match Controller) :=
  let (first, g) := g.perform (do let cast ← morning; return (cast, ← menu cast)).run
  match ending first with
  | .error e => (.error e, g)
  | .ok (cast, items) =>
    let g := printLines g (menuLines items)
    let (rest, g) := g.perform (showdown cast).run
    match ending rest with
    | .error e => (.error e, g)
    | .ok () => (.ok (), { g with log := g.log.flush })

end Doomtown.Demo
