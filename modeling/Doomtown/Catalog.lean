import Doomtown.Engine.Run

/-!
# Sample cards

A handful of cards with their abilities.
-/

namespace Doomtown

/-- A card to put on the board. -/
structure CatalogEntry where
  title : String
  type : CardType
  influence : Int
  /-- The abilities of the card of this number. -/
  designs : CardId → List Design

/-- A card that was put on the board, and its abilities. -/
structure CatalogCard where
  card : CardId
  abilities : List AbilityId
deriving DecidableEq

namespace Catalog

open Play

/-! ## Allie Hensman -/

/-- Noon: boot to gain a permanent control point, only while in town square. -/
def allieHensman : CatalogEntry where
  title := "Allie Hensman"
  type := .dude
  influence := 1
  designs _ := [{
    kind := .action
    title := some "Allie Hensman"
    playTypes := [.noon]
    costs := [.bootSelf]
    limit := some ⟨1, .round⟩
    effectCondition := fun b x => b.cardIs x.source (·.inTownSquare)
    failMessage := "\x7b0\x7d uses \x7b1\x7d but does not gain any control point " ++
      "because she is not in Town Square"
    message := some "\x7b0\x7d uses \x7b1\x7d to gain permanent control point"
    messageArgs := fun _ x => [.player x.player, .card x.source]
    handler := some fun x => .just (.addControl x.source 1) }]

/-! ## Cheatin' Varmint -/

/-- Lower the hand of the chosen player by two ranks and say so. -/
def lowerHand (template : String) (x : Activation) : Script :=
  match x.chosenPlayer? with
  | none => .fail (.refused .noPlayerChosen)
  | some p => .obey (.modifyRank p (-2)) fun _ => .look fun v =>
    let rank := ((v.board.player? p).map (·.totalRank)).getD 1
    .just (.message template [.player x.player, .card x.source, .player p, .number rank])

/-- Resolution: pay to lower a player's hand. Cheatin' resolution: the same for nothing. -/
def cheatinVarmint : CatalogEntry where
  title := "Cheatin' Varmint"
  type := .action
  influence := 0
  designs _ := [{
    kind := .action
    title := some "Resolution: Lower hand by 2 ranks"
    playTypes := [.resolution]
    targets := [⟨"player", .players fun _ _ _ => true⟩]
    costs := [.payGhostRock 5]
    handler := some (lowerHand <|
      "\x7b0\x7d uses \x7b1\x7d and pays 5 ghost rock to lower \x7b2\x7d's draw hand " ++
        "by 2 ranks. Current rank is \x7b3\x7d") },
  { kind := .action
    title := some "Cheatin' Resolution: Lower hand by 2 ranks"
    playTypes := [.cheatinResolution]
    targets := [⟨"player", .players fun _ _ _ => true⟩]
    handler := some (lowerHand <|
      "\x7b0\x7d uses \x7b1\x7d to lower \x7b2\x7d's draw hand by 2 ranks. " ++
        "Current rank is \x7b3\x7d") }]

/-! ## Pearly's Palace -/

/-- React when shootout plays begin: boot to make a shootout play before all others. -/
def pearlysPalace : CatalogEntry where
  title := "Pearly's Palace"
  type := .deed
  influence := 0
  designs _ := [{
    kind := .reaction
    triggers := [(.playWindowOpened, fun _ event => event.data = .playWindowOpened .shootoutPlays)]
    costs := [.bootSelf]
    message := some "\x7bplayer\x7d uses \x7bsource\x7d to make shootout play before any player"
    handler := some fun x =>
      .prompt x.player "Make shootout play" ["Done"] (some x.source) (fun _ => .done)
        fun _ => .done }]

/-! ## Mortimer Parsons -/

/-- Whether a card is in the shootout and its controller's hand is cheatin'. -/
def isCaughtCheatin (c : CardId) (b : Board) : Bool :=
  b.isParticipating c &&
    b.cardIs c fun card => (b.player? card.controller).any (·.cheatin)

/-- The step that decides a shootout that is over. -/
def decidingStep? (b : Board) : Option StepId :=
  (b.shootout.filter (·.isOver)).bind (·.pendingStep)

/-- When hands are revealed for a shootout: a cheatin' hand sends him home booted and without
influence, and the shootout ends if his posse is now empty. -/
def mortimerParsons : CatalogEntry where
  title := "Mortimer Parsons"
  type := .dude
  influence := 1
  designs c := [{
    kind := .forced
    triggers := [(.drawHandsRevealed, fun b event =>
      event.data = .drawHandsRevealed true && isCaughtCheatin c b)]
    message := some <| "\x7bplayer\x7d's cheatin' hand sends \x7bsource\x7d home booted " ++
      "and reduces his influence to 0"
    handler := some fun x =>
      .obey (.setInfluence x.source 0) fun _ =>
      .obey (.sendHome x.source) fun _ =>
      .look fun v =>
        match decidingStep? v.board with
        | some step => .just (.withdraw step)
        | none => .done }]

/-! ## The catalog -/

/-- All entries. -/
def entries : List CatalogEntry := [allieHensman, cheatinVarmint, pearlysPalace, mortimerParsons]

/-- Attach abilities to a card, in order. -/
def addAbilities (c : CardId) : List Design → Play Engine (List AbilityId)
  | [] => answer []
  | d :: rest => do
    let a ← Engine.addAbility c d
    let others ← addAbilities c rest
    answer (a :: others)

/-- Put a card on the board with its abilities. -/
def place (entry : CatalogEntry) (owner : PlayerId) (location : Location) :
    Play Engine CatalogCard := do
  let c ← Engine.onBoard (Board.createCard owner entry.title entry.type location)
  Engine.onBoard (Board.modifyCard c ({ · with influence := entry.influence }))
  let abilities ← addAbilities c (entry.designs c)
  answer ⟨c, abilities⟩

/-- Put the card of a title on the board. -/
def create (title : String) (owner : PlayerId) (location : Location) :
    Play Engine CatalogCard :=
  match entries.find? (·.title = title) with
  | some entry => place entry owner location
  | none => fail (.refused (.unknownTitle title))

end Catalog

end Doomtown
