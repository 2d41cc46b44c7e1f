import Doomtown.Board
import Doomtown.Recorded
import Doomtown.Saved

/-!
# Saved boards

The saved form of a board and of all that is on it, and of a log's settings. What a log keeps is
not saved.
-/

namespace Doomtown.Saved

/-! ## Cards and zones -/

/-- A location, by its name. -/
def location : Saved Location := named Location.all Location.tag

/-- A card type, by its name. -/
def cardType : Saved CardType :=
  named [.dude, .deed, .goods, .spell, .action, .outfit, .joker] CardType.tag

/-- A keyword, as its text. Loading takes the text as it is, in any case. -/
def keyword : Saved Keyword := text.like Keyword.mk Keyword.text

/-- A card. -/
def card : Saved Card where
  save c := .object [
    ("id", id.save c.id), ("title", .text c.title), ("card_type", cardType.save c.type),
    ("keywords", keyword.list.save c.keywords), ("owner", id.save c.owner),
    ("controller", id.save c.controller), ("location", location.save c.location),
    ("booted", .bool c.booted), ("blank", .bool c.blank), ("influence", .int c.influence),
    ("control", .int c.control), ("in_town_square", .bool c.inTownSquare)]
  load j := do
    let [i, t, ty, ks, o, c, l, bo, bl, inf, con, sq] ← fields? ["id", "title", "card_type",
      "keywords", "owner", "controller", "location", "booted", "blank", "influence", "control",
      "in_town_square"] j | none
    some {
      id := ← id.field i
      title := ← text.field t
      type := ← cardType.field ty
      keywords := ← keyword.list.field ks
      owner := ← id.field o
      controller := ← id.field c
      location := ← location.field l
      booted := ← bool.field bo
      blank := ← bool.field bl
      influence := ← int32.field inf
      control := ← int32.field con
      inTownSquare := ← bool.field sq }

/-- A zone with its cards in order. -/
def zone : Saved Zone where
  save z := .object [("location", location.save z.location), ("owner", id.save z.owner),
    ("cards", id.list.save z.cards)]
  load j := do
    let [l, o, cs] ← fields? ["location", "owner", "cards"] j | none
    some ⟨← location.field l, ← id.field o, ← id.list.field cs⟩

/-- The private zones of a player, one field each. -/
def privateZones : Saved PrivateZones where
  save z := .object [
    ("draw_deck", zone.save z.drawDeck), ("hand", zone.save z.hand),
    ("discard_pile", zone.save z.discardPile), ("dead_pile", zone.save z.deadPile),
    ("draw_hand", zone.save z.drawHand), ("being_played", zone.save z.beingPlayed)]
  load j := do
    let [a, b, c, d, e, f] ← fields? ["draw_deck", "hand", "discard_pile", "dead_pile",
      "draw_hand", "being_played"] j | none
    some ⟨← zone.field a, ← zone.field b, ← zone.field c, ← zone.field d, ← zone.field e,
      ← zone.field f⟩

/-- A store of cards is a record whose one field is the map. -/
def cards : Saved (IdMap .card Card) where
  save m := .object [("entities", card.map.save m)]
  load j := do
    let [m] ← fields? ["entities"] j | none
    card.map.field m

/-! ## Players -/

/-- A restriction; the one on a card holds the card. -/
def restriction : Saved Restriction where
  save
    | .cardAbilities => .text "CardAbilities"
    | .reactions => .text "Reactions"
    | .abilitiesOf c => held "AbilitiesOf" (id.save c)
  load j := do
    match ← case? j with
    | ("CardAbilities", content) => if isBare content then some .cardAbilities else none
    | ("Reactions", content) => if isBare content then some .reactions else none
    | ("AbilitiesOf", some c) => return .abilitiesOf (← id.load c)
    | _ => none

/-- A player. -/
def player : Saved Player where
  save p := .object [
    ("id", id.save p.id), ("name", .text p.name), ("ghost_rock", .nat p.ghostRock),
    ("cheatin", .bool p.cheatin), ("hand_rank", .int p.handRank),
    ("rank_modifier", .int p.rankModifier), ("restrictions", restriction.list.save p.restrictions)]
  load j := do
    let [i, n, g, c, h, m, r] ← fields? ["id", "name", "ghost_rock", "cheatin", "hand_rank",
      "rank_modifier", "restrictions"] j | none
    some {
      id := ← id.field i
      name := ← text.field n
      ghostRock := ← word32.field g
      cheatin := ← bool.field c
      handRank := ← int32.field h
      rankModifier := ← int32.field m
      restrictions := ← restriction.list.field r }

/-! ## Round and shootout -/

/-- A phase, by its name. -/
def phase : Saved Phase := named [.gamblin, .upkeep, .highNoon, .sundown] Phase.tag

/-- A window, by its name. -/
def playWindow : Saved PlayWindow := named [.noon, .shootoutPlays, .resolution] PlayWindow.tag

/-- Where the game stands in its round. The window may be missing. -/
def round : Saved RoundState where
  save r := .object [
    ("round_number", .nat r.number), ("phase", phase.save r.phase),
    ("play_window", playWindow.option.save r.window), ("active_player", id.save r.activePlayer),
    ("headline_used", .bool r.headlineUsed)]
  load j := do
    let [n, p, w, a, h] ← fields? ["round_number", "phase", "play_window", "active_player",
      "headline_used"] j | none
    some {
      number := ← word32.field n
      phase := ← phase.field p
      window := ← playWindow.option.field w
      activePlayer := ← id.field a
      headlineUsed := ← bool.field h }

/-- A posse. -/
def posse : Saved Posse where
  save p := .object [("player", id.save p.player), ("dudes", id.list.save p.dudes)]
  load j := do
    let [p, ds] ← fields? ["player", "dudes"] j | none
    some ⟨← id.field p, ← id.list.field ds⟩

/-- A shootout. The pending step may be missing. -/
def shootout : Saved Shootout where
  save s := .object [
    ("leader", id.save s.leader), ("mark", id.save s.mark),
    ("leader_posse", posse.save s.leaderPosse), ("mark_posse", posse.save s.markPosse),
    ("pending_step", id.option.save s.pendingStep),
    ("attachments", id.list.save s.attachments)]
  load j := do
    let [l, m, lp, mp, s, a] ← fields? ["leader", "mark", "leader_posse", "mark_posse",
      "pending_step", "attachments"] j | none
    some {
      leader := ← id.field l
      mark := ← id.field m
      leaderPosse := ← posse.field lp
      markPosse := ← posse.field mp
      pendingStep := ← id.option.field s
      attachments := ← id.list.field a }

/-! ## Log settings -/

/-- A verbosity, by its name. -/
def verbosity : Saved Verbosity := named [.silent, .minimal, .normal, .verbose] Verbosity.tag

/-- A format, by its name. -/
def logFormat : Saved LogFormat := named [.text, .json] fun
  | .text => "Text"
  | .json => "Json"

/-- A mode, by its name. -/
def logMode : Saved LogMode := named [.print, .keep, .both] LogMode.tag

/-- An entry of a log. The category may be missing. -/
def logEntry : Saved LogEntry where
  save e := .object [("level", verbosity.save e.level), ("message", .text e.message),
    ("category", text.option.save e.category)]
  load j := do
    let [l, m, c] ← fields? ["level", "message", "category"] j | none
    some ⟨← verbosity.field l, ← text.field m, ← text.option.field c⟩

/-- A log is saved by its settings. -/
def log : Saved Log where
  save l := .object [("verbosity", verbosity.save l.verbosity),
    ("output_format", logFormat.save l.format), ("output_mode", logMode.save l.mode)]
  load j := do
    let [v, f, m] ← fields? ["verbosity", "output_format", "output_mode"] j | none
    some {
      verbosity := ← verbosity.field v
      format := ← logFormat.field f
      mode := ← logMode.field m }

/-! ## Boards -/

/-- A board with the settings of its log. -/
def board : Saved (Recorded Board) where
  save g := .object [
    ("cards", cards.save g.state.cards), ("players", player.list.save g.state.players),
    ("player_zones", (id.pair privateZones).list.save g.state.privateZones),
    ("play_area", zone.save g.state.playArea), ("round", round.save g.state.round),
    ("shootout", shootout.option.save g.state.shootout),
    ("next_entity_id", .nat g.state.nextNumber), ("next_timestamp", .nat g.state.clock),
    ("logger", log.save g.log)]
  load j := do
    let [c, p, z, a, r, s, n, t, l] ← fields? ["cards", "players", "player_zones", "play_area",
      "round", "shootout", "next_entity_id", "next_timestamp", "logger"] j | none
    let state : Board := {
      cards := ← cards.field c
      players := ← player.list.field p
      privateZones := ← (id.pair privateZones).list.field z
      playArea := ← zone.field a
      round := ← round.field r
      shootout := ← shootout.option.field s
      nextNumber := ← word32.field n
      clock := ← word64.field t }
    some ⟨state, ← log.field l⟩

end Doomtown.Saved
