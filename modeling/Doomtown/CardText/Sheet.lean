import Doomtown.Ability.Design
import Doomtown.CardText.Written

/-!
# Ability sheets

Abilities written as JSON objects, whose members say what is not as usual: `design?` reads the
design of an ability from its sheet. The conditions and instructions on it are card texts, read
in the scope of the activation or of the event.
-/

namespace Doomtown.CardText

/-- Read a member with `read` if it is there. -/
def optional {α : Type} (read : Json → Option α) (j : Json) (name : String) : Option (Option α) :=
  match j.get? name with
  | some v => (read v).map some
  | none => some none

/-- Read each item of a member, none if it is not there. -/
def each {α : Type} (read : Json → Option α) (j : Json) (name : String) : Option (List α) :=
  match j.get? name with
  | some (.array items) => items.mapM read
  | some _ => none
  | none => some []

/-- Read a truth value that is usually false. -/
def flag? (j : Json) (name : String) : Option Bool := do
  return (← optional Saved.bool.load j name).getD false

/-- The condition of a member, which holds if it is not there. -/
def condition (j : Json) (name : String) : Scope → Board → Bool :=
  match (j.get? name).map clause with
  | some c => fun s b => c.holds b s
  | none => fun _ _ => true

/-! ## Parts of a sheet -/

/-- The kind of an ability, by its word. -/
def kind? : Json → Option AbilityKind
  | .text "action" => some .action
  | .text "reaction" => some .reaction
  | .text "forced" => some .forced
  | .text "prompted" => some .prompted
  | _ => none

/-- How often an ability can be used: in a round or in a shootout. -/
def limit? : Json → Option AbilityLimit
  | .array [.text "round", n] => return ⟨← Saved.word32.load n, .round⟩
  | .array [.text "shootout", n] => return ⟨← Saved.word32.load n, .shootout⟩
  | _ => none

/-- A target slot: cards of a location, or else players. -/
def slot? (j : Json) : Option TargetSlot := do
  let name ← Saved.text.load (← j.get? "name")
  match j.get? "loc" with
  | some l =>
    let fits := condition j "card"
    return ⟨name, .cards (← Saved.location.load l) fun b x card =>
      fits { Scope.ofActivation x with card := some card.id } b⟩
  | none =>
    let fits := condition j "player"
    return ⟨name, .players fun b x player =>
      fits { Scope.ofActivation x with player := some player.id } b⟩

/-- An event that sets the ability off, and the condition on it. -/
def trigger? : Json → Option (EventName × EventCondition)
  | .array [name, c] =>
    let c := clause c
    (Saved.eventName.load name).map fun name => (name, fun b event => c.holds b (.ofEvent event))
  | _ => none

/-- What the ability does. -/
def effect? : Json → Option Effect
  | .array l => (instructions? l).map fun text x => scriptOf (.ofActivation x) text
  | _ => none

/-- An alternative with its label. -/
def alternative? : Json → Option (String × Effect)
  | .array [.text label, text] => (effect? text).map fun effect => (label, effect)
  | _ => none

/-! ## Sheets -/

/-- The design that a sheet describes. -/
def design? (j : Json) : Option Design := do
  let usual : Design := { kind := ← kind? (← j.get? "kind") }
  let check (name : String) : Condition :=
    let holds := condition j name
    fun b x => holds (.ofActivation x) b
  return { usual with
    title := ← optional Saved.text.load j "title"
    playTypes := ← each Saved.playType.load j "play_types"
    locations := ← each Saved.location.load j "locations"
    costs := ← each Saved.cost.load j "costs"
    limit := ← optional limit? j "limit"
    anyPlayer := ← flag? j "any_player"
    allowUsed := ← flag? j "allow_used"
    cardAbility := !(← flag? j "not_card_ability")
    clickToActivate := ← flag? j "click"
    condition := check "condition"
    effectCondition := check "if_condition"
    failMessage := (← optional Saved.text.load j "if_fail").getD usual.failMessage
    message := ← optional Saved.text.load j "message"
    messageArgs :=
      let args := ((j.get? "message_args").map mentions).getD []
      fun b x => args.map (·.argument b (.ofActivation x))
    triggers := ← each trigger? j "when"
    targets := ← each slot? j "targets"
    responsible := (j.get? "player").map fun p =>
      let p := playerRef p
      fun b event => p.resolve b (.ofEvent event)
    promptTitle := (← optional Saved.text.load j "prompt_title").map fun template b x =>
      Message.render b template [] [("player", .player x.player), ("source", .card x.source)]
    handler := ← optional effect? j "effects"
    alternatives := ← each alternative? j "choices"
    permission := check "allow" }

end Doomtown.CardText
