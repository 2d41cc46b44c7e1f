import Doomtown.Id
import Doomtown.Location
import Doomtown.Text.Lowercase

/-!
# Cards

What is printed on a card and what a game adds to it.
-/

namespace Doomtown

/-! ## Keywords -/

/-- A keyword of a card, such as `headline` or `gadget`. -/
structure Keyword where
  text : String
deriving DecidableEq

namespace Keyword

/-- The keyword of a text. Keywords are compared without regard to case, so the text is put in
lower case here. -/
def of (s : String) : Keyword := ⟨Text.lowercase s⟩

/-- Only one activation a round may be of a card with this keyword. -/
def headline : Keyword := ⟨"headline"⟩

/-- Jobs resolve through rules of their own. -/
def job : Keyword := ⟨"job"⟩

end Keyword

/-! ## Card types -/

/-- The printed type of a card. -/
inductive CardType where
  | dude | deed | goods | spell | action | outfit | joker
deriving DecidableEq

namespace CardType

/-- The type as traces name it. -/
def tag : CardType → String
  | dude => "Dude"
  | deed => "Deed"
  | goods => "Goods"
  | spell => "Spell"
  | action => "Action"
  | outfit => "Outfit"
  | joker => "Joker"

/-- Whether shootout plays on cards of this type need the card in the shootout. -/
def takesPartInShootouts : CardType → Bool
  | dude | goods | spell => true
  | deed | action | outfit | joker => false

/-- Where cards of this type use their abilities unless the ability says otherwise. -/
def naturalLocation : CardType → Location
  | action => .hand
  | dude | deed | goods | spell | outfit | joker => .playArea

end CardType

/-! ## Cards in a game -/

/-- A card during play. -/
structure Card where
  id : CardId
  title : String
  type : CardType
  keywords : List Keyword
  owner : PlayerId
  /-- Who may use the card; at first its owner. -/
  controller : PlayerId
  /-- The zone that lists the card. -/
  location : Location
  booted : Bool
  /-- A blank card cannot use its abilities. -/
  blank : Bool
  influence : Int
  control : Int
  inTownSquare : Bool
deriving DecidableEq

namespace Card

/-- A fresh card, in its owner's draw deck. -/
def new (id : CardId) (title : String) (type : CardType) (owner : PlayerId) : Card where
  id := id
  title := title
  type := type
  keywords := []
  owner := owner
  controller := owner
  location := .drawDeck
  booted := false
  blank := false
  influence := 0
  control := 0
  inTownSquare := false

/-- The card with one more keyword. -/
def withKeyword (c : Card) (k : Keyword) : Card := { c with keywords := c.keywords ++ [k] }

/-- Whether the card has a keyword. -/
def hasKeyword (c : Card) (k : Keyword) : Bool := c.keywords.contains k

end Card

end Doomtown
