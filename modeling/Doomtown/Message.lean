import Doomtown.Board
import Doomtown.Text.Digits

/-!
# Messages

A template is text with slots in braces: `render` puts the argument of a number or of a name into
each slot, from left to right. A slot that names no argument stays as it is written, braces
included, and so does a brace that is never closed. What an argument says is not looked into
again.
-/

namespace Doomtown

/-- An argument of a message. -/
inductive MessageArg where
  | player (id : PlayerId)
  | card (id : CardId)
  | text (s : String)
  | number (n : Int)
deriving DecidableEq

/-- What an argument says: players and cards by name. -/
def MessageArg.shown (b : Board) : MessageArg → String
  | player id => b.playerName id
  | card id => b.cardTitle id
  | text s => s
  | number n => toString n

namespace Message

/-! ## Templates -/

/-- A part of a template. -/
inductive Piece where
  | char (c : Char)
  /-- What stands between a brace and the next closing one. -/
  | slot (key : List Char)
  /-- A brace that is never closed, and all behind it. -/
  | rest (cs : List Char)
deriving DecidableEq

/-- What a scan is in the middle of: plain text, or a slot with its characters so far, latest
first. -/
abbrev Scan := Option (List Char)

/-- The parts of a template. -/
def pieces : Scan → List Char → List Piece
  | none, [] => []
  | some key, [] => [.rest key.reverse]
  | none, c :: cs => if c = '\x7b' then pieces (some []) cs else .char c :: pieces none cs
  | some key, c :: cs =>
    if c = '\x7d' then .slot key.reverse :: pieces none cs else pieces (some (c :: key)) cs

/-- The argument of a key: a key that writes a number counts in the list of arguments, any other is
a name, of which the first in the list counts. -/
def argument? (args : List MessageArg) (named : List (String × MessageArg)) (key : List Char) :
    Option MessageArg :=
  match Text.word64? key with
  | some n => args[n]?
  | none => (named.find? (·.1.toList = key)).map (·.2)

/-- What a part of a template becomes. -/
def Piece.shown (b : Board) (args : List MessageArg) (named : List (String × MessageArg)) :
    Piece → List Char
  | char c => [c]
  | slot key =>
    match argument? args named key with
    | some arg => (arg.shown b).toList
    | none => '\x7b' :: key ++ ['\x7d']
  | rest cs => '\x7b' :: cs

/-- The text of a template with its slots filled. -/
def render (b : Board) (template : String) (args : List MessageArg)
    (named : List (String × MessageArg)) : String :=
  String.ofList ((pieces none template.toList).flatMap (·.shown b args named))

end Message

end Doomtown
