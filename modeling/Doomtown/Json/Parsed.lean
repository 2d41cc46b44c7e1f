import Doomtown.Json.Token

/-!
# Parsed JSON

The value that a JSON text writes. Of several members of one name in an object the last counts.
-/

namespace Doomtown.Json

/-- The members of an object, of which those read come last first: in the order of the text, and
of one name only the last. -/
def membersOf (read : List (String × Json)) : List (String × Json) :=
  (read.eraseDupsBy fun a b => a.1 = b.1).reverse

mutual

/-- The value at the front of tokens, and what is behind it. -/
def valueOf? : Nat → List Token → Option (Json × List Token)
  | _, .plain j :: rest => some (j, rest)
  | fuel + 1, .openArray :: rest =>
    match rest with
    | .closeArray :: rest => some (array [], rest)
    | _ => itemsOf? fuel [] rest
  | fuel + 1, .openObject :: rest =>
    match rest with
    | .closeObject :: rest => some (object [], rest)
    | _ => membersOf? fuel [] rest
  | _, _ => none

/-- The array of which `read`, last first, was read, and what is behind it. -/
def itemsOf? : Nat → List Json → List Token → Option (Json × List Token)
  | 0, _, _ => none
  | fuel + 1, read, tokens =>
    match valueOf? fuel tokens with
    | some (j, .comma :: rest) => itemsOf? fuel (j :: read) rest
    | some (j, .closeArray :: rest) => some (array (j :: read).reverse, rest)
    | _ => none

/-- The object of which `read`, last first, was read, and what is behind it. -/
def membersOf? : Nat → List (String × Json) → List Token → Option (Json × List Token)
  | fuel + 1, read, .plain (.text name) :: .colon :: tokens =>
    match valueOf? fuel tokens with
    | some (j, .comma :: rest) => membersOf? fuel ((name, j) :: read) rest
    | some (j, .closeObject :: rest) => some (object (membersOf ((name, j) :: read)), rest)
    | _ => none
  | _, _, _ => none

end

/-- The value that tokens write. Each token costs at most two of the fuel: one to open a bracket,
one for what stands in it. -/
def ofTokens? (tokens : List Token) : Option Json :=
  match valueOf? (2 * tokens.length) tokens with
  | some (j, []) => some j
  | _ => none

/-- The value that a JSON text writes. -/
def parse? (s : String) : Option Json := (tokens? s).bind ofTokens?

end Doomtown.Json
