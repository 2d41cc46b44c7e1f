/-!
# JSON

The value that a game is saved in, and its two written forms: `compact` on one line without
blanks, `pretty` with one member a line, two blanks a level. Both print the members of an object
in the order in which they stand.
-/

namespace Doomtown

/-- A JSON value. `number m n` is `m / 10 ^ n` with `n` places behind the point: `5` is
`number 5 0` and `5.0` is `number 50 1`. -/
inductive Json where
  | null
  | bool (b : Bool)
  | number (mantissa : Int) (places : Nat)
  | text (s : String)
  | array (items : List Json)
  | object (members : List (String × Json))

namespace Json

/-- A whole number. -/
def int (n : Int) : Json := number n 0

/-- A natural number. -/
def nat (n : Nat) : Json := int n

/-! ## Written form -/

/-- How one character is written inside a text: quote, backslash and control characters are
escaped, all else stands as it is. -/
def escapedChar (c : Char) : String :=
  if c = '"' then "\\\""
  else if c = '\\' then "\\\\"
  else if c = '\n' then "\\n"
  else if c = '\r' then "\\r"
  else if c = '\t' then "\\t"
  else if c.toNat = 8 then "\\b"
  else if c.toNat = 12 then "\\f"
  else if c.toNat < 0x10 then "\\u000" ++ String.ofList (Nat.toDigits 16 c.toNat)
  else if c.toNat < 0x20 then "\\u00" ++ String.ofList (Nat.toDigits 16 c.toNat)
  else c.toString

/-- A text between quotes. -/
def escaped (s : String) : String :=
  "\"" ++ String.join (s.toList.map escapedChar) ++ "\""

/-- A decimal number: the sign, the digits before the point and, if there are places, as many
digits behind it. -/
def decimal (mantissa : Int) (places : Nat) : String :=
  let sign := if mantissa < 0 then "-" else ""
  let m := mantissa.natAbs
  if places = 0 then sign ++ toString m
  else
    let unit := Nat.pow 10 places
    let fraction := toString (m % unit)
    sign ++ toString (m / unit) ++ "." ++
      "".pushn '0' (places - fraction.length) ++ fraction

mutual

/-- The value on one line, without blanks. -/
def compact : Json → String
  | null => "null"
  | bool b => if b then "true" else "false"
  | number m n => decimal m n
  | text s => escaped s
  | array items => "[" ++ ",".intercalate (compactItems items) ++ "]"
  | object members => "\x7b" ++ ",".intercalate (compactMembers members) ++ "\x7d"

/-- Each item on one line. -/
def compactItems : List Json → List String
  | [] => []
  | j :: rest => j.compact :: compactItems rest

/-- Each member on one line. -/
def compactMembers : List (String × Json) → List String
  | [] => []
  | (name, j) :: rest => (escaped name ++ ":" ++ j.compact) :: compactMembers rest

end

/-- Lines between two brackets, one level further in. -/
def block (opening closing indent : String) (lines : List String) : String :=
  if lines.isEmpty then opening ++ closing
  else
    opening ++ "\n" ++ ",\n".intercalate (lines.map fun l => indent ++ "  " ++ l) ++ "\n" ++
      indent ++ closing

mutual

/-- The value with one member a line, the lines after the first starting with `indent`. -/
def prettyAt (indent : String) : Json → String
  | null => "null"
  | bool b => if b then "true" else "false"
  | number m n => decimal m n
  | text s => escaped s
  | array items => block "[" "]" indent (prettyItems (indent ++ "  ") items)
  | object members => block "\x7b" "\x7d" indent (prettyMembers (indent ++ "  ") members)

/-- Each item, its further lines starting with `indent`. -/
def prettyItems (indent : String) : List Json → List String
  | [] => []
  | j :: rest => j.prettyAt indent :: prettyItems indent rest

/-- Each member, its further lines starting with `indent`. -/
def prettyMembers (indent : String) : List (String × Json) → List String
  | [] => []
  | (name, j) :: rest =>
    (escaped name ++ ": " ++ j.prettyAt indent) :: prettyMembers indent rest

end

/-- The value with one member a line, two blanks a level. -/
def pretty (j : Json) : String := j.prettyAt ""

/-! ## Members -/

/-- The member of a name, the first if there are several. -/
def member? (name : String) : List (String × Json) → Option Json
  | [] => none
  | (n, j) :: rest => if n = name then some j else member? name rest

/-- The member of a name, if the value is an object that has it. -/
def get? : Json → String → Option Json
  | object members, name => member? name members
  | _, _ => none

end Json

end Doomtown
