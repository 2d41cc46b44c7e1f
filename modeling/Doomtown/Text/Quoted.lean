import Doomtown.Text.HiddenTable

/-!
# Quoted texts and listings

Traces show values in a fixed written form: a text stands in double quotes, a list in square
brackets, and a record as its name with its fields in braces.
-/

namespace Doomtown.Text

/-- The lower-case hexadecimal digits of a number. -/
def hex (n : Nat) : String := String.ofList (Nat.toDigits 16 n)

/-- How one character is written between quotes: the quote, the backslash and the common control
characters by a letter, what leaves no ink by its number, all else as it is. -/
def quotedChar (c : Char) : String :=
  if c = '"' then "\\\""
  else if c = '\\' then "\\\\"
  else if c = '\n' then "\\n"
  else if c = '\r' then "\\r"
  else if c = '\t' then "\\t"
  else if c.toNat = 0 then "\\0"
  else if 0x20 ≤ c.toNat && c.toNat < 0x7f then c.toString
  else if isHidden c then "\\u\x7b" ++ hex c.toNat ++ "\x7d"
  else c.toString

/-- A text in double quotes. -/
def quoted (s : String) : String :=
  "\"" ++ String.join (s.toList.map quotedChar) ++ "\""

/-- Items in square brackets. -/
def listed (items : List String) : String := "[" ++ ", ".intercalate items ++ "]"

/-- A record: its name, then its fields in braces. -/
def fields (name : String) (entries : List (String × String)) : String :=
  name ++ " \x7b " ++ ", ".intercalate (entries.map fun e => e.1 ++ ": " ++ e.2) ++ " \x7d"

/-- An optional value: its form in `Some(..)`, or `None`. -/
def optional : Option String → String
  | some s => "Some(" ++ s ++ ")"
  | none => "None"

end Doomtown.Text
