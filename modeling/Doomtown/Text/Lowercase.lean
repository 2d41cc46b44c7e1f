import Doomtown.Text.CaseTable

/-!
# Lower case

`lowercase` maps a text to lower case by the full rules of Unicode that hold in every language:
one character at a time, except that a capital I with a dot becomes two characters and that a
capital sigma at the end of a word takes its final form.
-/

namespace Doomtown.Text

/-- The lower case of a single character, itself if it has none of its own. -/
def lowerChar (c : Char) : Char :=
  if c.toNat < 0x80 then c.toLower
  else
    match lowerRuns.find? (·.holds c.toNat) with
    | some r => Char.ofNat (r.lower + (c.toNat - r.first))
    | none => c

/-- Whether the nearest character that is not passed over has case. -/
def nextIsCased (cs : List Char) : Bool :=
  match cs.dropWhile (inRanges caseIgnorableRanges) with
  | c :: _ => inRanges casedRanges c
  | [] => false

/-- The lower case of a character that has `before` in front of it, nearest first, and `after`
behind it. -/
def lowerInContext (before : List Char) (c : Char) (after : List Char) : List Char :=
  if c = 'İ' then ['i', Char.ofNat 0x307]
  else if c = 'Σ' then if nextIsCased before && !nextIsCased after then ['ς'] else ['σ']
  else [lowerChar c]

/-- The lower case of a list of characters that has `before` in front of it, nearest first. -/
def lowerAll (before : List Char) : List Char → List Char
  | [] => []
  | c :: rest => lowerInContext before c rest ++ lowerAll (c :: before) rest

/-- The text in lower case. -/
def lowercase (s : String) : String := String.ofList (lowerAll [] s.toList)

end Doomtown.Text
