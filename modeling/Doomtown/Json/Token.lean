import Doomtown.Json.Number

/-!
# Tokens of a JSON text

A JSON text is made of brackets, commas and colons and of the values that hold no others. It is
split into these in one pass over its characters. What the pass has to know between two characters
is its `Spot`: whether it stands in a text, in a word, or between tokens, and what it has read of
the token.
-/

namespace Doomtown.Json

/-- The parts of a JSON text. -/
inductive Token where
  | openArray
  | closeArray
  | openObject
  | closeObject
  | comma
  | colon
  /-- A text, a number, a truth value or `null`. -/
  | plain (j : Json)

/-- Where a pass stands in a JSON text. What it has read is kept last first. -/
inductive Spot where
  | between
  /-- In a number, a truth value or `null`. -/
  | word (read : List Char)
  /-- In a text, of which code points and surrogates were read. -/
  | text (read : List Nat)
  /-- Behind a backslash. -/
  | escape (read : List Nat)
  /-- Among the digits of a code, of which `missing` follow the next one. -/
  | code (read : List Nat) (missing code : Nat)

/-! ## Words and texts -/

/-- The token that a word is. -/
def wordToken? (cs : List Char) : Option Token :=
  if cs = ['n', 'u', 'l', 'l'] then some (.plain .null)
  else if cs = ['t', 'r', 'u', 'e'] then some (.plain (.bool true))
  else if cs = ['f', 'a', 'l', 's', 'e'] then some (.plain (.bool false))
  else (number? cs).map .plain

/-- The characters of codes, in front of `behind`. The codes come last first; two surrogates that
belong together are one character, and a lone one is none. -/
def charactersOnto? (behind : List Char) : List Nat → Option (List Char)
  | [] => some behind
  | low :: high :: rest =>
    if 0xdc00 ≤ low ∧ low < 0xe000 then
      if 0xd800 ≤ high ∧ high < 0xdc00 then
        let c := Char.ofNat (0x10000 + (high - 0xd800) * 0x400 + (low - 0xdc00))
        charactersOnto? (c :: behind) rest
      else none
    else if 0xd800 ≤ low ∧ low < 0xdc00 then none
    else charactersOnto? (Char.ofNat low :: behind) (high :: rest)
  | [n] => if 0xd800 ≤ n ∧ n < 0xe000 then none else some (Char.ofNat n :: behind)

/-- The token that a text of codes, last first, is. -/
def textToken? (read : List Nat) : Option Token :=
  (charactersOnto? [] read).map fun cs => .plain (.text (String.ofList cs))

/-- The code of the character that a letter behind a backslash stands for. -/
def escapedCode? (c : Char) : Option Nat :=
  if c = '"' || c = '\\' || c = '/' then some c.toNat
  else if c = 'b' then some 0x08
  else if c = 'f' then some 0x0c
  else if c = 'n' then some 0x0a
  else if c = 'r' then some 0x0d
  else if c = 't' then some 0x09
  else none

/-- The value of a hexadecimal digit of either case. -/
def hexDigit? (c : Char) : Option Nat :=
  if '0' ≤ c && c ≤ '9' then some (c.toNat - 0x30)
  else if 'a' ≤ c && c ≤ 'f' then some (c.toNat - 0x61 + 10)
  else if 'A' ≤ c && c ≤ 'F' then some (c.toNat - 0x41 + 10)
  else none

/-! ## One pass -/

/-- Whether a character may stand between tokens. -/
def isBlank (c : Char) : Bool := c = ' ' || c = '\t' || c = '\n' || c = '\r'

/-- The token that a character is by itself. -/
def mark? (c : Char) : Option Token :=
  if c = '[' then some .openArray
  else if c = ']' then some .closeArray
  else if c = '\x7b' then some .openObject
  else if c = '\x7d' then some .closeObject
  else if c = ',' then some .comma
  else if c = ':' then some .colon
  else none

/-- Go on from between two tokens; the tokens come last first. -/
def afterToken (tokens : List Token) (c : Char) : List Token × Spot :=
  if isBlank c then (tokens, .between)
  else if c = '"' then (tokens, .text [])
  else match mark? c with
    | some t => (t :: tokens, .between)
    | none => (tokens, .word [c])

/-- Go on by one character. -/
def nextCharacter? : List Token × Spot → Char → Option (List Token × Spot)
  | (tokens, .between), c => some (afterToken tokens c)
  | (tokens, .word read), c =>
    if isBlank c || c = '"' || (mark? c).isSome then do
      some (afterToken ((← wordToken? read.reverse) :: tokens) c)
    else some (tokens, .word (c :: read))
  | (tokens, .text read), c =>
    if c = '"' then do some ((← textToken? read) :: tokens, .between)
    else if c = '\\' then some (tokens, .escape read)
    else if c.toNat < 0x20 then none
    else some (tokens, .text (c.toNat :: read))
  | (tokens, .escape read), c =>
    if c = 'u' then some (tokens, .code read 3 0)
    else do some (tokens, .text ((← escapedCode? c) :: read))
  | (tokens, .code read missing code), c => do
    let code := 0x10 * code + (← hexDigit? c)
    match missing with
    | 0 => some (tokens, .text (code :: read))
    | n + 1 => some (tokens, .code read n code)

/-- The tokens of a text. -/
def tokens? (s : String) : Option (List Token) := do
  match ← s.toList.foldlM nextCharacter? ([], .between) with
  | (tokens, .between) => some tokens.reverse
  | (tokens, .word read) => some ((← wordToken? read.reverse) :: tokens).reverse
  | _ => none

end Doomtown.Json
