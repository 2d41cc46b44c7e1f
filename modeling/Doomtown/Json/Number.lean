import Doomtown.Json
import Doomtown.Text.Digits

/-!
# Written numbers

The number that a JSON text writes. Only digits alone, perhaps behind a minus, write a whole
number; with a point or an exponent a number has places, also where its value is whole. A zero
with a minus is no whole number either.
-/

namespace Doomtown.Json

/-- The digits at the front, one at least, and what is behind them. -/
def someDigits? (cs : List Char) : Option (List Char × List Char) :=
  match cs.span Char.isDigit with
  | ([], _) => none
  | found => some found

/-- The digits in front of the point, and what is behind them: no zero stands before others. -/
def wholePart? (cs : List Char) : Option (List Char × List Char) :=
  (someDigits? cs).filter fun found => found.1.head? ≠ some '0' || found.1.length = 1

/-- The digits behind the point, none without a point, and what is behind them. -/
def fraction? : List Char → Option (List Char × List Char)
  | '.' :: cs => someDigits? cs
  | cs => some ([], cs)

/-- The exponent that digits behind a sign write. None is beyond a thousand. -/
def exponentOf? (sign : Int) (cs : List Char) : Option Int :=
  match someDigits? cs with
  | some (digits, []) => ((Text.digits? 0 digits).filter (· ≤ 1000)).map (sign * ·)
  | _ => none

/-- The exponent that stands at the end of a number, if one does. -/
def exponent? : List Char → Option (Option Int)
  | [] => some none
  | e :: cs =>
    if e = 'e' || e = 'E' then
      match cs with
      | '-' :: cs => (exponentOf? (-1) cs).map some
      | '+' :: cs => (exponentOf? 1 cs).map some
      | _ => (exponentOf? 1 cs).map some
    else none

/-- `m / 10 ^ n` with `n` places, or with one place if `n` is less. -/
def withPlaces (m n : Int) : Json :=
  if 1 ≤ n then number m n.toNat else number (m * Nat.pow 10 (1 - n).toNat) 1

/-- The number that digits without a sign write, times `sign`. -/
def unsigned? (sign : Int) (cs : List Char) : Option Json := do
  let (whole, cs) ← wholePart? cs
  let (fraction, cs) ← fraction? cs
  let m := sign * (← Text.digits? 0 (whole ++ fraction))
  match ← exponent? cs with
  | some e => withPlaces m (fraction.length - e)
  | none =>
    if fraction.isEmpty && (sign = 1 || m ≠ 0) then int m else withPlaces m fraction.length

/-- The number that a text writes. -/
def number? : List Char → Option Json
  | '-' :: cs => unsigned? (-1) cs
  | cs => unsigned? 1 cs

end Doomtown.Json
