/-!
# Numbers in texts

The number that a text of decimal digits writes.
-/

namespace Doomtown.Text

/-- The number that digits write behind those of `n`. -/
def digits? : Nat → List Char → Option Nat
  | n, [] => some n
  | n, c :: cs => if c.isDigit then digits? (10 * n + (c.toNat - '0'.toNat)) cs else none

/-- The number that a text writes: digits, at least one, perhaps behind a plus sign, and less
than `2 ^ 64`. -/
def word64? (cs : List Char) : Option Nat :=
  let digits := match cs with
    | '+' :: rest => rest
    | _ => cs
  if digits.isEmpty then none else (digits? 0 digits).filter (· < UInt64.size)

end Doomtown.Text
