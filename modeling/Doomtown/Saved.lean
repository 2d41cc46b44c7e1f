import Doomtown.Id
import Doomtown.IdMap
import Doomtown.Json.Parsed

/-!
# Saved forms

How values are saved as JSON and loaded again. A record is an object with one member a field; one
of several cases is its name, or an object whose one member is the name with what the case holds.
Loading also takes a record's fields as an array in order, unless a case holds the record, a case
without content as an object with `null`, and members that it does not know. A missing field is an
error unless the field is optional.
-/

namespace Doomtown

/-- How values of a type are saved and loaded. -/
structure Saved (α : Type) where
  save : α → Json
  load : Json → Option α
  /-- What a missing field of this type stands for, if it may be missing. -/
  absent : Option α := none

namespace Saved

variable {α β : Type}

/-- The value that a JSON text holds. -/
def read? (s : Saved α) (text : String) : Option α := (Json.parse? text).bind s.load

/-! ## Plain values -/

/-- Truth values. -/
def bool : Saved Bool where
  save := .bool
  load
    | .bool b => some b
    | _ => none

/-- Texts. -/
def text : Saved String where
  save := .text
  load
    | .text s => some s
    | _ => none

/-- Whole numbers from `low` on and below `high`. -/
def intIn (low high : Int) : Saved Int where
  save := Json.int
  load
    | .number n 0 => if low ≤ n ∧ n < high then some n else none
    | _ => none

/-- Signed numbers of 32 bits. -/
def int32 : Saved Int := intIn (-0x80000000) 0x80000000

/-- Signed numbers of 64 bits. -/
def int64 : Saved Int := intIn (-0x8000000000000000) 0x8000000000000000

/-- Natural numbers below `high`. -/
def natBelow (high : Int) : Saved Nat where
  save n := Json.nat n
  load j := ((intIn 0 high).load j).map Int.toNat

/-- Natural numbers of 32 bits. -/
def word32 : Saved Nat := natBelow UInt32.size

/-- Natural numbers of 64 bits. -/
def word64 : Saved Nat := natBelow UInt64.size

/-- Values saved as what they are made of. -/
def like (s : Saved α) (make : α → β) (part : β → α) : Saved β where
  save b := s.save (part b)
  load j := (s.load j).map make

/-- Identifiers, as numbers. -/
def id {k : Kind} : Saved (Id k) := word32.like Id.mk Id.number

/-! ## Compound values -/

/-- Lists, as arrays. -/
def list (s : Saved α) : Saved (List α) where
  save l := .array (l.map s.save)
  load
    | .array items => items.mapM s.load
    | _ => none

/-- Values that may be missing, then `null`. -/
def option (s : Saved α) : Saved (Option α) where
  save
    | some a => s.save a
    | none => .null
  load
    | .null => some none
    | j => (s.load j).map some
  absent := some none

/-- Pairs, as arrays of two. -/
def pair (s : Saved α) (t : Saved β) : Saved (α × β) where
  save p := .array [s.save p.1, t.save p.2]
  load
    | .array [i, j] => do some (← s.load i, ← t.load j)
    | _ => none

/-! ## Records -/

/-- The fields of a record in the order of their names: the members of an object. -/
def members? (names : List String) : Json → Option (List (Option Json))
  | .object members => some (names.map fun name => Json.member? name members)
  | _ => none

/-- The fields of a record that stands by itself: the members of an object, or the items of an
array with as many. -/
def fields? (names : List String) : Json → Option (List (Option Json))
  | .array items => if items.length = names.length then some (items.map some) else none
  | j => members? names j

/-- Load a field. -/
def field (s : Saved α) : Option Json → Option α
  | some j => s.load j
  | none => s.absent

/-! ## Cases -/

/-- The name of a case and what it holds. -/
def case? : Json → Option (String × Option Json)
  | .text name => some (name, none)
  | .object [(name, j)] => some (name, some j)
  | _ => none

/-- Whether a case holds nothing. -/
def isBare : Option Json → Bool
  | none | some .null => true
  | some _ => false

/-- A case that holds something. -/
def held (name : String) (j : Json) : Json := .object [(name, j)]

/-- Cases that hold nothing: each is saved as its name. -/
def named (all : List α) (name : α → String) : Saved α where
  save a := .text (name a)
  load j := do
    let (n, content) ← case? j
    if isBare content then all.find? (name · = n) else none

/-! ## Maps from identifiers -/

/-- The number that a key writes: digits without leading zeros, below `2 ^ 32`. -/
def keyNumber? (key : String) : Option Nat :=
  match key.toNat? with
  | some n => if n < UInt32.size ∧ toString n = key then some n else none
  | none => none

/-- The entry of a member. -/
def memberPair? {k : Kind} (s : Saved α) (m : String × Json) : Option (Id k × α) := do
  some (⟨← keyNumber? m.1⟩, ← s.load m.2)

/-- Maps, as objects with the numbers as keys. -/
def map {k : Kind} (s : Saved α) : Saved (IdMap k α) where
  save m := .object (m.entries.map fun e => (e.1.text, s.save e.2))
  load
    | .object members => (members.mapM (memberPair? s)).map IdMap.ofList
    | _ => none

end Saved

end Doomtown
