import Doomtown.Event
import Doomtown.IdMap

/-!
# Usage limits

An ability with a limit resolves at most so many times a round or a shootout. Its counter exists
while the ability is registered, goes up by one with each resolution, and goes back to zero when
the event that ends its period fires.
-/

namespace Doomtown

/-- The time for which a limit holds. -/
inductive LimitPeriod where
  | round | shootout
deriving DecidableEq

namespace LimitPeriod

/-- The event at which a new period begins. -/
def resetEvent : LimitPeriod → EventName
  | round => .beginRound
  | shootout => .shootoutFinished

/-- The period as traces name it. -/
def tag : LimitPeriod → String
  | round => "Round"
  | shootout => "Shootout"

end LimitPeriod

/-- At most `max` resolutions a period. -/
structure AbilityLimit where
  max : Nat
  period : LimitPeriod
deriving DecidableEq

/-- A limit with the resolutions of the period so far. -/
structure AbilityUsage where
  limit : AbilityLimit
  count : Nat
deriving DecidableEq

namespace AbilityUsage

/-- Nothing used yet. -/
def new (limit : AbilityLimit) : AbilityUsage := ⟨limit, 0⟩

/-- Whether the limit is reached. -/
def isUsed (u : AbilityUsage) : Bool := u.limit.max ≤ u.count

/-- Count one resolution. -/
def increment (u : AbilityUsage) : AbilityUsage := { u with count := u.count + 1 }

/-- Start a new period. -/
def reset (u : AbilityUsage) : AbilityUsage := { u with count := 0 }

end AbilityUsage

/-- The counters of the abilities that are registered and have a limit. -/
structure UsageTracker where
  counters : IdMap .ability AbilityUsage

namespace UsageTracker

/-- No counters. -/
def empty : UsageTracker := ⟨.empty⟩

/-- Start a counter, unless the ability has one. -/
def track (t : UsageTracker) (a : AbilityId) (limit : AbilityLimit) : UsageTracker :=
  if t.counters.contains a then t else ⟨t.counters.insert a (.new limit)⟩

/-- Drop the counter of an ability. -/
def untrack (t : UsageTracker) (a : AbilityId) : UsageTracker := ⟨t.counters.erase a⟩

/-- Whether the ability has a counter. -/
def isTracked (t : UsageTracker) (a : AbilityId) : Bool := t.counters.contains a

/-- Whether the ability has reached its limit; one without a counter never has. -/
def isUsed (t : UsageTracker) (a : AbilityId) : Bool := (t.counters.get? a).any (·.isUsed)

/-- Count a resolution of an ability that has a counter. -/
def increment (t : UsageTracker) (a : AbilityId) : UsageTracker :=
  ⟨t.counters.modify a (·.increment)⟩

/-- Start a new period for an ability that has a counter. -/
def reset (t : UsageTracker) (a : AbilityId) : UsageTracker := ⟨t.counters.modify a (·.reset)⟩

/-- The counter of an ability. -/
def count? (t : UsageTracker) (a : AbilityId) : Option Nat := (t.counters.get? a).map (·.count)

end UsageTracker

end Doomtown
