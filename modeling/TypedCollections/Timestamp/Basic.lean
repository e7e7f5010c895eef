import TypedCollections.Timestamp.Calendar

/-!
Timestamps of records. One is either unset, which comes before all others, or an instant: a second
of a day, and the nanoseconds that have passed since it began. From a thousand million nanoseconds
on they count the leap second that follows it.
-/

namespace TypedCollections

structure Instant where
  /-- The number of the day. -/
  day : Int
  /-- The second of the day. -/
  second : Nat
  nanosecond : Nat
  deriving DecidableEq, Repr

inductive Timestamp where
  | unset
  | at (instant : Instant)
  deriving DecidableEq, Repr

namespace Instant

def secondsPerDay : Nat := 86400
def nanosPerSecond : Nat := 1000000000

/-- The number of the first of January 1970. -/
def epoch : Int := Calendar.daysBeforeYear 1970

/-- The seconds since the epoch. -/
def unixSeconds (i : Instant) : Int := (i.day - epoch) * secondsPerDay + i.second

/-- The instant a number of seconds earlier. -/
def earlier (i : Instant) (seconds : Int) : Instant :=
  let total := i.day * secondsPerDay + i.second - seconds
  ⟨total / secondsPerDay, (total % secondsPerDay).toNat, i.nanosecond⟩

def compare (a b : Instant) : Ordering :=
  ((Ord.compare a.day b.day).then (Ord.compare a.second b.second)).then
    (Ord.compare a.nanosecond b.nanosecond)

end Instant

namespace Timestamp

def compare : Timestamp → Timestamp → Ordering
  | unset, unset => .eq
  | unset, .at _ => .lt
  | .at _, unset => .gt
  | .at a, .at b => a.compare b

def isUnset : Timestamp → Bool
  | unset => true
  | .at _ => false

end Timestamp
end TypedCollections
