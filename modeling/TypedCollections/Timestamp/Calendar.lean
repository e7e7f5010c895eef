import TypedCollections.Number.Natural

/-!
Dates of the Gregorian calendar, extended to all years, and the days counted from the first of
January of the year zero. Each date has one number, and each number one date.
-/

namespace TypedCollections

structure Date where
  year : Int
  month : Nat
  day : Nat
  deriving DecidableEq, Repr

namespace Calendar

def isLeap (year : Int) : Bool := year % 4 == 0 && (year % 100 != 0 || year % 400 == 0)

def monthLengths (leap : Bool) : List Nat :=
  [31, if leap then 29 else 28, 31, 30, 31, 30, 31, 31, 30, 31, 30, 31]

/-- The days before the first of January of a year. -/
def daysBeforeYear (year : Int) : Int :=
  365 * year + (year + 3) / 4 - (year + 99) / 100 + (year + 399) / 400

/-- The year in which a day lies. The quotient is off by one year at most. -/
def yearOf (day : Int) : Int :=
  let guess := 400 * day / 146097
  if day < daysBeforeYear guess then guess - 1
  else if daysBeforeYear (guess + 1) ≤ day then guess + 1
  else guess

/-- The month and the day of the month that a number of days leads to, from the first day of a
month on, whose length heads the list. -/
def monthAndDay (month : Nat) : List Nat → Nat → Nat × Nat
  | [], days => (month, days + 1)
  | length :: rest, days =>
    if days < length then (month, days + 1) else monthAndDay (month + 1) rest (days - length)

end Calendar

namespace Date

open Calendar

def firstYear : Int := -262143
def lastYear : Int := 262142

/-- A day of the calendar, in the years that are kept. -/
def IsValid (d : Date) : Prop :=
  firstYear ≤ d.year ∧ d.year ≤ lastYear ∧ 1 ≤ d.month ∧ d.month ≤ 12 ∧ 1 ≤ d.day ∧
    d.day ≤ (monthLengths (isLeap d.year)).getD (d.month - 1) 0

instance (d : Date) : Decidable d.IsValid := inferInstanceAs (Decidable (_ ∧ _))

def toDay (d : Date) : Int :=
  daysBeforeYear d.year + ((monthLengths (isLeap d.year)).take (d.month - 1)).sum + (d.day - 1 : Nat)

def ofDay (day : Int) : Date :=
  let year := yearOf day
  let (month, day) := monthAndDay 1 (monthLengths (isLeap year)) (day - daysBeforeYear year).toNat
  ⟨year, month, day⟩

end Date
end TypedCollections
