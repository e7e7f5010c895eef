import TypedCollections.Timestamp.Basic

/-!
The text of a timestamp, in the layout of the store: `2024-03-05 10:20:30.123Z`. Anything below a
millisecond is cut off. A year of more than four digits has its sign, and the unset timestamp is
the empty text.
-/

namespace TypedCollections

/-- Decimal digits, with zeros in front up to a width. -/
def padded (width n : Nat) : List Char :=
  let digits := Nat.toDigits 10 n
  List.replicate (width - digits.length) '0' ++ digits

namespace Instant

def yearChars (year : Int) : List Char :=
  if year < 0 then '-' :: padded 4 year.natAbs
  else if 9999 < year then '+' :: padded 4 year.natAbs
  else padded 4 year.natAbs

/-- The second within its minute, which is the sixtieth in a leap second. -/
def shownSecond (i : Instant) : Nat := i.second % 60 + i.nanosecond / nanosPerSecond

def chars (i : Instant) : List Char :=
  let date := Date.ofDay i.day
  yearChars date.year ++ '-' :: padded 2 date.month ++ '-' :: padded 2 date.day
    ++ ' ' :: padded 2 (i.second / 3600) ++ ':' :: padded 2 (i.second / 60 % 60)
    ++ ':' :: padded 2 i.shownSecond
    ++ '.' :: padded 3 (i.nanosecond % nanosPerSecond / 1000000) ++ ['Z']

end Instant

def Timestamp.text : Timestamp → String
  | .unset => ""
  | .at i => String.ofList i.chars

end TypedCollections
