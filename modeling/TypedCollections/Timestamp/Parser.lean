import TypedCollections.Text.Blank
import TypedCollections.Timestamp.Basic

/-!
Reading timestamps. A text without the white space around it may be empty, which is the unset
timestamp, a timestamp of the internet standard with its offset, or one in the layout of the store,
where numbers may be short, white space may stand before each of them, and the fraction and the
letter `Z` may be left out.
-/

namespace TypedCollections

namespace Timestamp

/-- Digits at the front, at least one and at most so many, as a number. -/
def number? (most : Nat) (s : List Char) : Option (Nat × List Char) :=
  let digits := (s.take most).takeWhile Char.isDigit
  if digits = [] then none else some (Nat.ofDigitChars 10 digits 0, s.drop digits.length)

/-- Exactly so many digits. -/
def exactly? (count : Nat) (s : List Char) : Option (Nat × List Char) :=
  if (s.take count).length = count ∧ (s.take count).all Char.isDigit then number? count s else none

/-- A given character. -/
def mark? (c : Char) : List Char → Option (List Char)
  | d :: s => if d = c then some s else none
  | [] => none

/-- The nanoseconds of a fraction, if there is one. A point must have a digit behind it, and digits
after the ninth are passed over. -/
def fraction? : List Char → Option (Nat × List Char)
  | '.' :: s =>
    (number? 9 s).map fun (n, r) =>
      (n * 10 ^ (9 - (s.length - r.length)), r.dropWhile Char.isDigit)
  | s => some (0, s)

/-- The instant of a date and a time of day, if there are such. The sixtieth second of any minute is
a leap second. -/
def instant? (date : Date) (hour minute second nano : Nat) : Option Instant :=
  if date.IsValid ∧ hour ≤ 23 ∧ minute ≤ 59 ∧ second ≤ 60 then
    let (second, nano) := if second = 60 then (59, nano + Instant.nanosPerSecond) else (second, nano)
    some ⟨date.toDay, hour * 3600 + minute * 60 + second, nano⟩
  else none

/-- The seconds by which a zone is ahead, and nothing after them. -/
def offset? : List Char → Option Int
  | ['Z'] | ['z'] => some 0
  | sign :: s => do
    let (hours, s) ← exactly? 2 s
    let s ← mark? ':' s
    let (minutes, s) ← exactly? 2 s
    guard (s = [] ∧ hours ≤ 23 ∧ minutes ≤ 59)
    let seconds : Int := hours * 3600 + minutes * 60
    if sign = '+' then some seconds
    else if sign = '-' ∨ sign = '\u2212' then some (-seconds)
    else none
  | [] => none

/-- A timestamp of the internet standard. -/
def standard? (s : List Char) : Option Instant := do
  let (year, s) ← exactly? 4 s
  let s ← mark? '-' s
  let (month, s) ← exactly? 2 s
  let s ← mark? '-' s
  let (day, s) ← exactly? 2 s
  let s ← (mark? 'T' s).or ((mark? 't' s).or (mark? ' ' s))
  let (hour, s) ← exactly? 2 s
  let s ← mark? ':' s
  let (minute, s) ← exactly? 2 s
  let s ← mark? ':' s
  let (second, s) ← exactly? 2 s
  let (nano, s) ← fraction? s
  let offset ← offset? s
  let instant ← instant? ⟨year, month, day⟩ hour minute second nano
  return instant.earlier offset

/-- A number of at most two digits, with white space before it. -/
def short? (s : List Char) : Option (Nat × List Char) := number? 2 (s.dropWhile Text.isBlank)

/-- A year has at most four digits, or any number of them behind a sign. -/
def year? (s : List Char) : Option (Int × List Char) :=
  match s.dropWhile Text.isBlank with
  | '-' :: s => (number? s.length s).map fun (n, r) => (-(n : Int), r)
  | '+' :: s => (number? s.length s).map fun (n, r) => ((n : Int), r)
  | s => (number? 4 s).map fun (n, r) => ((n : Int), r)

/-- A timestamp in the layout of the store, whatever `Z`s are at its end. -/
def stored? (s : List Char) : Option Instant := do
  let s := (s.reverse.dropWhile (· == 'Z')).reverse
  let (year, s) ← year? s
  let s ← mark? '-' s
  let (month, s) ← short? s
  let s ← mark? '-' s
  let (day, s) ← short? s
  let (hour, s) ← short? s
  let s ← mark? ':' s
  let (minute, s) ← short? s
  let s ← mark? ':' s
  let (second, s) ← short? s
  let (nano, s) ← fraction? s
  guard (s = [])
  instant? ⟨year, month, day⟩ hour minute second nano

/-- Reads a timestamp. -/
def read? (text : String) : Option Timestamp :=
  let s := Text.trim text.toList
  if s = [] then some .unset
  else ((standard? s).or (stored? s)).map .at

/-- What is said of a text that is no timestamp. -/
def unreadable (text : String) : String :=
  "invalid datetime '" ++ String.ofList (Text.trim text.toList) ++ "'"

end Timestamp
end TypedCollections
