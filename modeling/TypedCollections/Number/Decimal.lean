import TypedCollections.Number.Binary64

/-!
Numbers written as text: an optional sign, then digits with an optional point and an optional
exponent, or one of the words `inf`, `infinity` and `nan` in any case. The nearest number is read.
-/

namespace TypedCollections.Decimal

/-- The digits at the front, their value as a number, and what follows. -/
def digits (s : List Char) : List Char × List Char :=
  (s.takeWhile Char.isDigit, s.dropWhile Char.isDigit)

/-- The number nearest to `± significand * 10 ^ scale`. Where the power of ten alone decides that
the result is zero or infinite, it is not computed. -/
def scaled (negative : Bool) (significand : Nat) (scale : Int) : Binary64 :=
  let magnitude : Int := (Nat.toDigits 10 significand).length + scale
  if significand = 0 ∨ magnitude < -330 then Binary64.zero negative
  else if 310 < magnitude then .infinite negative
  else Binary64.ofRatio negative (significand * 10 ^ scale.toNat) (10 ^ (-scale).toNat)

/-- The exponent that the rest of a number spells: nothing, or a mark, a sign and digits. -/
def exponent? : List Char → Option Int
  | [] => some 0
  | mark :: rest =>
    if mark = 'e' ∨ mark = 'E' then
      match rest with
      | '-' :: ds => (natural? ds).map fun n => -(n : Int)
      | '+' :: ds => (natural? ds).map fun n => (n : Int)
      | ds => (natural? ds).map fun n => (n : Int)
    else none
where
  natural? (ds : List Char) : Option Nat :=
    if ds ≠ [] ∧ ds.all Char.isDigit then some (Nat.ofDigitChars 10 ds 0) else none

def unsigned? (negative : Bool) (s : List Char) : Option Binary64 :=
  let word := s.map Char.toLower
  if word = "inf".toList ∨ word = "infinity".toList then some (.infinite negative)
  else if word = "nan".toList then some .nan
  else
    let (whole, rest) := digits s
    let (fraction, rest) := match rest with
      | '.' :: r => digits r
      | r => ([], r)
    if whole = [] ∧ fraction = [] then none
    else (exponent? rest).map fun e =>
      scaled negative (Nat.ofDigitChars 10 (whole ++ fraction) 0) (e - fraction.length)

def read? : List Char → Option Binary64
  | '-' :: s => unsigned? true s
  | '+' :: s => unsigned? false s
  | s => unsigned? false s

end TypedCollections.Decimal
