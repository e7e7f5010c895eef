import TypedCollections.Json.Scan
import TypedCollections.Json.Value

/-!
Numbers in a JSON text. `Numeral.read` splits a number into its digits; `Numeral.value?` says which
number they spell. An integer that fits 64 bits stays one. Every other number is a significand of
at most 64 bits, which is rounded to a binary number and then multiplied or divided by powers of
ten, each step rounding once more. So the result is not always the number nearest to the text.
-/

namespace TypedCollections.Json

structure Numeral where
  whole : Bytes
  /-- The digits after the point; none without a point. -/
  fraction : Bytes
  /-- The digits of the exponent, and whether it is negative. -/
  exponent : Option (Bool × Bytes)

namespace Numeral

def isMark (b : UInt8) : Bool := b == 0x65 || b == 0x45

def dropDigits (s : Bytes) : Tail s :=
  ⟨s.dropWhile Ascii.isDigit, (List.dropWhile_sublist _).length_le⟩

/-- At least one digit. The byte found in its place counts as read, and at the end of the text the
fault is `atEnd`. -/
def exponentDigits (atEnd : Reason) : (s : Bytes) → Except Fault (Bytes × Rest s)
  | [] => .error (.behind atEnd [])
  | b :: s =>
    if Ascii.isDigit b then
      .ok (b :: s.takeWhile Ascii.isDigit, .ofTail (length_lt_cons _ _) (dropDigits s))
    else .error (.behind .invalidNumber s)

/-- What follows the mark of an exponent: an optional sign, then digits. -/
def exponentPart (atEnd : Reason) : (s : Bytes) → Except Fault ((Bool × Bytes) × Rest s)
  | [] => .error (.behind atEnd [])
  | b :: s =>
    if b = Ascii.plus ∨ b = Ascii.minus then
      (exponentDigits atEnd s).map fun (ds, r) =>
        ((b = Ascii.minus, ds), r.ofRest (length_le_cons _ _))
    else (exponentDigits atEnd (b :: s)).map fun (ds, r) => ((false, ds), r)

/-- The exponent, if a mark comes next. -/
def exponent? (atEnd : Reason) : (s : Bytes) → Except Fault (Option (Bool × Bytes) × Tail s)
  | [] => .ok (none, ⟨[], Nat.le_refl _⟩)
  | b :: s =>
    if isMark b then
      (exponentPart atEnd s).map fun (e, r) => (some e, r.toTail (length_le_cons _ _))
    else .ok (none, ⟨b :: s, Nat.le_refl _⟩)

/-- At least one digit, after a point. The byte found in its place does not count as read. -/
def fractionPart (atEnd : Reason) : (s : Bytes) → Except Fault (Bytes × Tail s)
  | [] => .error (.ahead atEnd [])
  | b :: s =>
    if Ascii.isDigit b then
      let r := dropDigits s
      .ok (b :: s.takeWhile Ascii.isDigit, ⟨r.1, Nat.le_succ_of_le r.2⟩)
    else .error (.ahead .invalidNumber (b :: s))

/-- What follows the whole part, whose digits are given. -/
def afterWhole (atEnd : Reason) (whole : Bytes) (s : Bytes) : Except Fault (Numeral × Tail s) :=
  match s with
  | [] => .ok (⟨whole, [], none⟩, ⟨[], Nat.le_refl _⟩)
  | b :: s =>
    if b = Ascii.point then do
      let (fraction, t) ← fractionPart atEnd s
      let (exponent, r) ← exponent? atEnd t.1
      return (⟨whole, fraction, exponent⟩, ⟨r.1, Nat.le_succ_of_le (Nat.le_trans r.2 t.2)⟩)
    else (exponent? atEnd (b :: s)).map fun (exponent, r) => (⟨whole, [], exponent⟩, r)

/-- Reads a number without its sign. A zero at the front stands alone. Where the text ends within
the number the fault is `atEnd`. -/
def read (atEnd : Reason) : (s : Bytes) → Except Fault (Numeral × Rest s)
  | [] => .error (.behind atEnd [])
  | b :: s =>
    if b = Ascii.zero then
      match s with
      | d :: t =>
        if Ascii.isDigit d then .error (.ahead .invalidNumber (d :: t))
        else (afterWhole atEnd [b] (d :: t)).map fun (n, r) => (n, ⟨r.1, Nat.lt_succ_of_le r.2⟩)
      | [] => .ok (⟨[b], [], none⟩, ⟨[], Nat.zero_lt_succ _⟩)
    else if Ascii.isDigit b then
      let t := dropDigits s
      (afterWhole atEnd (b :: s.takeWhile Ascii.isDigit) t.1).map fun (n, r) =>
        (n, ⟨r.1, Nat.lt_succ_of_le (Nat.le_trans r.2 t.2)⟩)
    else .error (.behind .invalidNumber s)

/-- The greatest significand; digits beyond it only move the point. -/
def greatestSignificand : Nat := 2 ^ 64 - 1

/-- The greatest exponent that is read to its end. -/
def greatestExponent : Nat := 2 ^ 31 - 1

/-- Puts digits behind a number while the result stays within the bound, and counts the digits that
are left over. -/
def absorb (bound n : Nat) : Bytes → Nat × Nat
  | [] => (n, 0)
  | d :: ds =>
    let next := 10 * n + Ascii.digitValue d
    if bound < next then (n, ds.length + 1) else absorb bound next ds

/-- Multiplies by a power of ten. Powers up to the 308th are numbers, and a smaller exponent is
taken in by repeated division. There is no result when it is too great. -/
def scale? (x : Binary64) (exponent : Int) : Option Binary64 :=
  if 0 ≤ exponent then
    if 308 < exponent then if x.isZero then some x else none
    else
      let y := x.mul (Binary64.powerOfTen exponent.toNat)
      if y.isInfinite then none else some y
  else if exponent < -308 then
    if x.isZero then some x else scale? (x.div (Binary64.powerOfTen 308)) (exponent + 308)
  else some (x.div (Binary64.powerOfTen (-exponent).toNat))
termination_by exponent.natAbs
decreasing_by omega

/-- A negative zero, and a negative number below 64 bits, is no integer. -/
def ofInteger (negative : Bool) (n : Nat) : Number :=
  if negative then
    if 0 < n ∧ n ≤ 2 ^ 63 then .integer (-n) else .float (Binary64.ofNat n).neg
  else .integer n

def float? (negative : Bool) (significand : Nat) (exponent : Int) : Option Number :=
  (scale? (Binary64.ofNat significand) exponent).map fun x =>
    .float (if negative then x.neg else x)

/-- The number that the digits spell. If it is out of range, that was noticed at the digit after
which the given number of digits follow. -/
def value (negative : Bool) (x : Numeral) : Except Nat Number :=
  let (w, dropped) := absorb greatestSignificand 0 x.whole
  let (significand, unused) := absorb greatestSignificand w x.fraction
  let start : Int := dropped - (x.fraction.length - unused : Nat)
  let orRange (left : Nat) (y : Option Number) : Except Nat Number :=
    match y with
    | some y => .ok y
    | none => .error left
  match x.exponent with
  | none =>
    if dropped = 0 ∧ x.fraction = [] then .ok (ofInteger negative w)
    else orRange 0 (float? negative significand start)
  | some (down, digits) =>
    match absorb greatestExponent 0 digits with
    | (e, 0) => orRange 0 (float? negative significand (if down then start - e else start + e))
    | (_, left + 1) =>
      if significand ≠ 0 ∧ ¬ down then .error left
      else .ok (.float (Binary64.zero negative))

end Numeral

/-- Reads a number, whose sign has been read. -/
def numeral (negative : Bool) (s : Bytes) : Except Fault (Number × Rest s) := do
  let (x, r) ← Numeral.read .endInValue s
  match x.value negative with
  | .ok n => return (n, r)
  | .error left => throw ⟨.numberOutOfRange, r.1.length + left⟩

end TypedCollections.Json
