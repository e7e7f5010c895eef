import TypedCollections.Number.Binary64

/-!
Decimal text of a finite binary number: the fewest significant digits that read back as the same
number, and among those the nearest. `decimal` chooses the digits, `text` lays them out.
-/

namespace TypedCollections.Shortest

/-- The reals that round to one positive number lie between two bounds, here scaled by a common
denominator. The bounds belong to it when the mantissa is even. -/
structure Interval where
  low : Nat
  value : Nat
  high : Nat
  den : Nat
  closed : Bool

/-- Below a power of two the neighbours are half as far apart as above it. -/
def interval (mantissa : Nat) (exponent : Int) : Interval :=
  let below := if mantissa = 2 ^ 52 ∧ Binary64.leastExponent < exponent then 1 else 2
  let up := 2 ^ exponent.toNat
  ⟨(4 * mantissa - below) * up, 4 * mantissa * up, (4 * mantissa + 2) * up,
    4 * 2 ^ (-exponent).toNat, mantissa % 2 = 0⟩

/-- Does `digits * 10 ^ scale` lie in the interval? -/
def Interval.holds (i : Interval) (digits : Nat) (scale : Int) : Bool :=
  let point := digits * 10 ^ scale.toNat * i.den
  let unit := 10 ^ (-scale).toNat
  if i.closed then i.low * unit ≤ point && point ≤ i.high * unit
  else i.low * unit < point && point < i.high * unit

/-- The integer `p` with `10 ^ p ≤ num / den < 10 ^ (p + 1)`, searched upwards from below. -/
def floorLog10 (num den : Nat) : Int :=
  let guess : Int := (Binary64.floorLog2 num den) * 30103 / 100000 - 1
  ([guess, guess + 1, guess + 2].filter (fun p =>
    den * 10 ^ p.toNat ≤ num * 10 ^ (-p).toNat)).getLastD guess

/-- Of the two points of the grid `10 ^ scale` around the value, the one in the interval; of two
the nearer, and of two equally near the even one. -/
def Interval.nearest? (i : Interval) (scale : Int) : Option Nat :=
  let num := i.value * 10 ^ (-scale).toNat
  let den := i.den * 10 ^ scale.toNat
  let floor := num / den
  match i.holds floor scale, i.holds (floor + 1) scale with
  | true, true =>
    let twice := 2 * (num % den)
    some (if twice < den ∨ (twice = den ∧ floor % 2 = 0) then floor else floor + 1)
  | true, false => some floor
  | false, true => some (floor + 1)
  | false, false => none

/-- Drops the zeros at the end of a number, and counts them. -/
def trimZeros : (fuel : Nat) → Nat → Nat × Nat
  | 0, n => (n, 0)
  | k + 1, n => if n % 10 = 0 ∧ n ≠ 0 then
      let (m, z) := trimZeros k (n / 10)
      (m, z + 1)
    else (n, 0)

/-- `(digits, scale)` for the text of `mantissa * 2 ^ exponent`, a positive number: its value is
read back from `digits * 10 ^ scale`. Seventeen digits always suffice. -/
def decimal (mantissa : Nat) (exponent : Int) : Nat × Int :=
  let i := interval mantissa exponent
  let p := floorLog10 i.value i.den
  let found := (List.range 17).findSome? fun (n : Nat) =>
    (i.nearest? (p - n)).map fun d => (d, p - (n : Int))
  let (digits, scale) := found.getD (0, 0)
  let (trimmed, zeros) := trimZeros 20 digits
  (trimmed, scale + zeros)

/-- Numbers from `10 ^ -5` up to `10 ^ 16` are written in positional notation, always with a
point; all others with an exponent that carries its sign. -/
def layout (digits : Nat) (scale : Int) : String :=
  let ds := Nat.toDigits 10 digits
  let leading : Int := scale + ds.length - 1
  if 0 ≤ scale ∧ leading ≤ 15 then
    String.ofList (ds ++ List.replicate scale.toNat '0') ++ ".0"
  else if 0 ≤ leading ∧ leading ≤ 15 then
    let whole := (leading + 1).toNat
    String.ofList (ds.take whole) ++ "." ++ String.ofList (ds.drop whole)
  else if -5 ≤ leading ∧ leading < 0 then
    "0." ++ String.ofList (List.replicate (-leading - 1).toNat '0' ++ ds)
  else
    let fraction := if ds.length = 1 then "" else "." ++ String.ofList (ds.drop 1)
    String.ofList (ds.take 1) ++ fraction ++ "e" ++ (if leading < 0 then "-" else "+")
      ++ toString leading.natAbs

/-- The text of a finite number; the other numbers have none. -/
def text? : Binary64 → Option String
  | .finite s 0 _ => some (if s then "-0.0" else "0.0")
  | .finite s m e =>
    let (digits, scale) := decimal m e
    some ((if s then "-" else "") ++ layout digits scale)
  | _ => none

end TypedCollections.Shortest
