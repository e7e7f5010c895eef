import TypedCollections.Number.Natural

/-!
Double-precision binary numbers, as signs, mantissas and exponents. Every operation rounds the
exact rational result once, to the nearest number, and a half to the even neighbour. Nothing here
uses the machine's floating point, so each value can be computed and compared inside a proof.
-/

namespace TypedCollections

/-- A finite number is `± mantissa * 2 ^ exponent`. The mantissa has 53 binary digits, or fewer at
the least exponent, `-1074`; zero is the mantissa zero at that exponent. -/
inductive Binary64 where
  | nan
  | infinite (negative : Bool)
  | finite (negative : Bool) (mantissa : Nat) (exponent : Int)
  deriving DecidableEq, Repr

namespace Binary64

def leastExponent : Int := -1074
def greatestExponent : Int := 971
def mantissaDigits : Nat := 53

def zero (negative : Bool) : Binary64 := .finite negative 0 leastExponent

def isFinite : Binary64 → Bool
  | .finite _ _ _ => true
  | _ => false

def isZero : Binary64 → Bool
  | .finite _ m _ => m == 0
  | _ => false

def isInfinite : Binary64 → Bool
  | .infinite _ => true
  | _ => false

def isNegative : Binary64 → Bool
  | .nan => false
  | .infinite s => s
  | .finite s _ _ => s

def neg : Binary64 → Binary64
  | .nan => .nan
  | .infinite s => .infinite (!s)
  | .finite s m e => .finite (!s) m e

/-- The integer nearest to `num / den`. -/
def roundEven (num den : Nat) : Nat :=
  let q := num / den
  let twice := 2 * (num % den)
  if twice < den ∨ (twice = den ∧ q % 2 = 0) then q else q + 1

/-- `num / den` divided by `2 ^ e`, again as a numerator and a denominator. -/
def shifted (num den : Nat) (e : Int) : Nat × Nat :=
  (num * 2 ^ (-e).toNat, den * 2 ^ e.toNat)

/-- The integer `e` with `2 ^ e ≤ num / den < 2 ^ (e + 1)`, for positive arguments. -/
def floorLog2 (num den : Nat) : Int :=
  let e : Int := num.log2 - den.log2
  let (n, d) := shifted num den e
  if d ≤ n then e else e - 1

/-- Puts a rounded mantissa in its place; rounding up may have given it a digit too many. -/
def pack (negative : Bool) (mantissa : Nat) (exponent : Int) : Binary64 :=
  let (m, e) := if mantissa = 2 ^ mantissaDigits then (mantissa / 2, exponent + 1) else (mantissa, exponent)
  if greatestExponent < e then .infinite negative else .finite negative m e

/-- The number nearest to `± num / den`. -/
def ofRatio (negative : Bool) (num den : Nat) : Binary64 :=
  if num = 0 then zero negative
  else
    let e := max leastExponent (floorLog2 num den - (mantissaDigits - 1))
    let (n, d) := shifted num den e
    pack negative (roundEven n d) e

def ofNat (n : Nat) : Binary64 := ofRatio false n 1

def ofInt (i : Int) : Binary64 := ofRatio (i < 0) i.natAbs 1

/-- The number nearest to `10 ^ k`. -/
def powerOfTen (k : Nat) : Binary64 := ofNat (10 ^ k)

def mul : Binary64 → Binary64 → Binary64
  | .nan, _ | _, .nan => .nan
  | .infinite s, y => if y.isZero then .nan else .infinite (s != y.isNegative)
  | x, .infinite t => if x.isZero then .nan else .infinite (x.isNegative != t)
  | .finite s m e, .finite t n f =>
    let (num, den) := shifted (m * n) 1 (-(e + f))
    ofRatio (s != t) num den

def div : Binary64 → Binary64 → Binary64
  | .nan, _ | _, .nan => .nan
  | .infinite _, .infinite _ => .nan
  | .infinite s, .finite t _ _ => .infinite (s != t)
  | .finite s _ _, .infinite t => zero (s != t)
  | .finite s m e, .finite t n f =>
    if n = 0 then if m = 0 then .nan else .infinite (s != t)
    else
      let (num, den) := shifted m n (-(e - f))
      ofRatio (s != t) num den

/-- The 64 bits of the interchange format, as a number: a sign, eleven bits of biased exponent,
and the mantissa without its leading digit. -/
def toBits : Binary64 → Nat
  | .nan => 0x7ff8000000000000
  | .infinite s => signBit s + 0x7ff0000000000000
  | .finite s m e =>
    if m < 2 ^ (mantissaDigits - 1) then signBit s + m
    else signBit s + (e + 1075).toNat * 2 ^ 52 + (m - 2 ^ 52)
where
  signBit (negative : Bool) : Nat := if negative then 2 ^ 63 else 0

end Binary64
end TypedCollections
