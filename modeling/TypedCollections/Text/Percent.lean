import TypedCollections.Text.Utf8

/-!
Percent-encoding. Letters, digits and `-`, `_`, `.`, `~` stand for themselves; every other byte of
the text is written as a percent sign and two upper-case hexadecimal digits.
-/

namespace TypedCollections.Text.Percent

def isUnreserved (b : UInt8) : Bool :=
  Ascii.isDigit b || (0x41 ≤ b && b ≤ 0x5a) || (0x61 ≤ b && b ≤ 0x7a) ||
  b == 0x2d || b == 0x5f || b == 0x2e || b == 0x7e

def hexDigit (n : Nat) : Char := if n < 10 then Char.ofNat (0x30 + n) else Char.ofNat (0x37 + n)

def encodeByte (b : UInt8) : List Char :=
  if isUnreserved b then [Char.ofNat b.toNat]
  else ['%', hexDigit (b.toNat / 16), hexDigit (b.toNat % 16)]

def encode (s : String) : String := String.ofList ((Utf8.encode s).flatMap encodeByte)

end TypedCollections.Text.Percent
