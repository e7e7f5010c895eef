import TypedCollections.Text.Ascii

/-!
Text as UTF-8. `encode` writes a text; `decode` reads it back and, where the bytes are no UTF-8,
says how many of them come before the first character that is not well formed.
-/

namespace TypedCollections.Utf8

def encode (s : String) : Bytes := s.toList.flatMap String.utf8EncodeChar

/-- Does the byte lie between the bounds? -/
def within (low high b : UInt8) : Bool := low ≤ b && b ≤ high

/-- A byte that continues a character. -/
def isTail (b : UInt8) : Bool := within 0x80 0xbf b

/-- The second byte of a three-byte character: neither an overlong form nor a surrogate. -/
def isSecondOfThree (a b : UInt8) : Bool :=
  if a = 0xe0 then within 0xa0 0xbf b else if a = 0xed then within 0x80 0x9f b else isTail b

/-- The second byte of a four-byte character: neither an overlong form nor beyond the last plane. -/
def isSecondOfFour (a b : UInt8) : Bool :=
  if a = 0xf0 then within 0x90 0xbf b else if a = 0xf4 then within 0x80 0x8f b else isTail b

/-- The six bits that a continuing byte carries. -/
def tailBits (b : UInt8) : Nat := b.toNat % 64

/-- Reads on after `count` good bytes, which spelled the characters `read`, last one first. -/
def decodeFrom (count : Nat) (read : List Char) : Bytes → Except Nat (List Char)
  | [] => .ok read.reverse
  | a :: s =>
    if a < 0x80 then decodeFrom (count + 1) (Char.ofNat a.toNat :: read) s
    else if within 0xc2 0xdf a then
      match s with
      | b :: s =>
        if isTail b then
          decodeFrom (count + 2) (Char.ofNat (a.toNat % 32 * 64 + tailBits b) :: read) s
        else .error count
      | [] => .error count
    else if within 0xe0 0xef a then
      match s with
      | b :: c :: s =>
        if isSecondOfThree a b && isTail c then
          decodeFrom (count + 3)
            (Char.ofNat ((a.toNat % 16 * 64 + tailBits b) * 64 + tailBits c) :: read) s
        else .error count
      | _ => .error count
    else if within 0xf0 0xf4 a then
      match s with
      | b :: c :: d :: s =>
        if isSecondOfFour a b && isTail c && isTail d then
          decodeFrom (count + 4)
            (Char.ofNat (((a.toNat % 8 * 64 + tailBits b) * 64 + tailBits c) * 64 + tailBits d)
              :: read) s
        else .error count
      | _ => .error count
    else .error count

/-- The text that the bytes spell, or the number of good bytes before the first bad ones. -/
def decode (s : Bytes) : Except Nat String := (decodeFrom 0 [] s).map String.ofList

end TypedCollections.Utf8
