import TypedCollections.Proofs.Text.Utf8
import TypedCollections.Text.Percent

/-!
Percent-encoded texts read back. A decoder takes the bytes of a text as they are, but for those that
a percent sign and two digits stand for; it gives every text that was encoded, and the encoded text
has none of the characters that separate the parts of an address.
-/

namespace TypedCollections.Text.Percent

/-- The bytes that a percent-encoded text stands for. A percent sign must have two digits behind
it. -/
def unescape? : Bytes → Option Bytes
  | [] => some []
  | b :: rest =>
    if b = 0x25 then
      match rest with
      | high :: low :: rest => do
        let high ← Ascii.hexValue? high
        let low ← Ascii.hexValue? low
        let bytes ← unescape? rest
        return UInt8.ofNat (high * 16 + low) :: bytes
      | _ => none
    else (unescape? rest).map (b :: ·)

/-- The text that a percent-encoded text stands for. -/
def decode? (s : String) : Option String := do
  let bytes ← unescape? (Utf8.encode s)
  (Utf8.decode bytes).toOption

/-- The separators of an address. -/
def separators : List Char := ['?', '/', '&', '=']

theorem encodeByte_notMem (b : UInt8) : ∀ c ∈ separators, c ∉ encodeByte b := by
  have hall : ∀ n < 256, ∀ c ∈ separators, c ∉ encodeByte (UInt8.ofNat n) := by decide +kernel
  have hb := hall b.toNat b.toNat_lt
  rwa [UInt8.ofNat_toNat] at hb

theorem encode_notMem {c : Char} (hc : c ∈ separators) (s : String) : c ∉ (encode s).toList := by
  rw [encode, String.toList_ofList, List.mem_flatMap]
  rintro ⟨b, -, hb⟩
  exact encodeByte_notMem b c hc hb

/-- The bytes of a digit. -/
theorem utf8_hexDigit {n : Nat} (h : n < 16) :
    ∃ b, String.utf8EncodeChar (hexDigit n) = [b] ∧ Ascii.hexValue? b = some n := by
  have hall : ∀ n < 16, (String.utf8EncodeChar (hexDigit n)).map Ascii.hexValue? = [some n] := by
    decide +kernel
  obtain ⟨b, hb, hvalue⟩ := List.map_eq_singleton_iff.mp (hall n h)
  exact ⟨b, hb, hvalue⟩

/-- A byte that stands for itself is a character, and no percent sign. -/
theorem utf8_unreserved {b : UInt8} (h : isUnreserved b) :
    String.utf8EncodeChar (Char.ofNat b.toNat) = [b] ∧ b ≠ 0x25 := by
  have hall : ∀ n < 256, isUnreserved (UInt8.ofNat n) →
      String.utf8EncodeChar (Char.ofNat n) = [UInt8.ofNat n] ∧ UInt8.ofNat n ≠ 0x25 := by
    decide +kernel
  have hb := hall b.toNat b.toNat_lt
  rw [UInt8.ofNat_toNat] at hb
  exact hb h

theorem unescape?_encodeByte (b : UInt8) (rest : Bytes) :
    unescape? ((encodeByte b).flatMap String.utf8EncodeChar ++ rest) =
      (unescape? rest).map (b :: ·) := by
  unfold encodeByte
  split
  · next hplain =>
    obtain ⟨hbytes, hne⟩ := utf8_unreserved hplain
    rw [List.flatMap_singleton, hbytes, List.singleton_append, unescape?.eq_def]
    simp only [hne, if_false]
  · have hlt := b.toNat_lt
    obtain ⟨high, hhigh, hhigh'⟩ := utf8_hexDigit (n := b.toNat / 16) (by omega)
    obtain ⟨low, hlow, hlow'⟩ := utf8_hexDigit (n := b.toNat % 16) (by omega)
    have hpercent : String.utf8EncodeChar '%' = [0x25] := by decide
    have hbyte : UInt8.ofNat (b.toNat / 16 * 16 + b.toNat % 16) = b := by
      rw [Nat.div_add_mod', UInt8.ofNat_toNat]
    simp only [List.flatMap_cons, List.flatMap_nil, hpercent, hhigh, hlow, List.cons_append,
      List.nil_append]
    rw [unescape?, if_pos rfl]
    rw [hhigh', hlow']
    cases unescape? rest with
    | none => rfl
    | some bytes =>
      change some (UInt8.ofNat (b.toNat / 16 * 16 + b.toNat % 16) :: bytes) = _
      rw [hbyte]
      rfl

theorem unescape?_flatMap (bytes : Bytes) :
    unescape? ((bytes.flatMap encodeByte).flatMap String.utf8EncodeChar) = some bytes := by
  induction bytes with
  | nil => rfl
  | cons b rest ih =>
    rw [List.flatMap_cons, List.flatMap_append, unescape?_encodeByte, ih]
    rfl

theorem decode?_encode (s : String) : decode? (encode s) = some s := by
  rw [decode?, Utf8.encode, encode, String.toList_ofList, unescape?_flatMap]
  simp [Utf8.decode_encode, Except.toOption]

end TypedCollections.Text.Percent
