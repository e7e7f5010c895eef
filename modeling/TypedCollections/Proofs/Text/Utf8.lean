import TypedCollections.Text.Utf8

/-!
A text is read back from its UTF-8. The cases are those of the length of a character: what the bytes
are is told by their numbers, and the bounds on the second byte are met because a character is no
surrogate and is not written longer than it must be.
-/

namespace TypedCollections.Utf8

theorem within_iff {low high b : UInt8} :
    within low high b ↔ low.toNat ≤ b.toNat ∧ b.toNat ≤ high.toNat := by
  simp [within, UInt8.le_iff_toNat_le]

variable {a b c d : UInt8} {count : Nat} {read : List Char} {rest : Bytes}

theorem isTail_iff : isTail b ↔ 0x80 ≤ b.toNat ∧ b.toNat ≤ 0xbf := within_iff

theorem isSecondOfThree_of (hb : isTail b) (hlow : a.toNat = 0xe0 → 0xa0 ≤ b.toNat)
    (hhigh : a.toNat = 0xed → b.toNat ≤ 0x9f) : isSecondOfThree a b := by
  obtain ⟨htail, htail'⟩ := isTail_iff.mp hb
  unfold isSecondOfThree
  split
  · next heq => exact within_iff.mpr ⟨hlow (heq ▸ rfl), htail'⟩
  split
  · next heq => exact within_iff.mpr ⟨htail, hhigh (heq ▸ rfl)⟩
  · exact hb

theorem isSecondOfFour_of (hb : isTail b) (hlow : a.toNat = 0xf0 → 0x90 ≤ b.toNat)
    (hhigh : a.toNat = 0xf4 → b.toNat ≤ 0x8f) : isSecondOfFour a b := by
  obtain ⟨htail, htail'⟩ := isTail_iff.mp hb
  unfold isSecondOfFour
  split
  · next heq => exact within_iff.mpr ⟨hlow (heq ▸ rfl), htail'⟩
  split
  · next heq => exact within_iff.mpr ⟨htail, hhigh (heq ▸ rfl)⟩
  · exact hb

theorem decodeFrom_one (ha : a.toNat < 0x80) : decodeFrom count read (a :: rest) =
    decodeFrom (count + 1) (Char.ofNat a.toNat :: read) rest := by
  have hone : a < 0x80 := UInt8.lt_iff_toNat_lt.mpr ha
  rw [decodeFrom.eq_def]
  simp only [hone, if_true]

theorem decodeFrom_two (ha : within 0xc2 0xdf a) (hb : isTail b) :
    decodeFrom count read (a :: b :: rest) =
      decodeFrom (count + 2) (Char.ofNat (a.toNat % 32 * 64 + tailBits b) :: read) rest := by
  have hlead := within_iff.mp ha
  have hone : ¬a < 0x80 := by
    rw [UInt8.lt_iff_toNat_lt]
    exact Nat.not_lt.mpr (Nat.le_trans (by decide) hlead.1)
  rw [decodeFrom.eq_def]
  simp only [hone, ha, hb, if_true, if_false]

theorem decodeFrom_three (ha : within 0xe0 0xef a) (hb : isSecondOfThree a b) (hc : isTail c) :
    decodeFrom count read (a :: b :: c :: rest) =
      decodeFrom (count + 3)
        (Char.ofNat ((a.toNat % 16 * 64 + tailBits b) * 64 + tailBits c) :: read) rest := by
  have hlead := within_iff.mp ha
  have hone : ¬a < 0x80 := by
    rw [UInt8.lt_iff_toNat_lt]
    exact Nat.not_lt.mpr (Nat.le_trans (by decide) hlead.1)
  have htwo : ¬within 0xc2 0xdf a := by
    rw [within_iff]
    exact fun h => absurd (Nat.le_trans hlead.1 h.2) (by decide)
  rw [decodeFrom.eq_def]
  simp only [hone, htwo, ha, hb, hc, Bool.and_self, if_true, if_false, Bool.false_eq_true]

theorem decodeFrom_four (ha : within 0xf0 0xf4 a) (hb : isSecondOfFour a b) (hc : isTail c)
    (hd : isTail d) : decodeFrom count read (a :: b :: c :: d :: rest) =
      decodeFrom (count + 4) (Char.ofNat
        (((a.toNat % 8 * 64 + tailBits b) * 64 + tailBits c) * 64 + tailBits d) :: read) rest := by
  have hlead := within_iff.mp ha
  have hone : ¬a < 0x80 := by
    rw [UInt8.lt_iff_toNat_lt]
    exact Nat.not_lt.mpr (Nat.le_trans (by decide) hlead.1)
  have htwo : ¬within 0xc2 0xdf a := by
    rw [within_iff]
    exact fun h => absurd (Nat.le_trans hlead.1 h.2) (by decide)
  have hthree : ¬within 0xe0 0xef a := by
    rw [within_iff]
    exact fun h => absurd (Nat.le_trans hlead.1 h.2) (by decide)
  rw [decodeFrom.eq_def]
  simp only [hone, htwo, hthree, ha, hb, hc, hd, Bool.and_self, if_true, if_false,
    Bool.false_eq_true]

/-- The number of a byte that is written. -/
theorem toNat_byte {n : Nat} (h : n < 256) : (UInt8.ofNat n).toNat = n :=
  UInt8.toNat_ofNat_of_lt' h

theorem decodeFrom_encodeChar (count : Nat) (read : List Char) (c : Char) (rest : Bytes) :
    decodeFrom count read (String.utf8EncodeChar c ++ rest) =
      decodeFrom (count + (String.utf8EncodeChar c).length) (c :: read) rest := by
  have hvalid : c.val.toNat < 0xd800 ∨ 0xdfff < c.val.toNat ∧ c.val.toNat < 0x110000 := c.valid
  have hchar : Char.ofNat c.val.toNat = c := Char.ofNat_toNat c
  unfold String.utf8EncodeChar
  generalize c.val.toNat = n at *
  dsimp only
  have htail (k : Nat) : (UInt8.ofNat (k % 64 + 128)).toNat = k % 64 + 128 := toNat_byte (by omega)
  have hisTail (k : Nat) : isTail (UInt8.ofNat (k % 64 + 128)) :=
    isTail_iff.mpr (by rw [htail]; omega)
  have hbits (k : Nat) : tailBits (UInt8.ofNat (k % 64 + 128)) = k % 64 := by
    rw [tailBits, htail]
    omega
  split
  · have ha := toNat_byte (n := n) (by omega)
    rw [List.singleton_append, decodeFrom_one (by omega), ha, hchar]
    rfl
  split
  · have ha := toNat_byte (n := n / 64 % 32 + 192) (by omega)
    have hlead : within 0xc2 0xdf (UInt8.ofNat (n / 64 % 32 + 192)) :=
      within_iff.mpr (by rw [ha]; exact ⟨by simp; omega, by simp; omega⟩)
    have hnumber : (n / 64 % 32 + 192) % 32 * 64 + n % 64 = n := by omega
    rw [List.cons_append, List.singleton_append, decodeFrom_two hlead (hisTail n), ha, hbits,
      hnumber, hchar]
    rfl
  split
  · have ha := toNat_byte (n := n / 4096 % 16 + 224) (by omega)
    have hlead : within 0xe0 0xef (UInt8.ofNat (n / 4096 % 16 + 224)) :=
      within_iff.mpr (by rw [ha]; exact ⟨by simp, by simp; omega⟩)
    have hsecond := isSecondOfThree_of (a := UInt8.ofNat (n / 4096 % 16 + 224)) (hisTail (n / 64))
      (by rw [ha, htail]; omega) (by rw [ha, htail]; omega)
    have hnumber : ((n / 4096 % 16 + 224) % 16 * 64 + n / 64 % 64) * 64 + n % 64 = n := by omega
    simp only [List.cons_append, List.nil_append]
    rw [decodeFrom_three hlead hsecond (hisTail n), ha, hbits, hbits, hnumber, hchar]
    rfl
  · have ha := toNat_byte (n := n / 262144 % 8 + 240) (by omega)
    have hlead : within 0xf0 0xf4 (UInt8.ofNat (n / 262144 % 8 + 240)) :=
      within_iff.mpr (by rw [ha]; exact ⟨by simp, by simp; omega⟩)
    have hsecond := isSecondOfFour_of (a := UInt8.ofNat (n / 262144 % 8 + 240))
      (hisTail (n / 4096)) (by rw [ha, htail]; omega) (by rw [ha, htail]; omega)
    have hnumber : (((n / 262144 % 8 + 240) % 8 * 64 + n / 4096 % 64) * 64 + n / 64 % 64) * 64 +
        n % 64 = n := by omega
    simp only [List.cons_append, List.nil_append]
    rw [decodeFrom_four hlead hsecond (hisTail (n / 64)) (hisTail n), ha, hbits, hbits, hbits,
      hnumber, hchar]
    rfl

theorem decodeFrom_flatMap (count : Nat) (read chars : List Char) :
    decodeFrom count read (chars.flatMap String.utf8EncodeChar) = .ok (read.reverse ++ chars) := by
  induction chars generalizing count read with
  | nil => simp [decodeFrom]
  | cons c rest ih =>
    rw [List.flatMap_cons, decodeFrom_encodeChar, ih]
    simp

theorem decode_encode (s : String) : decode (encode s) = .ok s := by
  rw [decode, encode, decodeFrom_flatMap]
  exact congrArg Except.ok (String.ofList_toList)

/-! ## ASCII characters -/

/-- All bytes of a longer character have their first bit. -/
theorem le_of_mem_encodeChar {c : Char} (hc : 0x80 ≤ c.toNat) (h : b ∈ String.utf8EncodeChar c) :
    0x80 ≤ b.toNat := by
  have hone : ¬c.val.toNat ≤ 0x7f := Nat.not_le.mpr hc
  have hbyte {k bits front : Nat} (hbits : front + bits ≤ 256) (hfront : 0x80 ≤ front)
      (h : b = UInt8.ofNat (k % bits + front)) (hpos : 0 < bits) : 0x80 ≤ b.toNat := by
    have hlt := Nat.mod_lt k hpos
    rw [h, toNat_byte (by omega)]
    omega
  unfold String.utf8EncodeChar at h
  rw [if_neg hone] at h
  split at h
  · simp only [List.mem_cons, List.not_mem_nil, or_false] at h
    rcases h with h | h <;> exact hbyte (by decide) (by decide) h (by decide)
  split at h
  · simp only [List.mem_cons, List.not_mem_nil, or_false] at h
    rcases h with h | h | h <;> exact hbyte (by decide) (by decide) h (by decide)
  · simp only [List.mem_cons, List.not_mem_nil, or_false] at h
    rcases h with h | h | h | h <;> exact hbyte (by decide) (by decide) h (by decide)

theorem encodeChar_of_lt {c : Char} (hc : c.toNat < 0x80) :
    String.utf8EncodeChar c = [UInt8.ofNat c.toNat] := by
  have hone : c.val.toNat ≤ 0x7f := Nat.le_of_lt_succ hc
  unfold String.utf8EncodeChar
  exact if_pos hone

/-- A byte without its first bit is a character by itself. -/
theorem toNat_of_mem_encodeChar {c : Char} (h : b ∈ String.utf8EncodeChar c) (hb : b.toNat < 0x80) :
    c.toNat = b.toNat := by
  have hc : c.toNat < 0x80 := by
    refine Nat.lt_of_not_le fun hc => ?_
    exact absurd (le_of_mem_encodeChar hc h) (Nat.not_le.mpr hb)
  rw [encodeChar_of_lt hc, List.mem_singleton] at h
  rw [h, toNat_byte (by omega)]

/-- The first character of a text whose first byte is one by itself. -/
theorem toList_of_encode_cons {s : String} (h : encode s = b :: rest) (hb : b.toNat < 0x80) :
    ∃ more, s.toList = Char.ofNat b.toNat :: more := by
  unfold encode at h
  cases hs : s.toList with
  | nil => rw [hs] at h; cases h
  | cons c more =>
    obtain ⟨d, ds, hd⟩ := List.exists_cons_of_ne_nil (String.utf8EncodeChar_ne_nil (c := c))
    rw [hs, List.flatMap_cons, hd] at h
    have hfirst : b ∈ String.utf8EncodeChar c := by
      rw [hd, ← (List.cons.inj h).1]
      exact List.mem_cons_self
    exact ⟨more, by rw [← toNat_of_mem_encodeChar hfirst hb, Char.ofNat_toNat]⟩

/-- The last character of a text whose last byte is one by itself. -/
theorem toList_of_encode_concat {s : String} (h : encode s = rest ++ [b]) (hb : b.toNat < 0x80) :
    ∃ front, s.toList = front ++ [Char.ofNat b.toNat] := by
  unfold encode at h
  rcases List.eq_nil_or_concat s.toList with hs | ⟨front, c, hs⟩
  · rw [hs] at h
    exact absurd h.symm (by simp)
  · obtain ⟨ds, d, hd⟩ :=
      (List.eq_nil_or_concat (String.utf8EncodeChar c)).resolve_left String.utf8EncodeChar_ne_nil
    rw [List.concat_eq_append] at hs hd
    rw [hs, List.flatMap_append, List.flatMap_singleton, hd, ← List.append_assoc] at h
    have hlast : b ∈ String.utf8EncodeChar c := by
      rw [hd, List.append_inj_right' h rfl]
      exact List.mem_append_right _ List.mem_cons_self
    exact ⟨front, by rw [hs, ← toNat_of_mem_encodeChar hlast hb, Char.ofNat_toNat]⟩

end TypedCollections.Utf8
