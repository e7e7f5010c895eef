import TypedCollections.Timestamp.Parser
import TypedCollections.Timestamp.Printer

/-!
The numbers in the text of a timestamp. A reader takes the digits that a printer wrote, no more and
no less, and gets the number back.
-/

namespace TypedCollections

/-! Numbers with zeros in front. -/

theorem isDigit_of_mem_padded {width n : Nat} {c : Char} (h : c ∈ padded width n) : c.isDigit := by
  unfold padded at h
  rcases List.mem_append.mp h with h | h
  · rw [List.eq_of_mem_replicate h]
    decide
  · exact Nat.isDigit_of_mem_toDigits (by decide) (by decide) h

theorem padded_ne_nil (width n : Nat) : padded width n ≠ [] := by
  unfold padded
  exact List.append_ne_nil_of_right_ne_nil _ Nat.toDigits_ne_nil

theorem ofDigitChars_padded (width n : Nat) : Nat.ofDigitChars 10 (padded width n) 0 = n := by
  rw [padded, Nat.ofDigitChars_append, Nat.ofDigitChars_replicate_zero, Nat.mul_zero,
    Nat.ofDigitChars_ten_toDigits]

theorem length_padded {width n : Nat} (hw : 0 < width) (hn : n < 10 ^ width) :
    (padded width n).length = width := by
  have := (Nat.length_toDigits_le_iff (by decide) hw).mpr hn
  rw [padded, List.length_append, List.length_replicate]
  omega

/-- The first digit, for readers that look at one character. -/
theorem exists_padded_eq_cons (width n : Nat) :
    ∃ c rest, padded width n = c :: rest ∧ c.isDigit := by
  obtain ⟨c, rest, heq⟩ := List.exists_cons_of_ne_nil (padded_ne_nil width n)
  exact ⟨c, rest, heq, isDigit_of_mem_padded (heq ▸ List.mem_cons_self)⟩

namespace Timestamp

variable {ds rest : List Char}

/-- Digits are read up to the most that are wanted or the first other character. -/
theorem number?_append {most : Nat} (hd : ∀ c ∈ ds, c.isDigit) (hne : ds ≠ [])
    (hl : ds.length ≤ most) (hstop : ds.length = most ∨ ∀ c ∈ rest.head?, c.isDigit = false) :
    number? most (ds ++ rest) = some (Nat.ofDigitChars 10 ds 0, rest) := by
  have htaken : ((ds ++ rest).take most).takeWhile Char.isDigit = ds := by
    rw [List.take_append, List.take_of_length_le hl, List.takeWhile_append_of_pos hd]
    rcases hstop with heq | hstop
    · simp [heq]
    · cases rest with
      | nil => simp
      | cons c rest =>
        have hc := hstop c rfl
        cases hk : most - ds.length with
        | zero => simp
        | succ k => simp [hc]
  unfold number?
  simp only [htaken, hne, if_false, List.drop_left]

theorem exactly?_append {count : Nat} (hd : ∀ c ∈ ds, c.isDigit) (hne : ds ≠ [])
    (hl : ds.length = count) (rest : List Char) :
    exactly? count (ds ++ rest) = some (Nat.ofDigitChars 10 ds 0, rest) := by
  have htake : (ds ++ rest).take count = ds := List.take_left' hl
  unfold exactly?
  rw [htake, if_pos ⟨hl, List.all_eq_true.mpr hd⟩]
  exact number?_append hd hne (Nat.le_of_eq hl) (.inl hl)

/-- A number of fixed width is read back whatever comes behind it. -/
theorem exactly?_padded {width n : Nat} (hw : 0 < width) (hn : n < 10 ^ width) (rest : List Char) :
    exactly? width (padded width n ++ rest) = some (n, rest) := by
  rw [exactly?_append (fun _ => isDigit_of_mem_padded) (padded_ne_nil width n)
    (length_padded hw hn), ofDigitChars_padded]

theorem number?_padded {width n : Nat} (hw : 0 < width) (hn : n < 10 ^ width) (rest : List Char) :
    number? width (padded width n ++ rest) = some (n, rest) := by
  have hl := length_padded hw hn
  rw [number?_append (fun _ => isDigit_of_mem_padded) (padded_ne_nil width n) (Nat.le_of_eq hl)
    (.inl hl), ofDigitChars_padded]

/-- A number of any length is read back if no digit comes behind it. -/
theorem number?_padded_of_stop {most width n : Nat} (hl : (padded width n).length ≤ most)
    (hstop : ∀ c ∈ rest.head?, c.isDigit = false) :
    number? most (padded width n ++ rest) = some (n, rest) := by
  rw [number?_append (fun _ => isDigit_of_mem_padded) (padded_ne_nil width n) hl (.inr hstop),
    ofDigitChars_padded]

theorem isBlank_of_isDigit {c : Char} (h : c.isDigit) : Text.isBlank c = false := by
  have hb : 48 ≤ c.toNat ∧ c.toNat ≤ 57 := by
    simpa [Char.isDigit, UInt32.le_iff_toNat_le] using h
  have hspace : c ≠ ' ' := by
    rintro rfl
    exact absurd h (by decide)
  simp [Text.isBlank, hspace]
  omega

theorem dropWhile_padded (width n : Nat) (rest : List Char) :
    (padded width n ++ rest).dropWhile Text.isBlank = padded width n ++ rest := by
  obtain ⟨c, ds, heq, hc⟩ := exists_padded_eq_cons width n
  rw [heq, List.cons_append, List.dropWhile_cons_of_neg (by simp [isBlank_of_isDigit hc])]

theorem short?_padded {n : Nat} (hn : n < 100) (rest : List Char) :
    short? (padded 2 n ++ rest) = some (n, rest) := by
  rw [short?, dropWhile_padded, number?_padded (by decide) hn]

theorem mark?_self (c : Char) (rest : List Char) : mark? c (c :: rest) = some rest := by
  simp [mark?]

/-- Milliseconds, read as nanoseconds. -/
theorem fraction?_padded {n : Nat} (hn : n < 1000) (hstop : ∀ c ∈ rest.head?, c.isDigit = false) :
    fraction? ('.' :: (padded 3 n ++ rest)) = some (n * 1000000, rest) := by
  have hl : (padded 3 n).length = 3 := length_padded (by decide) hn
  have hdrop : rest.dropWhile Char.isDigit = rest := by
    cases rest with
    | nil => rfl
    | cons c rest => rw [List.dropWhile_cons_of_neg (by simp [hstop c rfl])]
  rw [fraction?, number?_padded_of_stop (by omega) hstop]
  simp [hl, hdrop]

end Timestamp
end TypedCollections
