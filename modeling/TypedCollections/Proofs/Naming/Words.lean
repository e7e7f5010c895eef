import Mathlib
import TypedCollections.Naming.Identifier

/-!
The words of a name. Splitting a name keeps its letters and digits, each once and in their order, and
drops what stands between the words; capitalising a word changes the case of its letters and nothing
else.
-/

namespace TypedCollections.Identifier

/-! ## Letters and digits -/

theorem isAlphanum_toUpper {c : Char} (h : c.isAlphanum) : c.toUpper.isAlphanum := by
  by_cases hlower : c.isLower
  · simp [Char.isAlphanum, Char.isAlpha, hlower]
  · rwa [Char.toUpper_eq_of_not_isLower hlower]

theorem isAlphanum_toLower {c : Char} (h : c.isAlphanum) : c.toLower.isAlphanum := by
  by_cases hupper : c.isUpper
  · simp [Char.isAlphanum, Char.isAlpha, hupper]
  · rwa [Char.toLower_eq_of_not_isUpper hupper]

theorem isUpper_toUpper {c : Char} (h : c.isAlphanum) (hd : c.toUpper.isDigit = false) :
    c.toUpper.isUpper := by
  have hupper := isAlphanum_toUpper h
  rw [Char.isAlphanum, hd, Bool.or_false, Char.isAlpha_toUpper_eq_isAlpha] at hupper
  rwa [Char.isUpper_toUpper_eq_isAlpha]

/-- A capital letter is known by its small form. -/
theorem toUpper_toLower {c : Char} (h : c.isUpper) : c.toLower.toUpper = c := by
  rw [Char.toUpper_toLower_eq_toUpper,
    Char.toUpper_eq_of_not_isLower (Char.not_isLower_of_isUpper h)]

theorem isLower_toLower {c : Char} (h : c.isUpper) : c.toLower.isLower := by
  simp [Char.isAlpha, h]

theorem isDigit_eq_false_of_isAlpha {c : Char} (h : c.isAlpha) : c.isDigit = false := by
  simp only [Char.isAlpha, Char.isUpper, Char.isLower, Bool.or_eq_true, Bool.and_eq_true,
    decide_eq_true_eq, UInt32.le_iff_toNat_le, ge_iff_le] at h
  simp only [Char.isDigit, Bool.and_eq_false_iff, decide_eq_false_iff_not,
    UInt32.le_iff_toNat_le, ge_iff_le]
  have hbounds : 'A'.val.toNat = 65 ∧ 'a'.val.toNat = 97 ∧ '9'.val.toNat = 57 := ⟨rfl, rfl, rfl⟩
  omega

theorem isDigit_toLower (c : Char) : c.toLower.isDigit = c.isDigit := by
  by_cases hupper : c.isUpper
  · have hletter : c.isAlpha := by simp [Char.isAlpha, hupper]
    have hsmall : c.toLower.isAlpha := by rwa [Char.isAlpha_toLower_eq_isAlpha]
    rw [isDigit_eq_false_of_isAlpha hletter, isDigit_eq_false_of_isAlpha hsmall]
  · rw [Char.toLower_eq_of_not_isUpper hupper]

/-! ## Splitting -/

theorem flatten_close (word : List Char) (others : List (List Char)) :
    (wordsFrom.close word others).flatten = word.reverse ++ others.flatten := by
  unfold wordsFrom.close
  split
  · next hempty => simp [hempty]
  · rfl

theorem close_of_ne {word : List Char} (h : word ≠ []) (others : List (List Char)) :
    wordsFrom.close word others = word.reverse :: others := by
  rw [wordsFrom.close, if_neg h]

theorem wordsFrom_separator {c : Char} (h : c.isAlphanum = false) (word rest : List Char) :
    wordsFrom word (c :: rest) = wordsFrom.close word (wordsFrom [] rest) := by
  simp [wordsFrom, h]

/-- Only a capital letter starts a word behind a letter or a digit. -/
theorem wordsFrom_of_not_isUpper {c : Char} (h : c.isAlphanum) (hu : c.isUpper = false)
    (word rest : List Char) : wordsFrom word (c :: rest) = wordsFrom (c :: word) rest := by
  simp [wordsFrom, h, hu]

/-- The words hold the letters of the open word, and then the letters and digits of the name. -/
theorem flatten_wordsFrom (word name : List Char) :
    (wordsFrom word name).flatten = word.reverse ++ name.filter Char.isAlphanum := by
  induction name generalizing word with
  | nil => simp [wordsFrom, flatten_close]
  | cons c rest ih =>
    unfold wordsFrom
    split
    · next hc =>
      have hseparates : c.isAlphanum = false := by simpa using hc
      simp [flatten_close, ih, hseparates]
    · next hc =>
      have hkept : c.isAlphanum := by simpa using hc
      split
      · simp [flatten_close, ih, hkept]
      · simp [ih, hkept]

theorem flatten_words (name : List Char) :
    (words name).flatten = name.filter Char.isAlphanum := by
  rw [words, flatten_wordsFrom, List.reverse_nil, List.nil_append]

theorem isAlphanum_of_mem_words {name w : List Char} (hw : w ∈ words name) :
    ∀ c ∈ w, c.isAlphanum := by
  intro c hc
  have hmem : c ∈ name.filter Char.isAlphanum := by
    rw [← flatten_words]
    exact List.mem_flatten.mpr ⟨w, hw, hc⟩
  exact (List.mem_filter.mp hmem).2

/-! ## Capitalising -/

theorem isAlphanum_of_mem_capitalize {w : List Char} (h : ∀ c ∈ w, c.isAlphanum) :
    ∀ c ∈ capitalize w, c.isAlphanum := by
  cases w with
  | nil => simp [capitalize]
  | cons a rest =>
    intro c hc
    rcases List.mem_cons.mp hc with rfl | hc
    · exact isAlphanum_toUpper (h a (by simp))
    · obtain ⟨b, hb, rfl⟩ := List.mem_map.mp hc
      exact isAlphanum_toLower (h b (by simp [hb]))

theorem map_toLower_capitalize (w : List Char) :
    (capitalize w).map Char.toLower = w.map Char.toLower := by
  cases w with
  | nil => rfl
  | cons c rest => simp [capitalize]

theorem map_toLower_flatten_capitalize (ws : List (List Char)) :
    (ws.map capitalize).flatten.map Char.toLower = ws.flatten.map Char.toLower := by
  induction ws with
  | nil => rfl
  | cons w ws ih =>
    simp only [List.map_cons, List.flatten_cons, List.map_append, map_toLower_capitalize, ih]

theorem capitalize_concat {w : List Char} (h : w ≠ []) (c : Char) :
    capitalize (w ++ [c]) = capitalize w ++ [c.toLower] := by
  cases w with
  | nil => exact absurd rfl h
  | cons a rest => simp [capitalize]

/-- The first letter of capitalised words is the first one of a word. -/
theorem head_flatten_capitalize {ws : List (List Char)} {c : Char} {rest : List Char}
    (h : (ws.map capitalize).flatten = c :: rest) : ∃ w ∈ ws, ∃ a ∈ w, c = a.toUpper := by
  induction ws with
  | nil => simp at h
  | cons w ws ih =>
    cases w with
    | nil =>
      obtain ⟨w, hw, a, ha, hc⟩ := ih (by simpa [capitalize] using h)
      exact ⟨w, List.mem_cons_of_mem _ hw, a, ha, hc⟩
    | cons a w =>
      have hc : a.toUpper = c := by
        simp only [List.map_cons, capitalize, List.flatten_cons, List.cons_append] at h
        exact (List.cons.inj h).1
      exact ⟨a :: w, by simp, a, by simp, hc.symm⟩

end TypedCollections.Identifier
