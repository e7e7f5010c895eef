import TypedCollections.Text.Quoted

/-!
String literals of the generated code. Whatever text is written as a literal, the literal does not
break its line: each of its characters shows as itself or is a part of an escape.
-/

namespace TypedCollections.Text.Quoted

/-- A number in hexadecimal digits is made of them only. -/
theorem exists_digitChar_of_mem_toDigits {n : Nat} {c : Char} (h : c ∈ Nat.toDigits 16 n) :
    ∃ d < 16, c = Nat.digitChar d := by
  induction n using Nat.strongRecOn with
  | ind n ih =>
    rw [Nat.toDigits_eq_if (by decide)] at h
    split at h
    · next hn => exact ⟨n, hn, List.mem_singleton.mp h⟩
    · rcases List.mem_append.mp h with h | h
      · exact ih (n / 16) (by omega) h
      · exact ⟨n % 16, Nat.mod_lt _ (by decide), List.mem_singleton.mp h⟩

/-- The characters that end a line, in the language or in a tool that shows it. -/
def lineBreaks : List Char := ['\n', '\x0b', '\x0c', '\r', '\u0085', '\u2028', '\u2029']

/-- The characters that escapes are made of, besides digits. -/
def escapeMarks : List Char := ['\\', '"', 'n', 'r', 't', '0', 'u', '\x7b', '\x7d']

/-- What is written in a literal is a character that stands for itself or a part of an escape. -/
theorem isPrintable_of_mem_encodeChar {b c : Char} (h : b ∈ encodeChar c) : isPrintable b := by
  have hmarks : ∀ b ∈ escapeMarks, isPrintable b := List.all_eq_true.mp (by decide)
  have hdigits : ∀ d < 16, isPrintable (Nat.digitChar d) := by decide
  have hletter : ∀ d ∈ escapeMarks, b ∈ ['\\', d] → isPrintable b := by
    intro d hd hb
    rcases List.mem_cons.mp hb with rfl | hb
    · exact hmarks _ (by decide)
    · exact List.mem_singleton.mp hb ▸ hmarks d hd
  unfold encodeChar at h
  split at h
  · exact hletter _ (by decide) h
  split at h
  · exact hletter _ (by decide) h
  split at h
  · exact hletter _ (by decide) h
  split at h
  · exact hletter _ (by decide) h
  split at h
  · exact hletter _ (by decide) h
  split at h
  · exact hletter _ (by decide) h
  split at h
  · next hprintable => exact List.mem_singleton.mp h ▸ hprintable
  · rw [List.mem_append, List.mem_append] at h
    rcases h with (h | h) | h
    · exact hmarks b ((by decide : ['\\', 'u', '\x7b'] ⊆ escapeMarks) h)
    · obtain ⟨d, hd, rfl⟩ := exists_digitChar_of_mem_toDigits h
      exact hdigits d hd
    · exact hmarks b ((by decide : ['\x7d'] ⊆ escapeMarks) h)

/-- A literal has no line break in it. -/
theorem notMem_lineBreaks_of_mem_encode {text : String} {c : Char} (h : c ∈ (encode text).toList) :
    c ∉ lineBreaks := by
  have hbreaks : ∀ c ∈ lineBreaks, !isPrintable c := List.all_eq_true.mp (by decide +kernel)
  have hprintable : isPrintable c := by
    rw [encode, String.toList_ofList] at h
    rcases List.mem_cons.mp h with rfl | h
    · decide
    rcases List.mem_append.mp h with h | h
    · obtain ⟨d, -, hd⟩ := List.mem_flatMap.mp h
      exact isPrintable_of_mem_encodeChar hd
    · exact List.mem_singleton.mp h ▸ rfl
  intro hbreak
  have hother := hbreaks c hbreak
  rw [hprintable] at hother
  cases hother

end TypedCollections.Text.Quoted
