import Mathlib
import TypedCollections.Proofs.Timestamp.Reading
import TypedCollections.Record.Cast

/-!
What the lenient readings of a JSON value have in common with those of its text. A value that is no
truth value or no number is null or a text, or starts with a bracket when it is written; then its
text is none either. What is read as a list of ids has no empty one.
-/

namespace TypedCollections

theorem Shortest.layout_ne_empty (digits : Nat) (scale : Int) : layout digits scale ≠ "" := by
  intro h
  have hl := congrArg String.toList h
  unfold layout at hl
  simp only at hl
  split at hl
  · simp [String.toList_append] at hl
  split at hl
  · simp [String.toList_append] at hl
  split at hl
  · simp [String.toList_append] at hl
  · simp [String.toList_append] at hl

theorem Shortest.ne_empty_of_text? {x : Binary64} {s : String} (h : text? x = some s) : s ≠ "" := by
  unfold text? at h
  split at h
  · cases h
    split <;> decide
  · cases h
    exact fun he => layout_ne_empty _ _ (String.append_eq_empty_iff.mp he).2
  · cases h

namespace Json

theorem Number.text_ne_empty (n : Number) : n.text ≠ "" := by
  cases n with
  | integer i =>
    rw [Number.text, Int.toString_eq_repr, Int.repr_eq_if]
    split
    · exact Nat.repr_ne_empty
    · exact fun he => Nat.repr_ne_empty (String.append_eq_empty_iff.mp he).2
  | float x =>
    rw [Number.text]
    cases h : Shortest.text? x with
    | none => decide
    | some s => exact Shortest.ne_empty_of_text? h

namespace Value

/-- A text that starts with a bracket, as those of lists and objects do. -/
def IsBracketed (s : String) : Prop := ∃ c rest, s.toList = c :: rest ∧ (c = '[' ∨ c = '\x7b')

/-- The values that have a text: words, numbers, strings, and those between brackets. -/
theorem asText?_cases {v : Value} {s : String} (h : v.asText? = some s) :
    (∃ b, v = boolean b ∧ s = v.text) ∨ (∃ n, v = number n ∧ s = n.text) ∨ v = string s ∨
      IsBracketed s := by
  cases v with
  | null => cases h
  | boolean b =>
    cases h
    exact .inl ⟨b, rfl, rfl⟩
  | number n =>
    cases h
    exact .inr (.inl ⟨n, rfl, by rw [text, compact, String.ofList_toList]⟩)
  | string t =>
    cases h
    exact .inr (.inr (.inl rfl))
  | array items =>
    cases h
    exact .inr (.inr (.inr ⟨'[', _, by rw [text, String.toList_ofList, compact]; rfl, .inl rfl⟩))
  | object members =>
    cases h
    exact .inr (.inr (.inr
      ⟨'\x7b', _, by rw [text, String.toList_ofList, compact]; rfl, .inr rfl⟩))

theorem ne_empty_of_asText? {v : Value} {s : String} (h : v.asText? = some s) :
    s ≠ "" ∨ v = string s := by
  rcases asText?_cases h with ⟨b, rfl, rfl⟩ | ⟨n, -, rfl⟩ | hstring | ⟨c, rest, heq, -⟩
  · exact .inl (by cases b <;> decide)
  · exact .inl n.text_ne_empty
  · exact .inr hstring
  · left
    rintro rfl
    cases heq

/-! Texts in place of values. -/

/-- White space around a text does not reach behind its first other character. -/
theorem exists_trim_eq_cons {c : Char} (h : Text.isBlank c = false) (rest : List Char) :
    ∃ rest', Text.trim (c :: rest) = c :: rest' := by
  rw [Text.trim, List.dropWhile_cons_of_neg (by simp [h]), Text.trimEnd, List.reverse_cons,
    List.dropWhile_append]
  split
  · exact ⟨[], by simp [h]⟩
  · exact ⟨_, by rw [List.reverse_append]; rfl⟩

theorem IsBracketed.trim {s : String} (h : IsBracketed s) :
    ∃ c rest, Text.trim s.toList = c :: rest ∧ (c = '[' ∨ c = '\x7b') := by
  obtain ⟨c, rest, heq, hc⟩ := h
  have hblank : Text.isBlank c = false := by rcases hc with rfl | rfl <;> decide
  obtain ⟨rest', htrim⟩ := exists_trim_eq_cons hblank rest
  exact ⟨c, rest', by rw [heq, htrim], hc⟩

theorem asFlag?_of_isBracketed {s : String} (h : IsBracketed s) : (string s).asFlag? = none := by
  obtain ⟨c, rest, htrim, hc⟩ := h.trim
  simp only [asFlag?, htrim, List.map_cons]
  rcases hc with rfl | rfl <;> simp [Char.toLower]

theorem asNumber?_of_isBracketed {s : String} (h : IsBracketed s) :
    (string s).asNumber? = none := by
  obtain ⟨c, rest, htrim, hc⟩ := h.trim
  simp only [asNumber?, htrim]
  rcases hc with rfl | rfl <;>
    simp [Decimal.read?, Decimal.unsigned?, Decimal.digits, Char.toLower, Char.isDigit]

/-- The text of what is no truth value is none. -/
theorem asFlag?_text {v : Value} {s : String} (h : v.asFlag? = none) (hs : v.asText? = some s) :
    (string s).asFlag? = none := by
  rcases asText?_cases hs with ⟨b, rfl, -⟩ | ⟨n, rfl, -⟩ | rfl | hbracket
  · cases h
  · cases h
  · exact h
  · exact asFlag?_of_isBracketed hbracket

/-- The text of what is no number is none. -/
theorem asNumber?_text {v : Value} {s : String} (h : v.asNumber? = none)
    (hs : v.asText? = some s) : (string s).asNumber? = none := by
  rcases asText?_cases hs with ⟨b, rfl, -⟩ | ⟨n, rfl, -⟩ | rfl | hbracket
  · cases h
  · cases h
  · exact h
  · exact asNumber?_of_isBracketed hbracket

/-! Lists of ids. -/

theorem ne_empty_of_mem_nonemptyTexts {items : List Value} {s : String}
    (h : s ∈ nonemptyTexts items) : s ≠ "" := by
  simpa using (List.mem_filter.mp h).2

theorem ne_empty_of_mem_asIds {v : Value} {s : String} (h : s ∈ v.asIds) : s ≠ "" := by
  -- of the values that stand for themselves alone, only a string could be empty
  have hsingle : ∀ v : Value, (∀ t, v ≠ string t) → s ∈ v.asText?.toList → s ≠ "" := by
    intro v hv hs
    exact (ne_empty_of_asText? (Option.mem_toList.mp hs)).resolve_right (hv s)
  cases v with
  | array items => exact ne_empty_of_mem_nonemptyTexts h
  | string t =>
    have hself : Text.trim t.toList ≠ [] → s ∈ [t] → s ≠ "" := by
      rintro hne hs rfl
      rw [← List.mem_singleton.mp hs] at hne
      exact hne rfl
    simp only [asIds] at h
    split at h
    · cases h
    · next heq =>
      split at h
      · exact ne_empty_of_mem_nonemptyTexts h
      · exact hself (by simp [heq]) h
    · next hne _ => exact hself hne h
  | null => cases h
  | boolean b => exact hsingle (boolean b) (by simp) h
  | number n => exact hsingle (number n) (by simp) h
  | object members => exact hsingle (object members) (by simp) h

/-- A list of ids is read back as it was written. -/
theorem asIds_array_string {ids : List String} (h : ∀ s ∈ ids, s ≠ "") :
    (array (ids.map string)).asIds = ids := by
  rw [asIds, nonemptyTexts, List.filterMap_map]
  have htexts : asText? ∘ string = some := rfl
  rw [htexts, List.filterMap_some, List.filter_eq_self]
  simpa using h

/-- A timestamp is read back as far as its text shows it. -/
theorem text_asTimestamp (v : Value) :
    (string v.asTimestamp.text).asTimestamp = v.asTimestamp.truncated := by
  have hunset : (string Timestamp.unset.text).asTimestamp = Timestamp.unset.truncated := by decide
  cases v with
  | string s =>
    cases h : Timestamp.read? s with
    | none => simpa [asTimestamp, h] using hunset
    | some t => simp [asTimestamp, h, Timestamp.read?_text_of_read? h]
  | null => exact hunset
  | boolean b => exact hunset
  | number n => exact hunset
  | array items => exact hunset
  | object members => exact hunset

end Value
end Json
end TypedCollections
