import Mathlib.Data.List.TakeWhile
import TypedCollections.Text.Blank

/-!
Texts between white space. A text that neither begins nor ends with white space is what is left of
it when the white space around it is taken away, and every text is of this form.
-/

namespace TypedCollections.Text

def AllBlank (s : List Char) : Prop := ∀ c ∈ s, isBlank c

/-- No white space at either end. -/
structure IsTrimmed (s : List Char) : Prop where
  first : ∀ c ∈ s.head?, isBlank c = false
  last : ∀ c ∈ s.getLast?, isBlank c = false

variable {before s after : List Char}

theorem allBlank_nil : AllBlank [] := fun _ hc => nomatch hc

theorem dropWhile_append (hb : AllBlank before) (h : ∀ c ∈ s.head?, isBlank c = false) :
    (before ++ s).dropWhile isBlank = s := by
  rw [List.dropWhile_append_of_pos hb]
  cases s with
  | nil => rfl
  | cons c s => exact List.dropWhile_cons_of_neg (by simp [h c rfl])

theorem trimEnd_append (ha : AllBlank after) (h : ∀ c ∈ s.getLast?, isBlank c = false) :
    trimEnd (s ++ after) = s := by
  have hblank : AllBlank after.reverse := fun c hc => ha c (List.mem_reverse.mp hc)
  have hdrop := dropWhile_append (s := s.reverse) hblank (by rwa [List.head?_reverse])
  rw [trimEnd, List.reverse_append, hdrop, List.reverse_reverse]

/-- White space around a text is taken away, and nothing else. -/
theorem trim_append (hb : AllBlank before) (hs : IsTrimmed s) (ha : AllBlank after) :
    trim (before ++ (s ++ after)) = s := by
  cases s with
  | nil =>
    have hall : AllBlank (before ++ after) := fun c hc => (List.mem_append.mp hc).elim (hb c) (ha c)
    rw [List.nil_append, trim, List.dropWhile_eq_nil_iff.mpr hall]
    rfl
  | cons c rest =>
    have hdrop : (before ++ (c :: rest ++ after)).dropWhile isBlank = c :: rest ++ after :=
      dropWhile_append hb fun d hd => hs.first d hd
    rw [trim, hdrop, trimEnd_append ha hs.last]

theorem first_dropWhile (s : List Char) : ∀ c ∈ (s.dropWhile isBlank).head?, isBlank c = false := by
  intro c hc
  have hfirst := List.head?_dropWhile_not isBlank s
  rw [Option.mem_def.mp hc] at hfirst
  simpa using hfirst

theorem exists_trimEnd (s : List Char) :
    ∃ after, AllBlank after ∧ (∀ c ∈ (trimEnd s).getLast?, isBlank c = false) ∧
      s = trimEnd s ++ after := by
  refine ⟨(s.reverse.takeWhile isBlank).reverse, ?_, ?_, ?_⟩
  · intro c hc
    exact List.mem_takeWhile_imp (List.mem_reverse.mp hc)
  · rw [trimEnd, List.getLast?_reverse]
    exact first_dropWhile s.reverse
  · rw [trimEnd, ← List.reverse_append, List.takeWhile_append_dropWhile, List.reverse_reverse]

/-- What is taken away is white space, and all that there is at the ends. -/
theorem exists_trim (s : List Char) :
    ∃ before after, AllBlank before ∧ AllBlank after ∧ IsTrimmed (trim s) ∧
      s = before ++ (trim s ++ after) := by
  obtain ⟨after, ha, hlast, heq⟩ := exists_trimEnd (s.dropWhile isBlank)
  refine ⟨s.takeWhile isBlank, after, fun c hc => List.mem_takeWhile_imp hc, ha, ⟨?_, hlast⟩, ?_⟩
  · intro c hc
    have hfirst := first_dropWhile s
    rw [trim, Option.mem_def] at hc
    rw [heq, List.head?_append, hc] at hfirst
    exact hfirst c rfl
  · rw [trim, ← heq, List.takeWhile_append_dropWhile]

end TypedCollections.Text
