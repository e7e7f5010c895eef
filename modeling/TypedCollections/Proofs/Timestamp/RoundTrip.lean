import Mathlib.Data.Option.Basic
import TypedCollections.Proofs.Timestamp.Calendar
import TypedCollections.Proofs.Timestamp.Digits

/-!
The text of a timestamp reads back. `Instant.IsRegular` says which instants a reader can return:
the day is one of the years that are kept, and a leap second is the last of its minute. The text of
such an instant reads as the instant without what lies below a millisecond.
-/

namespace TypedCollections

namespace Instant

structure IsRegular (i : Instant) : Prop where
  day : Date.IsKept i.day
  second : i.second < secondsPerDay
  nanosecond : i.nanosecond < 2 * nanosPerSecond
  /-- Only the last second of a minute has a leap second behind it. -/
  leap : nanosPerSecond ≤ i.nanosecond → i.second % 60 = 59

/-- The instant at its millisecond. -/
def truncated (i : Instant) : Instant :=
  { i with nanosecond := i.nanosecond / 1000000 * 1000000 }

theorem IsRegular.truncated {i : Instant} (h : i.IsRegular) : i.truncated.IsRegular := by
  have hle : i.nanosecond / 1000000 * 1000000 ≤ i.nanosecond := Nat.div_mul_le_self _ _
  exact ⟨h.day, h.second, Nat.lt_of_le_of_lt hle h.nanosecond,
    fun hl => h.leap (Nat.le_trans hl hle)⟩

/-- The text shows nothing of what is cut off. -/
theorem chars_truncated (i : Instant) : i.truncated.chars = i.chars := by
  have hsecond : i.truncated.shownSecond = i.shownSecond := by
    simp only [truncated, shownSecond, nanosPerSecond]
    omega
  have hmilli : i.truncated.nanosecond % nanosPerSecond / 1000000 =
      i.nanosecond % nanosPerSecond / 1000000 := by
    simp only [truncated, nanosPerSecond]
    omega
  unfold chars
  rw [hsecond, hmilli]
  rfl

/-- The parts of the text make up the instant again. -/
theorem instant?_shown {i : Instant} (h : i.IsRegular) :
    Timestamp.instant? (Date.ofDay i.day) (i.second / 3600) (i.second / 60 % 60) i.shownSecond
      (i.nanosecond % nanosPerSecond / 1000000 * 1000000) = some i.truncated := by
  have hvalid := Date.isValid_ofDay h.day
  have hsecond := h.second
  have hnano := h.nanosecond
  have hleap := h.leap
  simp only [secondsPerDay, nanosPerSecond] at hsecond hnano hleap
  have hin : (Date.ofDay i.day).IsValid ∧ i.second / 3600 ≤ 23 ∧ i.second / 60 % 60 ≤ 59 ∧
      i.shownSecond ≤ 60 := by
    refine ⟨hvalid, by omega, by omega, ?_⟩
    simp only [shownSecond, nanosPerSecond]
    omega
  unfold Timestamp.instant?
  rw [if_pos hin, Date.toDay_ofDay]
  simp only [truncated, shownSecond, nanosPerSecond]
  by_cases hn : 1000000000 ≤ i.nanosecond
  · have hs : i.second % 60 + i.nanosecond / 1000000000 = 60 := by
      have := hleap hn
      omega
    simp only [hs, if_true, Option.some.injEq, Instant.mk.injEq, true_and]
    have := hleap hn
    omega
  · have hs : i.second % 60 + i.nanosecond / 1000000000 ≠ 60 := by omega
    simp only [hs, if_false, Option.some.injEq, Instant.mk.injEq, true_and]
    omega

/-- The text behind the year. -/
def charsAfterYear (i : Instant) : List Char :=
  '-' :: (padded 2 (Date.ofDay i.day).month ++ '-' :: (padded 2 (Date.ofDay i.day).day ++
    ' ' :: (padded 2 (i.second / 3600) ++ ':' :: (padded 2 (i.second / 60 % 60) ++
      ':' :: (padded 2 i.shownSecond ++
        '.' :: padded 3 (i.nanosecond % nanosPerSecond / 1000000))))))

theorem chars_eq (i : Instant) :
    i.chars = yearChars (Date.ofDay i.day).year ++ i.charsAfterYear ++ ['Z'] := by
  simp [chars, charsAfterYear, List.append_assoc]

end Instant

namespace Timestamp

open Instant

variable {i : Instant}

theorem shownSecond_lt (h : i.IsRegular) : i.shownSecond < 100 := by
  have := h.nanosecond
  simp only [nanosPerSecond] at this
  simp only [shownSecond, nanosPerSecond]
  omega

theorem milli_lt (i : Instant) : i.nanosecond % nanosPerSecond / 1000000 < 1000 := by
  simp only [nanosPerSecond]
  omega

/-! Both readers take the parts of the text one by one. -/

theorem standard?_chars (h : i.IsRegular) (hlow : 0 ≤ (Date.ofDay i.day).year)
    (hhigh : (Date.ofDay i.day).year ≤ 9999) : standard? i.chars = some i.truncated := by
  have hyear : yearChars (Date.ofDay i.day).year = padded 4 (Date.ofDay i.day).year.natAbs := by
    rw [yearChars, if_neg (by omega), if_neg (by omega)]
  have hsecond := h.second
  simp only [secondsPerDay] at hsecond
  have hdate : (⟨((Date.ofDay i.day).year.natAbs : Int), (Date.ofDay i.day).month,
      (Date.ofDay i.day).day⟩ : Date) = Date.ofDay i.day := by
    rw [Int.natAbs_of_nonneg hlow]
  have hgap : ∀ s, (mark? 'T' (' ' :: s)).or ((mark? 't' (' ' :: s)).or (mark? ' ' (' ' :: s))) =
      some s := by
    intro s
    simp [mark?]
  rw [chars_eq, hyear, charsAfterYear]
  simp only [List.append_assoc, List.cons_append]
  refine Option.bind_eq_some_iff.mpr ⟨_, exactly?_padded (by decide) (by omega) _, ?_⟩
  refine Option.bind_eq_some_iff.mpr ⟨_, mark?_self _ _, ?_⟩
  refine Option.bind_eq_some_iff.mpr
    ⟨_, exactly?_padded (by decide) (Date.ofDay_month_lt i.day) _, ?_⟩
  refine Option.bind_eq_some_iff.mpr ⟨_, mark?_self _ _, ?_⟩
  refine Option.bind_eq_some_iff.mpr
    ⟨_, exactly?_padded (by decide) (Date.ofDay_day_lt i.day) _, ?_⟩
  refine Option.bind_eq_some_iff.mpr ⟨_, hgap _, ?_⟩
  refine Option.bind_eq_some_iff.mpr ⟨_, exactly?_padded (by decide) (by omega) _, ?_⟩
  refine Option.bind_eq_some_iff.mpr ⟨_, mark?_self _ _, ?_⟩
  refine Option.bind_eq_some_iff.mpr ⟨_, exactly?_padded (by decide) (by omega) _, ?_⟩
  refine Option.bind_eq_some_iff.mpr ⟨_, mark?_self _ _, ?_⟩
  refine Option.bind_eq_some_iff.mpr
    ⟨_, exactly?_padded (by decide) (shownSecond_lt h) _, ?_⟩
  refine Option.bind_eq_some_iff.mpr ⟨_, fraction?_padded (milli_lt i) (by simp), ?_⟩
  refine Option.bind_eq_some_iff.mpr ⟨0, rfl, ?_⟩
  refine Option.bind_eq_some_iff.mpr ⟨_, hdate ▸ instant?_shown h, ?_⟩
  simp [earlier, truncated, secondsPerDay, pure]
  omega

theorem not_isDigit_dash {rest : List Char} : ∀ c ∈ ('-' :: rest).head?, c.isDigit = false := by
  intro c hc
  cases hc
  decide

theorem year?_yearChars (year : Int) (rest : List Char) :
    year? (yearChars year ++ '-' :: rest) = some (year, '-' :: rest) := by
  have hdigits (most : Nat) (hl : (padded 4 year.natAbs).length ≤ most) :
      number? most (padded 4 year.natAbs ++ '-' :: rest) = some (year.natAbs, '-' :: rest) :=
    number?_padded_of_stop hl not_isDigit_dash
  unfold yearChars
  split
  · next hneg =>
    have hdash : Text.isBlank '-' = false := by decide
    rw [year?, List.cons_append, List.dropWhile_cons_of_neg (by simp [hdash])]
    simp only
    rw [hdigits _ (by simp)]
    simp only [Option.map_some, Option.some.injEq, Prod.mk.injEq, and_true]
    omega
  · split
    · next hpos =>
      have hplus : Text.isBlank '+' = false := by decide
      rw [year?, List.cons_append, List.dropWhile_cons_of_neg (by simp [hplus])]
      simp only
      rw [hdigits _ (by simp)]
      simp only [Option.map_some, Option.some.injEq, Prod.mk.injEq, and_true]
      omega
    · next hneg hpos =>
      obtain ⟨c, ds, heq, hc⟩ := exists_padded_eq_cons 4 year.natAbs
      have hdash : c ≠ '-' := by
        rintro rfl
        exact absurd hc (by decide)
      have hplus : c ≠ '+' := by
        rintro rfl
        exact absurd hc (by decide)
      have hl : (padded 4 year.natAbs).length = 4 := length_padded (by decide) (by omega)
      have hread := hdigits 4 (Nat.le_of_eq hl)
      rw [year?, dropWhile_padded]
      rw [heq, List.cons_append] at hread ⊢
      split
      · next h => exact absurd (List.cons.inj h).1 hdash
      · next h => exact absurd (List.cons.inj h).1 hplus
      · rw [hread]
        simp only [Option.map_some, Option.some.injEq, Prod.mk.injEq, and_true]
        omega

/-- The text ends with a digit before its `Z`. -/
theorem getLast?_charsAfterYear (i : Instant) :
    ∃ c, i.charsAfterYear.getLast? = some c ∧ c.isDigit := by
  have hne := padded_ne_nil 3 (i.nanosecond % nanosPerSecond / 1000000)
  have hlast := List.getLast?_eq_some_getLast hne
  refine ⟨_, ?_, isDigit_of_mem_padded (List.getLast_mem hne)⟩
  simp [charsAfterYear, List.getLast?_append, List.getLast?_cons, hlast]

theorem withoutZ_chars (i : Instant) :
    (i.chars.reverse.dropWhile (· == 'Z')).reverse =
      yearChars (Date.ofDay i.day).year ++ i.charsAfterYear := by
  obtain ⟨c, hlast, hc⟩ := getLast?_charsAfterYear i
  obtain ⟨front, hfront⟩ := List.getLast?_eq_some_iff.mp hlast
  have hz : c ≠ 'Z' := by
    rintro rfl
    exact absurd hc (by decide)
  rw [chars_eq, hfront]
  simp [hz]

theorem stored?_chars (h : i.IsRegular) : stored? i.chars = some i.truncated := by
  have hsecond := h.second
  simp only [secondsPerDay] at hsecond
  have hgap : ∀ s, short? (' ' :: s) = short? s := by
    intro s
    rw [short?, short?, List.dropWhile_cons_of_pos (by decide)]
  have hfraction : fraction? ('.' :: padded 3 (i.nanosecond % nanosPerSecond / 1000000)) =
      some (i.nanosecond % nanosPerSecond / 1000000 * 1000000, []) := by
    rw [← List.append_nil (padded 3 _)]
    exact fraction?_padded (milli_lt i) (by simp)
  rw [stored?, withoutZ_chars, charsAfterYear]
  refine Option.bind_eq_some_iff.mpr ⟨_, year?_yearChars _ _, ?_⟩
  refine Option.bind_eq_some_iff.mpr ⟨_, mark?_self _ _, ?_⟩
  refine Option.bind_eq_some_iff.mpr ⟨_, short?_padded (Date.ofDay_month_lt i.day) _, ?_⟩
  refine Option.bind_eq_some_iff.mpr ⟨_, mark?_self _ _, ?_⟩
  refine Option.bind_eq_some_iff.mpr ⟨_, short?_padded (Date.ofDay_day_lt i.day) _, ?_⟩
  refine Option.bind_eq_some_iff.mpr ⟨_, (hgap _).trans (short?_padded (by omega) _), ?_⟩
  refine Option.bind_eq_some_iff.mpr ⟨_, mark?_self _ _, ?_⟩
  refine Option.bind_eq_some_iff.mpr ⟨_, short?_padded (by omega) _, ?_⟩
  refine Option.bind_eq_some_iff.mpr ⟨_, mark?_self _ _, ?_⟩
  refine Option.bind_eq_some_iff.mpr ⟨_, short?_padded (shownSecond_lt h) _, ?_⟩
  refine Option.bind_eq_some_iff.mpr ⟨_, hfraction, ?_⟩
  exact instant?_shown h

/-- White space stands neither before the text nor behind it. -/
theorem trim_chars (i : Instant) : Text.trim i.chars = i.chars := by
  have hfirst : ∃ c rest, yearChars (Date.ofDay i.day).year = c :: rest ∧
      Text.isBlank c = false := by
    unfold yearChars
    split
    · exact ⟨'-', _, rfl, by decide⟩
    · split
      · exact ⟨'+', _, rfl, by decide⟩
      · obtain ⟨c, rest, heq, hc⟩ := exists_padded_eq_cons 4 (Date.ofDay i.day).year.natAbs
        exact ⟨c, rest, heq, isBlank_of_isDigit hc⟩
  obtain ⟨c, rest, heq, hc⟩ := hfirst
  have hz : Text.isBlank 'Z' = false := by decide
  rw [chars_eq, heq]
  simp [Text.trim, Text.trimEnd, hc, hz]

/-- A year of more than four digits, or with a sign, is none of the internet standard. -/
theorem standard?_chars_of_signed
    (h : (Date.ofDay i.day).year < 0 ∨ 9999 < (Date.ofDay i.day).year) :
    standard? i.chars = none := by
  have hfirst : ∃ c rest, i.chars = c :: rest ∧ c.isDigit = false := by
    rw [chars_eq]
    unfold yearChars
    split
    · exact ⟨'-', _, rfl, by decide⟩
    · rw [if_pos (by omega)]
      exact ⟨'+', _, rfl, by decide⟩
  obtain ⟨c, rest, heq, hc⟩ := hfirst
  have hnone : exactly? 4 (c :: rest) = none := by simp [exactly?, hc]
  rw [heq, standard?, hnone]
  rfl

theorem read?_chars (h : i.IsRegular) :
    read? (String.ofList i.chars) = some (.at i.truncated) := by
  have hne : i.chars ≠ [] := by simp [chars_eq]
  rw [read?, String.toList_ofList, trim_chars]
  simp only [hne, if_false]
  by_cases hyear : 0 ≤ (Date.ofDay i.day).year ∧ (Date.ofDay i.day).year ≤ 9999
  · rw [standard?_chars h hyear.1 hyear.2]
    rfl
  · rw [standard?_chars_of_signed (by omega), stored?_chars h]
    rfl

end Timestamp
end TypedCollections
