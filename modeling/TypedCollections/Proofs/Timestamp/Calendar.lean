import TypedCollections.Timestamp.Calendar

/-!
Days and dates. Each day lies in one year, and the date of a day has that day's number.
-/

namespace TypedCollections

namespace Calendar

theorem sum_monthLengths (leap : Bool) :
    (monthLengths leap).sum = if leap then 366 else 365 := by
  cases leap <;> rfl

theorem daysBeforeYear_succ (year : Int) :
    daysBeforeYear (year + 1) = daysBeforeYear year + (monthLengths (isLeap year)).sum := by
  rw [sum_monthLengths]
  unfold daysBeforeYear isLeap
  by_cases h4 : year % 4 = 0
  · by_cases h100 : year % 100 = 0
    · by_cases h400 : year % 400 = 0
      · simp [h4, h100, h400]
        omega
      · simp [h4, h100, h400]
        omega
    · simp [h4, h100]
      omega
  · simp [h4]
    omega

theorem daysBeforeYear_mono {a b : Int} (h : a ≤ b) : daysBeforeYear a ≤ daysBeforeYear b := by
  unfold daysBeforeYear
  omega

/-- The guess is off by one year at most, as 400 years have 146097 days. -/
theorem yearOf_spec (day : Int) :
    daysBeforeYear (yearOf day) ≤ day ∧ day < daysBeforeYear (yearOf day + 1) := by
  have hlow : daysBeforeYear (400 * day / 146097 - 1) ≤ day := by
    unfold daysBeforeYear
    omega
  have hhigh : day < daysBeforeYear (400 * day / 146097 + 1 + 1) := by
    unfold daysBeforeYear
    omega
  unfold yearOf
  simp only
  split
  · next h => exact ⟨hlow, by rwa [Int.sub_add_cancel]⟩
  · next h =>
    split
    · next h' => exact ⟨h', hhigh⟩
    · next h' => exact ⟨Int.not_lt.mp h, Int.not_le.mp h'⟩

/-- A number of days leads to a day of one of the months if they are long enough together. -/
theorem monthAndDay_spec (month : Nat) {lengths : List Nat} {days : Nat} (h : days < lengths.sum) :
    ∃ i j, monthAndDay month lengths days = (month + i, j + 1) ∧ i < lengths.length ∧
      j < lengths.getD i 0 ∧ (lengths.take i).sum + j = days := by
  induction lengths generalizing month days with
  | nil => simp at h
  | cons length rest ih =>
    simp only [monthAndDay]
    split
    · next hlt => exact ⟨0, days, rfl, by simp, by simpa using hlt, by simp⟩
    · next hge =>
      rw [List.sum_cons] at h
      have hdays : days - length < rest.sum := by omega
      obtain ⟨i, j, heq, hi, hj, hsum⟩ := ih (month + 1) hdays
      refine ⟨i + 1, j, ?_, by simpa using hi, by simpa using hj, ?_⟩
      · rw [heq, Nat.add_assoc, Nat.add_comm 1 i]
      · rw [List.take_succ_cons, List.sum_cons]
        omega

theorem sum_take_add_getD_le (lengths : List Nat) (i : Nat) :
    (lengths.take i).sum + lengths.getD i 0 ≤ lengths.sum := by
  induction lengths generalizing i with
  | nil => simp
  | cons length rest ih =>
    cases i with
    | zero => simp
    | succ i =>
      have := ih i
      simp only [List.take_succ_cons, List.sum_cons, List.getD_cons_succ]
      omega

end Calendar

namespace Date

open Calendar

theorem ofDay_year (day : Int) : (ofDay day).year = yearOf day := rfl

/-- The month and the day of a date lie within the calendar, and lead back to the day. -/
theorem ofDay_spec (day : Int) :
    (1 ≤ (ofDay day).month ∧ (ofDay day).month ≤ 12 ∧ 1 ≤ (ofDay day).day ∧
        (ofDay day).day ≤
          (monthLengths (isLeap (ofDay day).year)).getD ((ofDay day).month - 1) 0) ∧
      (ofDay day).toDay = day := by
  obtain ⟨hlow, hhigh⟩ := yearOf_spec day
  rw [daysBeforeYear_succ] at hhigh
  have hdays : (day - daysBeforeYear (yearOf day)).toNat <
      (monthLengths (isLeap (yearOf day))).sum := by omega
  obtain ⟨i, j, heq, hi, hj, hsum⟩ := monthAndDay_spec 1 hdays
  have hdate : ofDay day = ⟨yearOf day, 1 + i, j + 1⟩ := by
    unfold ofDay
    simp only [heq]
  have hlength : (monthLengths (isLeap (yearOf day))).length = 12 := rfl
  rw [hdate]
  simp only [toDay, Nat.add_sub_cancel_left, Nat.add_sub_cancel]
  exact ⟨⟨by omega, by omega, by omega, hj⟩, by omega⟩

theorem toDay_ofDay (day : Int) : (ofDay day).toDay = day := (ofDay_spec day).2

theorem ofDay_month_lt (day : Int) : (ofDay day).month < 100 := by
  have := (ofDay_spec day).1
  omega

theorem getD_monthLengths_le (leap : Bool) (i : Nat) : (monthLengths leap).getD i 0 ≤ 31 := by
  have hall : ∀ length ∈ monthLengths leap, length ≤ 31 := by cases leap <;> decide
  rw [List.getD_eq_getElem?_getD]
  cases h : (monthLengths leap)[i]? with
  | none => simp
  | some length => exact hall length (List.mem_of_getElem? h)

theorem ofDay_day_lt (day : Int) : (ofDay day).day < 100 := by
  have h := (ofDay_spec day).1.2.2.2
  have := getD_monthLengths_le (isLeap (ofDay day).year) ((ofDay day).month - 1)
  omega

/-- The days of the years that are kept. -/
def IsKept (day : Int) : Prop :=
  daysBeforeYear firstYear ≤ day ∧ day < daysBeforeYear (lastYear + 1)

theorem isValid_ofDay {day : Int} (h : IsKept day) : (ofDay day).IsValid := by
  obtain ⟨hlow, hhigh⟩ := yearOf_spec day
  refine ⟨?_, ?_, (ofDay_spec day).1⟩
  · rw [ofDay_year]
    apply Int.not_lt.mp
    intro hlt
    have := daysBeforeYear_mono (Int.add_one_le_of_lt hlt)
    have := h.1
    omega
  · rw [ofDay_year]
    apply Int.not_lt.mp
    intro hlt
    have := daysBeforeYear_mono (Int.add_one_le_of_lt hlt)
    have := h.2
    omega

/-- A date lies in its year. -/
theorem toDay_bounds {d : Date} (h : d.IsValid) :
    daysBeforeYear d.year ≤ d.toDay ∧ d.toDay < daysBeforeYear (d.year + 1) := by
  obtain ⟨-, -, -, -, hday, hlength⟩ := h
  have hsum := sum_take_add_getD_le (monthLengths (isLeap d.year)) (d.month - 1)
  rw [daysBeforeYear_succ]
  unfold toDay
  omega

theorem isKept_toDay {d : Date} (h : d.IsValid) : IsKept d.toDay := by
  obtain ⟨hlow, hhigh⟩ := toDay_bounds h
  have := daysBeforeYear_mono h.1
  have := daysBeforeYear_mono (Int.add_le_add_right h.2.1 1)
  exact ⟨by omega, by omega⟩

end Date
end TypedCollections
