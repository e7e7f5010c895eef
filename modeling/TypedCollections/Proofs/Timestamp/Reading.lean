import TypedCollections.Proofs.Timestamp.RoundTrip

/-!
Every instant that is read is regular, so a timestamp that was read once, is written and read again
is the same but for what lies below a millisecond, and has the same text from then on.
-/

namespace TypedCollections

namespace Timestamp

open Calendar (daysBeforeYear)
open Instant (nanosPerSecond secondsPerDay)

theorem ofDigitChars_lt {ds : List Char} (hd : ∀ c ∈ ds, c.isDigit) :
    Nat.ofDigitChars 10 ds 0 < 10 ^ ds.length := by
  induction ds with
  | nil => simp
  | cons c rest ih =>
    have hc : c.toNat - '0'.toNat ≤ 9 := by
      have hb : 48 ≤ c.toNat ∧ c.toNat ≤ 57 := by
        simpa [Char.isDigit, UInt32.le_iff_toNat_le] using hd c (by simp)
      have h0 : '0'.toNat = 48 := rfl
      omega
    have hrest := ih fun b hb => hd b (List.mem_cons_of_mem _ hb)
    rw [Nat.ofDigitChars_cons, Nat.ofDigitChars_eq_ofDigitChars_zero, List.length_cons,
      Nat.pow_succ, Nat.mul_zero, Nat.zero_add]
    have hmul := Nat.mul_le_mul_left (10 ^ rest.length) hc
    omega

/-- A number is less than the power of ten of the digits that were read. -/
theorem number?_lt {most n : Nat} {s rest : List Char} (h : number? most s = some (n, rest)) :
    s.length - rest.length ≤ most ∧ n < 10 ^ (s.length - rest.length) := by
  unfold number? at h
  simp only at h
  split at h
  · cases h
  · cases h
    have hsub : ((s.take most).takeWhile Char.isDigit).length ≤ (s.take most).length :=
      (List.takeWhile_sublist _).length_le
    have hdigits : ∀ c ∈ (s.take most).takeWhile Char.isDigit, c.isDigit :=
      fun c hc => by simpa using List.all_eq_true.mp List.all_takeWhile c hc
    have hlt := ofDigitChars_lt hdigits
    rw [List.length_take] at hsub
    rw [List.length_drop]
    have hlen : s.length - (s.length - ((s.take most).takeWhile Char.isDigit).length) =
        ((s.take most).takeWhile Char.isDigit).length := by omega
    rw [hlen]
    exact ⟨by omega, hlt⟩

theorem exactly?_lt {count n : Nat} {s rest : List Char} (h : exactly? count s = some (n, rest)) :
    n < 10 ^ count := by
  unfold exactly? at h
  split at h
  · obtain ⟨hl, hn⟩ := number?_lt h
    exact Nat.lt_of_lt_of_le hn (Nat.pow_le_pow_right (by decide) hl)
  · cases h

theorem fraction?_lt {nano : Nat} {s rest : List Char} (h : fraction? s = some (nano, rest)) :
    nano < nanosPerSecond := by
  unfold fraction? at h
  split at h
  · next s =>
    obtain ⟨⟨n, r⟩, hn, heq⟩ := Option.map_eq_some_iff.mp h
    cases heq
    obtain ⟨hl, hlt⟩ := number?_lt hn
    have hpow : 10 ^ (s.length - r.length) * 10 ^ (9 - (s.length - r.length)) = nanosPerSecond := by
      rw [← Nat.pow_add, Nat.add_sub_cancel' hl]
      rfl
    rw [← hpow]
    exact Nat.mul_lt_mul_of_pos_right hlt (Nat.pow_pos (by decide))
  · cases h
    decide

/-- An instant lies in the year of its date. -/
theorem instant?_spec {date : Date} {hour minute second nano : Nat} {i : Instant}
    (h : instant? date hour minute second nano = some i) (hn : nano < nanosPerSecond) :
    i.IsRegular ∧ daysBeforeYear date.year ≤ i.day ∧ i.day < daysBeforeYear (date.year + 1) := by
  unfold instant? at h
  split at h
  · next hin =>
    obtain ⟨hvalid, hhour, hminute, hsecond⟩ := hin
    obtain ⟨hlow, hhigh⟩ := Date.toDay_bounds hvalid
    simp only [nanosPerSecond] at hn
    split at h
    next second' nano' heq =>
    cases h
    refine ⟨⟨Date.isKept_toDay hvalid, ?_, ?_, ?_⟩, hlow, hhigh⟩
    all_goals
      simp only [secondsPerDay, nanosPerSecond] at *
      split at heq <;> cases heq <;> omega
  · cases h

/-- A zone is ahead or behind by less than a day, in whole minutes. -/
theorem offset?_spec {s : List Char} {offset : Int} (h : offset? s = some offset) :
    offset % 60 = 0 ∧ -86400 < offset ∧ offset < 86400 := by
  unfold offset? at h
  split at h
  · cases h
    decide
  · cases h
    decide
  · simp only [Option.bind_eq_bind, Option.bind_eq_some_iff] at h
    obtain ⟨⟨hours, s⟩, -, s', -, ⟨minutes, rest⟩, -, ⟨⟩, hguard, h⟩ := h
    simp only [guard] at hguard
    split at hguard
    · next hin =>
      obtain ⟨-, hhours, hminutes⟩ := hin
      split at h
      · cases h
        omega
      · split at h
        · cases h
          omega
        · cases h
    · cases hguard
  · cases h

/-- A shift by whole minutes moves an instant by one day at most, and keeps the end of a minute. -/
theorem isRegular_earlier {i : Instant} (h : i.IsRegular) {offset : Int}
    (hlow : daysBeforeYear 0 ≤ i.day) (hhigh : i.day < daysBeforeYear 10000)
    (ho : offset % 60 = 0 ∧ -86400 < offset ∧ offset < 86400) : (i.earlier offset).IsRegular := by
  have hsecond := h.second
  have hleap := h.leap
  have hfirst : daysBeforeYear Date.firstYear + 1 ≤ daysBeforeYear 0 := by decide
  have hlast : daysBeforeYear 10000 + 1 ≤ daysBeforeYear (Date.lastYear + 1) := by decide
  simp only [secondsPerDay] at hsecond
  simp only [Instant.earlier, secondsPerDay]
  refine ⟨⟨?_, ?_⟩, ?_, h.nanosecond, ?_⟩
  · simp only
    omega
  · simp only
    omega
  · simp only [secondsPerDay]
    omega
  · intro hn
    have := hleap hn
    simp only
    omega

theorem isRegular_of_standard? {s : List Char} {i : Instant} (h : standard? s = some i) :
    i.IsRegular := by
  -- only the digits of the year, the fraction and the offset bound the instant further
  obtain ⟨⟨year, s⟩, hyear, h⟩ := Option.bind_eq_some_iff.mp h
  obtain ⟨s, -, h⟩ := Option.bind_eq_some_iff.mp h
  obtain ⟨⟨month, s⟩, -, h⟩ := Option.bind_eq_some_iff.mp h
  obtain ⟨s, -, h⟩ := Option.bind_eq_some_iff.mp h
  obtain ⟨⟨day, s⟩, -, h⟩ := Option.bind_eq_some_iff.mp h
  obtain ⟨s, -, h⟩ := Option.bind_eq_some_iff.mp h
  obtain ⟨⟨hour, s⟩, -, h⟩ := Option.bind_eq_some_iff.mp h
  obtain ⟨s, -, h⟩ := Option.bind_eq_some_iff.mp h
  obtain ⟨⟨minute, s⟩, -, h⟩ := Option.bind_eq_some_iff.mp h
  obtain ⟨s, -, h⟩ := Option.bind_eq_some_iff.mp h
  obtain ⟨⟨second, s⟩, -, h⟩ := Option.bind_eq_some_iff.mp h
  obtain ⟨⟨nano, s⟩, hnano, h⟩ := Option.bind_eq_some_iff.mp h
  obtain ⟨offset, hoffset, h⟩ := Option.bind_eq_some_iff.mp h
  obtain ⟨instant, hinstant, h⟩ := Option.bind_eq_some_iff.mp h
  cases h
  obtain ⟨hregular, hlow, hhigh⟩ := instant?_spec hinstant (fraction?_lt hnano)
  have hyear : year ≤ 9999 := Nat.le_of_lt_succ (exactly?_lt hyear)
  have hzero := Calendar.daysBeforeYear_mono (Int.natCast_nonneg year)
  have hnines := Calendar.daysBeforeYear_mono (a := year + 1) (b := 10000) (by omega)
  exact isRegular_earlier hregular (Int.le_trans hzero hlow) (Int.lt_of_lt_of_le hhigh hnines)
    (offset?_spec hoffset)

theorem isRegular_of_stored? {s : List Char} {i : Instant} (h : stored? s = some i) :
    i.IsRegular := by
  obtain ⟨⟨year, s⟩, -, h⟩ := Option.bind_eq_some_iff.mp h
  obtain ⟨s, -, h⟩ := Option.bind_eq_some_iff.mp h
  obtain ⟨⟨month, s⟩, -, h⟩ := Option.bind_eq_some_iff.mp h
  obtain ⟨s, -, h⟩ := Option.bind_eq_some_iff.mp h
  obtain ⟨⟨day, s⟩, -, h⟩ := Option.bind_eq_some_iff.mp h
  obtain ⟨⟨hour, s⟩, -, h⟩ := Option.bind_eq_some_iff.mp h
  obtain ⟨s, -, h⟩ := Option.bind_eq_some_iff.mp h
  obtain ⟨⟨minute, s⟩, -, h⟩ := Option.bind_eq_some_iff.mp h
  obtain ⟨s, -, h⟩ := Option.bind_eq_some_iff.mp h
  obtain ⟨⟨second, s⟩, -, h⟩ := Option.bind_eq_some_iff.mp h
  obtain ⟨⟨nano, s⟩, hnano, h⟩ := Option.bind_eq_some_iff.mp h
  obtain ⟨-, -, hinstant⟩ := Option.bind_eq_some_iff.mp h
  exact (instant?_spec hinstant (fraction?_lt hnano)).1

/-- The timestamp at its millisecond. -/
def truncated : Timestamp → Timestamp
  | unset => unset
  | .at i => .at i.truncated

@[simp] theorem isUnset_truncated (t : Timestamp) : t.truncated.isUnset = t.isUnset := by
  cases t <;> rfl

@[simp] theorem text_truncated (t : Timestamp) : t.truncated.text = t.text := by
  cases t with
  | unset => rfl
  | «at» i => exact congrArg String.ofList i.chars_truncated

/-- The text of a timestamp that was read reads as the timestamp at its millisecond. -/
theorem read?_text_of_read? {s : String} {t : Timestamp} (h : read? s = some t) :
    read? t.text = some t.truncated := by
  unfold read? at h
  simp only at h
  split at h
  · cases h
    rfl
  · obtain ⟨i, hi, rfl⟩ := Option.map_eq_some_iff.mp h
    have hregular : i.IsRegular := by
      rcases Option.or_eq_some_iff.mp hi with h | ⟨-, h⟩
      · exact isRegular_of_standard? h
      · exact isRegular_of_stored? h
    exact read?_chars hregular

end Timestamp
end TypedCollections
