import Mathlib.Data.List.Basic
import Mathlib.Data.Option.Basic
import TypedCollections.Proofs.Text.Blank
import TypedCollections.Proofs.Text.Digits
import TypedCollections.Proofs.Timestamp.Digits

/-!
The texts that are read as timestamps. They have one layout in three variants: the one of the
internet standard, the one that the store writes, and the lenient one in which the store's is read.
-/

namespace TypedCollections.Timestamp

open Text (AllBlank AllDigits NoDigit isBlank noDigit_cons)

/-! ## The layouts -/

/-- A number of so many digits. -/
def IsFixed (count : ℕ) (s : List Char) (n : ℕ) : Prop :=
  AllDigits s ∧ s.length = count ∧ n = Nat.ofDigitChars 10 s 0

/-- A number of one or two digits, with white space before it. -/
inductive IsShort : List Char → ℕ → Prop
  | mk {blank ds} : AllBlank blank → AllDigits ds → ds ≠ [] → ds.length ≤ 2 →
      IsShort (blank ++ ds) (Nat.ofDigitChars 10 ds 0)

/-- A number of exactly two digits, with white space before it. -/
def HasTwoDigits (part : List Char) : Prop :=
  ∃ blank ds n, AllBlank blank ∧ IsFixed 2 ds n ∧ part = blank ++ ds

/-- A year of at most four digits, or of any number of them behind a sign. -/
inductive IsYear : List Char → ℤ → Prop
  | bare {ds} : AllDigits ds → ds ≠ [] → ds.length ≤ 4 → IsYear ds (Nat.ofDigitChars 10 ds 0)
  | ahead {ds} : AllDigits ds → ds ≠ [] → IsYear ('+' :: ds) (Nat.ofDigitChars 10 ds 0)
  | behind {ds} : AllDigits ds → ds ≠ [] → IsYear ('-' :: ds) (-Nat.ofDigitChars 10 ds 0)

def IsFraction (s : List Char) : Prop :=
  s = [] ∨ ∃ ds, AllDigits ds ∧ ds ≠ [] ∧ s = '.' :: ds

inductive IsOffset : List Char → Prop
  | zulu {z} : z ∈ ['Z', 'z'] → IsOffset [z]
  | shift {sign hours minutes h m} : sign ∈ ['+', '-', '\u2212'] → IsFixed 2 hours h → h ≤ 23 →
      IsFixed 2 minutes m → m ≤ 59 → IsOffset (sign :: (hours ++ ':' :: minutes))

/-- A day of the calendar and a time of day. A minute may have a leap second. -/
structure IsReal (year : ℤ) (month day hour minute second : ℕ) : Prop where
  date : Date.IsValid ⟨year, month, day⟩
  hour : hour ≤ 23
  minute : minute ≤ 59
  second : second ≤ 60

/-- A date and a time of day. The variants differ in how a year and the other numbers are written,
what may stand between a day and an hour, and what may follow. -/
inductive IsLayout (isYear : List Char → ℤ → Prop) (isPart : List Char → ℕ → Prop)
    (isGap : List Char → List Char → Prop) (isTail : List Char → Prop) : List Char → Prop
  | mk {year month day gap hour minute second tail y mo d h mi s} :
      isYear year y → isPart month mo → isPart day d → isGap day gap → isPart hour h →
      isPart minute mi → isPart second s → isTail tail → IsReal y mo d h mi s →
      IsLayout isYear isPart isGap isTail (year ++ '-' :: (month ++ '-' :: (day ++ (gap ++
        (hour ++ ':' :: (minute ++ ':' :: (second ++ tail)))))))

def IsFixedYear (s : List Char) (y : ℤ) : Prop := ∃ n : ℕ, IsFixed 4 s n ∧ y = n

/-- A timestamp of the internet standard. -/
def IsStandard : List Char → Prop :=
  IsLayout IsFixedYear (IsFixed 2) (fun _ gap => gap ∈ [['T'], ['t'], [' ']])
    fun tail => ∃ fraction offset, IsFraction fraction ∧ IsOffset offset ∧ tail = fraction ++ offset

/-- The layout of the store: one space, at most one fraction and at most one `Z`. -/
def IsStored : List Char → Prop :=
  IsLayout IsFixedYear (IsFixed 2) (fun _ gap => gap = [' '])
    fun tail => ∃ fraction z, IsFraction fraction ∧ z ∈ [[], ['Z']] ∧ tail = fraction ++ z

/-- The layout of the store as it is read: numbers may be short and have white space before them, a
year may have a sign, and any number of `Z`s may follow. An hour stands right behind a day only if
the day has two digits. -/
def IsLenient : List Char → Prop :=
  IsLayout IsYear IsShort
    (fun day gap => AllBlank gap ∧ (gap = [] → HasTwoDigits day))
    fun tail => ∃ fraction count, IsFraction fraction ∧ tail = fraction ++ List.replicate count 'Z'

variable {s rest : List Char}

/-! ## The readers of single parts -/

/-- A number ends where the most digits are taken that may be, or where there are no more. -/
theorem number?_spec {most n : ℕ} (h : number? most s = some (n, rest)) :
    ∃ ds, AllDigits ds ∧ ds ≠ [] ∧ ds.length ≤ most ∧ n = Nat.ofDigitChars 10 ds 0 ∧
      s = ds ++ rest ∧ (ds.length = most ∨ NoDigit rest) := by
  unfold number? at h
  rw [Option.ite_none_left_eq_some] at h
  obtain ⟨hne, h⟩ := h
  obtain ⟨rfl, rfl⟩ := Prod.mk.inj (Option.some.inj h)
  set ds := (s.take most).takeWhile Char.isDigit with hds
  set more := (s.take most).dropWhile Char.isDigit with hmore
  have htake : s.take most = ds ++ more := List.takeWhile_append_dropWhile.symm
  have hs : s = ds ++ (more ++ s.drop most) := by
    rw [← List.append_assoc, ← htake, List.take_append_drop]
  have hrest : s.drop ds.length = more ++ s.drop most := by
    conv_lhs => rw [hs, List.drop_left]
  have hlength : ds.length + more.length = min most s.length := by
    rw [← List.length_append, ← htake, List.length_take]
  refine ⟨ds, Text.allDigits_takeWhile _, hne, by omega, rfl, hrest ▸ hs, ?_⟩
  rw [hrest]
  cases hcase : more with
  | nil =>
    rw [hcase, List.length_nil] at hlength
    by_cases hshort : ds.length = most
    · exact .inl hshort
    · rw [List.drop_eq_nil_of_le (by omega)]
      exact .inr Text.noDigit_nil
  | cons c more =>
    have hfirst := Text.noDigit_dropWhile (s.take most)
    rw [← hmore, hcase] at hfirst
    exact .inr (noDigit_cons (hfirst c rfl) _)

theorem exactly?_eq_some_iff {count n : ℕ} (hcount : 0 < count) :
    exactly? count s = some (n, rest) ↔ ∃ ds, IsFixed count ds n ∧ s = ds ++ rest := by
  constructor
  · intro h
    unfold exactly? at h
    rw [Option.ite_none_right_eq_some] at h
    obtain ⟨⟨hlength, hdigits⟩, h⟩ := h
    have hd : AllDigits (s.take count) := List.all_eq_true.mp hdigits
    have hne : s.take count ≠ [] := by
      rintro heq
      rw [heq] at hlength
      exact absurd hlength hcount.ne
    have hread : number? count (s.take count ++ s.drop count) =
        some (Nat.ofDigitChars 10 (s.take count) 0, s.drop count) :=
      number?_append hd hne hlength.le (.inl hlength)
    rw [List.take_append_drop, h] at hread
    obtain ⟨rfl, rfl⟩ := Prod.mk.inj (Option.some.inj hread)
    exact ⟨s.take count, ⟨hd, hlength, rfl⟩, (List.take_append_drop count s).symm⟩
  · rintro ⟨ds, ⟨hd, hlength, rfl⟩, rfl⟩
    have hne : ds ≠ [] := by
      rintro rfl
      exact absurd hlength hcount.ne
    exact exactly?_append hd hne hlength rest

theorem mark?_eq_some_iff {c : Char} : mark? c s = some rest ↔ s = c :: rest := by
  cases s with
  | nil => simp [mark?]
  | cons d s => simp [mark?]

theorem exists_instant?_iff {date : Date} {hour minute second nano : ℕ} :
    (∃ i, instant? date hour minute second nano = some i) ↔
      IsReal date.year date.month date.day hour minute second := by
  unfold instant?
  simp only [Option.ite_none_right_eq_some, exists_and_left, Option.some.injEq, exists_eq',
    and_true]
  exact ⟨fun ⟨hd, hh, hm, hs⟩ => ⟨hd, hh, hm, hs⟩, fun ⟨hd, hh, hm, hs⟩ => ⟨hd, hh, hm, hs⟩⟩

theorem fraction?_spec {nano : ℕ} (h : fraction? s = some (nano, rest)) :
    ∃ fraction, IsFraction fraction ∧ s = fraction ++ rest := by
  unfold fraction? at h
  split at h
  · next s =>
    obtain ⟨⟨n, r⟩, hn, h⟩ := Option.map_eq_some_iff.mp h
    obtain ⟨-, rfl⟩ := Prod.mk.inj h
    obtain ⟨ds, hd, hne, -, -, rfl, -⟩ := number?_spec hn
    refine ⟨'.' :: (ds ++ r.takeWhile Char.isDigit), .inr ⟨_, ?_, by simp [hne], rfl⟩, ?_⟩
    · exact List.forall_mem_append.mpr ⟨hd, Text.allDigits_takeWhile r⟩
    · rw [List.cons_append, List.append_assoc, List.takeWhile_append_dropWhile]
  · obtain ⟨-, rfl⟩ := Prod.mk.inj (Option.some.inj h)
    exact ⟨[], .inl rfl, rfl⟩

/-- A fraction is read whole in front of what is no part of one. -/
theorem exists_fraction? {fraction : List Char} (h : IsFraction fraction) (hr : NoDigit rest)
    (hpoint : ∀ c ∈ rest.head?, c ≠ '.') :
    ∃ nano, fraction? (fraction ++ rest) = some (nano, rest) := by
  rcases h with rfl | ⟨ds, hd, hne, rfl⟩
  · refine ⟨0, ?_⟩
    rw [List.nil_append]
    unfold fraction?
    split
    · exact absurd rfl (hpoint '.' rfl)
    · rfl
  · have hsplit : '.' :: ds ++ rest = '.' :: (ds.take 9 ++ (ds.drop 9 ++ rest)) := by
      rw [← List.append_assoc, List.take_append_drop, List.cons_append]
    have hstop : (ds.take 9).length = 9 ∨ NoDigit (ds.drop 9 ++ rest) := by
      by_cases hlength : 9 ≤ ds.length
      · exact .inl (List.length_take_of_le hlength)
      · rw [List.drop_eq_nil_of_le (by omega)]
        exact .inr hr
    have hread := number?_append (fun c hc => hd c (List.mem_of_mem_take hc))
      (by simp [hne]) (List.length_take_le 9 ds) hstop
    have hrest : (ds.drop 9 ++ rest).dropWhile Char.isDigit = rest :=
      Text.dropWhile_digits (fun c hc => hd c (List.mem_of_mem_drop hc)) hr
    rw [hsplit]
    unfold fraction?
    simp only [hread, Option.map_some, hrest]
    exact ⟨_, rfl⟩

theorem exists_bind_iff {α β : Type} {x : Option β} {f : β → Option α} :
    (∃ a, (x >>= f) = some a) ↔ ∃ b, x = some b ∧ ∃ a, f b = some a := by
  cases x <;> simp

theorem exists_signed_iff {sign : Char} {seconds : ℤ} :
    (∃ o, (if sign = '+' then some seconds
      else if sign = '-' ∨ sign = '\u2212' then some (-seconds) else none) = some o) ↔
      sign ∈ ['+', '-', '\u2212'] := by
  by_cases hplus : sign = '+'
  · simp [hplus]
  · simp [hplus]

theorem exists_offset?_iff : (∃ o, offset? s = some o) ↔ IsOffset s := by
  have htwo : 0 < 2 := by decide
  unfold offset?
  split
  · exact ⟨fun _ => .zulu (by simp), fun _ => ⟨0, rfl⟩⟩
  · exact ⟨fun _ => .zulu (by simp), fun _ => ⟨0, rfl⟩⟩
  · next sign s hupper hlower =>
    simp only [exists_bind_iff, Prod.exists, exactly?_eq_some_iff htwo, mark?_eq_some_iff,
      Option.guard_eq_some', exists_const, exists_signed_iff]
    constructor
    · rintro ⟨_, _, ⟨hours, hhours, rfl⟩, _, rfl, _, _, ⟨minutes, hminutes, rfl⟩, ⟨rfl, hh, hm⟩,
        hsign⟩
      rw [List.append_nil]
      exact .shift hsign hhours hh hminutes hm
    · intro h
      cases h with
      | zulu hz =>
        rcases List.mem_pair.mp hz with rfl | rfl
        · exact absurd rfl (hupper rfl)
        · exact absurd rfl (hlower rfl)
      | shift hsign hhours hh hminutes hm =>
        exact ⟨_, _, ⟨_, hhours, rfl⟩, _, rfl, _, _, ⟨_, hminutes, (List.append_nil _).symm⟩,
          ⟨rfl, hh, hm⟩, hsign⟩
  · constructor
    · rintro ⟨_, ⟨⟩⟩
    · rintro ⟨⟩

theorem short?_spec {n : ℕ} (h : short? s = some (n, rest)) :
    ∃ blank ds, AllBlank blank ∧ AllDigits ds ∧ ds ≠ [] ∧ ds.length ≤ 2 ∧
      n = Nat.ofDigitChars 10 ds 0 ∧ s = blank ++ (ds ++ rest) ∧
      (ds.length = 2 ∨ NoDigit rest) := by
  obtain ⟨ds, hd, hne, hlength, rfl, heq, hstop⟩ := number?_spec h
  refine ⟨s.takeWhile isBlank, ds, fun c hc => List.mem_takeWhile_imp hc, hd, hne, hlength, rfl, ?_,
    hstop⟩
  rw [← heq, List.takeWhile_append_dropWhile]

theorem exists_isShort {n : ℕ} (h : short? s = some (n, rest)) :
    ∃ part, IsShort part n ∧ s = part ++ rest := by
  obtain ⟨blank, ds, hb, hd, hne, hlength, rfl, rfl, -⟩ := short?_spec h
  exact ⟨blank ++ ds, .mk hb hd hne hlength, (List.append_assoc ..).symm⟩

theorem short?_append {part : List Char} {n : ℕ} (h : IsShort part n)
    (hstop : HasTwoDigits part ∨ NoDigit rest) : short? (part ++ rest) = some (n, rest) := by
  obtain ⟨hb, hd, hne, hlength⟩ := h
  rename_i blank ds
  have hfirst : ∀ ds : List Char, AllDigits ds → ∀ c ∈ ds.head?, isBlank c = false :=
    fun ds hd c hc => isBlank_of_isDigit (hd c (List.mem_of_mem_head? hc))
  have hstop : ds.length = 2 ∨ NoDigit rest := by
    refine hstop.imp_left ?_
    rintro ⟨blank', ds', -, hb', ⟨hd', hlength', -⟩, heq⟩
    have hdrop := congrArg (List.dropWhile isBlank) heq
    rw [Text.dropWhile_append hb (hfirst ds hd),
      Text.dropWhile_append hb' (hfirst ds' hd')] at hdrop
    rw [hdrop, hlength']
  have hnext : ∀ c ∈ (ds ++ rest).head?, isBlank c = false := by
    rw [List.head?_append_of_ne_nil _ hne]
    exact hfirst ds hd
  rw [short?, List.append_assoc, Text.dropWhile_append hb hnext]
  exact number?_append hd hne hlength hstop

theorem year?_spec {y : ℤ} (hs : ∀ c ∈ s.head?, isBlank c = false)
    (h : year? s = some (y, rest)) : ∃ year, IsYear year y ∧ s = year ++ rest := by
  have hdrop : s.dropWhile isBlank = s := Text.dropWhile_append Text.allBlank_nil hs
  unfold year? at h
  rw [hdrop] at h
  split at h <;> obtain ⟨⟨n, r⟩, hn, h⟩ := Option.map_eq_some_iff.mp h <;>
    obtain ⟨rfl, rfl⟩ := Prod.mk.inj h <;>
    obtain ⟨ds, hd, hne, hlength, rfl, rfl, -⟩ := number?_spec hn
  · exact ⟨'-' :: ds, .behind hd hne, rfl⟩
  · exact ⟨'+' :: ds, .ahead hd hne, rfl⟩
  · exact ⟨ds, .bare hd hne hlength, rfl⟩

theorem year?_append {year : List Char} {y : ℤ} (h : IsYear year y) (hr : NoDigit rest) :
    year? (year ++ rest) = some (y, rest) := by
  have hlong : ∀ ds : List Char, AllDigits ds → ds ≠ [] →
      number? (ds ++ rest).length (ds ++ rest) = some (Nat.ofDigitChars 10 ds 0, rest) := by
    intro ds hd hne
    exact number?_append hd hne (by simp) (.inr hr)
  cases h with
  | bare hd hne hlength =>
    obtain ⟨c, ds, rfl⟩ := List.exists_cons_of_ne_nil hne
    have hc := hd c List.mem_cons_self
    have hread := number?_append hd hne hlength (.inr hr)
    rw [year?, List.cons_append, List.dropWhile_cons_of_neg (by simp [isBlank_of_isDigit hc])]
    -- A digit is no sign.
    split
    · next heq =>
      rw [(List.cons.inj heq).1] at hc
      cases hc
    · next heq =>
      rw [(List.cons.inj heq).1] at hc
      cases hc
    · rw [← List.cons_append, hread]
      rfl
  | @ahead ds hd hne =>
    rw [year?, List.cons_append, List.dropWhile_cons_of_neg (by decide)]
    simp only [hlong ds hd hne, Option.map_some]
  | @behind ds hd hne =>
    rw [year?, List.cons_append, List.dropWhile_cons_of_neg (by decide)]
    simp only [hlong ds hd hne, Option.map_some]

/-! ## Whole timestamps -/

theorem IsOffset.first {offset : List Char} (h : IsOffset offset) :
    NoDigit offset ∧ ∀ c ∈ offset.head?, c ≠ '.' := by
  have hmarks : ∀ c ∈ ['Z', 'z', '+', '-', '\u2212'], c.isDigit = false ∧ c ≠ '.' := by simp
  obtain ⟨c, rest, rfl, hc⟩ : ∃ c rest, offset = c :: rest ∧
      c ∈ ['Z', 'z', '+', '-', '\u2212'] := by
    cases h with
    | @zulu z hz => exact ⟨z, [], rfl, List.mem_append_left ['+', '-', '\u2212'] hz⟩
    | @shift sign _ _ _ _ hsign _ _ _ _ =>
      exact ⟨sign, _, rfl, List.mem_append_right ['Z', 'z'] hsign⟩
  refine ⟨noDigit_cons (hmarks c hc).1 rest, ?_⟩
  rintro d ⟨⟩
  exact (hmarks c hc).2

theorem separator_eq_some_iff :
    (mark? 'T' s).or ((mark? 't' s).or (mark? ' ' s)) = some rest ↔
      ∃ gap ∈ [['T'], ['t'], [' ']], s = gap ++ rest := by
  cases s with
  | nil => simp [mark?]
  | cons c s =>
    simp only [mark?]
    by_cases hupper : c = 'T'
    · simp [hupper, eq_comm]
    · by_cases hlower : c = 't'
      · simp [hlower, eq_comm]
      · by_cases hspace : c = ' '
        · simp [hspace, eq_comm]
        · simp [hupper, hlower, hspace]

/-- A timestamp of the internet standard is read part by part, each where the one before it ends. -/
theorem exists_standard?_iff : (∃ i, standard? s = some i) ↔ IsStandard s := by
  have hfour : 0 < 4 := by decide
  have htwo : 0 < 2 := by decide
  unfold standard?
  simp only [exists_bind_iff, Prod.exists, exactly?_eq_some_iff hfour, exactly?_eq_some_iff htwo,
    mark?_eq_some_iff, separator_eq_some_iff, Option.pure_def, Option.some.injEq, exists_eq',
    and_true, exists_instant?_iff, exists_and_right, exists_offset?_iff]
  constructor
  · rintro ⟨_, _, ⟨year, hyear, rfl⟩, _, rfl, _, _, ⟨month, hmonth, rfl⟩, _, rfl, _, _,
      ⟨day, hday, rfl⟩, _, ⟨gap, hgap, rfl⟩, _, _, ⟨hour, hhour, rfl⟩, _, rfl, _, _,
      ⟨minute, hminute, rfl⟩, _, rfl, _, _, ⟨second, hsecond, rfl⟩, nano, offset, hnano, hoffset,
      hreal⟩
    obtain ⟨fraction, hfraction, rfl⟩ := fraction?_spec hnano
    exact .mk ⟨_, hyear, rfl⟩ hmonth hday hgap hhour hminute hsecond
      ⟨fraction, offset, hfraction, hoffset, rfl⟩ hreal
  · rintro ⟨⟨year, hyear, rfl⟩, hmonth, hday, hgap, hhour, hminute, hsecond,
      ⟨fraction, offset, hfraction, hoffset, rfl⟩, hreal⟩
    obtain ⟨nano, hnano⟩ := exists_fraction? hfraction hoffset.first.1 hoffset.first.2
    exact ⟨year, _, ⟨_, hyear, rfl⟩, _, rfl, _, _, ⟨_, hmonth, rfl⟩, _, rfl, _, _, ⟨_, hday, rfl⟩,
      _, ⟨_, hgap, rfl⟩, _, _, ⟨_, hhour, rfl⟩, _, rfl, _, _, ⟨_, hminute, rfl⟩, _, rfl, _, _,
      ⟨_, hsecond, rfl⟩, nano, offset, hnano, hoffset, hreal⟩

/-- What is left of a text without the `Z`s at its end. -/
def withoutZ (s : List Char) : List Char := (s.reverse.dropWhile (· == 'Z')).reverse

theorem exists_withoutZ (s : List Char) : ∃ count, s = withoutZ s ++ List.replicate count 'Z' := by
  have hall : ∀ c ∈ s.reverse.takeWhile (· == 'Z'), c = 'Z' :=
    fun c hc => by simpa using List.mem_takeWhile_imp hc
  refine ⟨(s.reverse.takeWhile (· == 'Z')).length, ?_⟩
  rw [← List.reverse_replicate, ← List.eq_replicate_of_mem hall, withoutZ, ← List.reverse_append,
    List.takeWhile_append_dropWhile, List.reverse_reverse]

theorem withoutZ_append {c : Char} (hc : c ≠ 'Z') (front : List Char) (count : ℕ) :
    withoutZ (front ++ [c] ++ List.replicate count 'Z') = front ++ [c] := by
  have hlast : ∀ d ∈ List.replicate count 'Z', (d == 'Z') = true := by simp
  rw [withoutZ, List.reverse_append, List.reverse_replicate, List.dropWhile_append_of_pos hlast,
    List.reverse_append]
  simp [hc]

/-- The seconds and their fraction end with a digit. -/
theorem exists_last_digit {second fraction : List Char} {n : ℕ} (hs : IsShort second n)
    (hf : IsFraction fraction) : ∃ front c, second ++ fraction = front ++ [c] ∧ c.isDigit := by
  have hlast : ∀ ds : List Char, AllDigits ds → ds ≠ [] →
      ∃ front c, ds = front ++ [c] ∧ c.isDigit := by
    intro ds hd hne
    exact ⟨ds.dropLast, ds.getLast hne, (List.dropLast_append_getLast hne).symm,
      hd _ (List.getLast_mem hne)⟩
  rcases hf with rfl | ⟨ds, hd, hne, rfl⟩
  · obtain ⟨-, hd, hne, -⟩ := hs
    rename_i blank ds
    obtain ⟨front, c, rfl, hc⟩ := hlast ds hd hne
    exact ⟨blank ++ front, c, by simp, hc⟩
  · obtain ⟨front, c, rfl, hc⟩ := hlast ds hd hne
    exact ⟨second ++ '.' :: front, c, by simp, hc⟩

theorem IsFraction.noDigit {fraction : List Char} (h : IsFraction fraction) : NoDigit fraction := by
  rcases h with rfl | ⟨ds, -, -, rfl⟩
  · exact Text.noDigit_nil
  · exact noDigit_cons rfl ds

theorem short?_blank_append {blank : List Char} (hb : AllBlank blank) (rest : List Char) :
    short? (blank ++ rest) = short? rest :=
  congrArg (number? 2) (List.dropWhile_append_of_pos hb)

theorem not_isDigit_of_isBlank {c : Char} (h : isBlank c) : c.isDigit = false := by
  by_contra hdigit
  rw [isBlank_of_isDigit (by simpa using hdigit)] at h
  cases h

/-- A day ends where an hour begins right behind it, so it has all the digits that it may have. -/
theorem hasTwoDigits_of_stop {blank ds hour : List Char} (hb : AllBlank blank) (hd : AllDigits ds)
    (hne : hour ≠ []) (hhour : AllDigits hour) {rest : List Char}
    (hstop : ds.length = 2 ∨ NoDigit (hour ++ rest)) : HasTwoDigits (blank ++ ds) := by
  obtain ⟨c, more, rfl⟩ := List.exists_cons_of_ne_nil hne
  have hc := hhour c List.mem_cons_self
  refine ⟨blank, ds, _, hb, ⟨hd, hstop.resolve_right fun hno => ?_, rfl⟩, rfl⟩
  rw [hno c rfl] at hc
  cases hc

/-- The `Z`s are behind the last digit of the layout. -/
theorem withoutZ_layout {second fraction : List Char} {n : ℕ} (hs : IsShort second n)
    (hf : IsFraction fraction) (front : List Char) (count : ℕ) :
    withoutZ (front ++ (second ++ (fraction ++ List.replicate count 'Z'))) =
      front ++ (second ++ fraction) := by
  obtain ⟨inner, c, hlast, hc⟩ := exists_last_digit hs hf
  have hz : c ≠ 'Z' := by
    rintro rfl
    cases hc
  rw [← List.append_assoc second, hlast, ← List.append_assoc, ← List.append_assoc,
    withoutZ_append hz]

/-- A timestamp of the store is read part by part. A number takes the digits that it may have, so
that where a part ends depends on what follows. -/
theorem exists_stored?_iff (hfirst : ∀ c ∈ s.head?, isBlank c = false) :
    (∃ i, stored? s = some i) ↔ IsLenient s := by
  have hcut : (s.reverse.dropWhile (· == 'Z')).reverse = withoutZ s := rfl
  unfold stored?
  simp only [exists_bind_iff, Prod.exists, mark?_eq_some_iff, Option.guard_eq_some', exists_const,
    exists_instant?_iff, hcut]
  constructor
  · obtain ⟨count, hz⟩ := exists_withoutZ s
    rw [hz, List.head?_append] at hfirst
    rintro ⟨y, _, hyear, _, rfl, mo, _, hmonth, _, rfl, d, _, hday, h, _, hhour, _, rfl, mi, _,
      hminute, _, rfl, sec, _, hsecond, nano, _, hnano, rfl, hreal⟩
    have hfirst : ∀ c ∈ (withoutZ s).head?, isBlank c = false := by
      intro c hc
      rw [Option.mem_def.mp hc] at hfirst
      exact hfirst c rfl
    obtain ⟨year, hys, hyear⟩ := year?_spec hfirst hyear
    obtain ⟨month, hmos, rfl⟩ := exists_isShort hmonth
    obtain ⟨blank, ds, hb, hd, hne, hlength, rfl, rfl, hstop⟩ := short?_spec hday
    obtain ⟨gap, hour, hgap, hdigits, hne', hlength', rfl, rfl, -⟩ := short?_spec hhour
    obtain ⟨minute, hms, rfl⟩ := exists_isShort hminute
    obtain ⟨second, hss, rfl⟩ := exists_isShort hsecond
    obtain ⟨fraction, hfraction, rfl⟩ := fraction?_spec hnano
    have htwo : gap = [] → HasTwoDigits (blank ++ ds) := by
      rintro rfl
      exact hasTwoDigits_of_stop hb hd hne' hdigits hstop
    have hlayout : IsLenient _ := .mk hys hmos (.mk hb hd hne hlength) ⟨hgap, htwo⟩
      (.mk Text.allBlank_nil hdigits hne' hlength') hms hss ⟨fraction, count, hfraction, rfl⟩ hreal
    rw [hz, hyear]
    simpa only [List.append_assoc, List.cons_append, List.append_nil, List.nil_append] using hlayout
  · rintro ⟨hyear, hmonth, hday, ⟨hgap, htwo⟩, hhour, hminute, hsecond,
      ⟨fraction, count, hfraction, rfl⟩, hreal⟩
    rename_i year month day gap hour minute second y mo d h mi s
    obtain ⟨nano, hnano⟩ := exists_fraction? hfraction Text.noDigit_nil (by simp)
    have hwithout := withoutZ_layout hsecond hfraction
      (year ++ '-' :: (month ++ '-' :: (day ++ (gap ++ (hour ++ ':' :: (minute ++ [':'])))))) count
    have hdayEnd : HasTwoDigits day ∨ NoDigit (gap ++ (hour ++ ':' :: (minute ++ ':' ::
        (second ++ fraction)))) := by
      cases gap with
      | nil => exact .inl (htwo rfl)
      | cons c gap =>
        exact .inr (noDigit_cons (not_isDigit_of_isBlank (hgap c List.mem_cons_self)) _)
    rw [List.append_nil] at hnano
    simp only [List.append_assoc, List.cons_append, List.nil_append] at hwithout
    rw [hwithout]
    exact ⟨y, _, year?_append hyear (noDigit_cons rfl _), _, rfl,
      mo, _, short?_append hmonth (.inr (noDigit_cons rfl _)), _, rfl,
      d, _, short?_append hday hdayEnd,
      h, _, (short?_blank_append hgap _).trans (short?_append hhour (.inr (noDigit_cons rfl _))), _,
      rfl,
      mi, _, short?_append hminute (.inr (noDigit_cons rfl _)), _, rfl,
      _, _, short?_append hsecond (.inr hfraction.noDigit), nano, _, hnano, rfl, hreal⟩

/-! ## Acceptance -/

theorem IsFixed.isShort {count n : ℕ} {part : List Char} (h : IsFixed count part n)
    (hc : 0 < count) (hl : count ≤ 2) : IsShort part n := by
  obtain ⟨hd, rfl, rfl⟩ := h
  simpa using IsShort.mk Text.allBlank_nil hd (List.length_pos_iff.mp hc) hl

/-- The layout that the store writes is one that is read. -/
theorem IsStored.isLenient {s : List Char} (h : IsStored s) : IsLenient s := by
  obtain ⟨⟨n, ⟨hd, hlength, rfl⟩, rfl⟩, hmonth, hday, rfl, hhour, hminute, hsecond,
    ⟨fraction, z, hfraction, hz, rfl⟩, hreal⟩ := h
  have hyear : IsYear _ _ := .bare hd (List.length_pos_iff.mp (by omega)) hlength.le
  have hgap : AllBlank [' '] := by simp [AllBlank, isBlank]
  have hcount : ∃ count, z = List.replicate count 'Z' := by
    rcases List.mem_pair.mp hz with rfl | rfl
    · exact ⟨0, rfl⟩
    · exact ⟨1, rfl⟩
  obtain ⟨count, rfl⟩ := hcount
  have hshort : ∀ {part n}, IsFixed 2 part n → IsShort part n :=
    fun h => h.isShort (by decide) (by decide)
  have hspace : [' '] ≠ [] := List.cons_ne_nil _ _
  exact .mk hyear (hshort hmonth) (hshort hday) ⟨hgap, fun hnil => absurd hnil hspace⟩
    (hshort hhour) (hshort hminute) (hshort hsecond) ⟨fraction, count, hfraction, rfl⟩ hreal

/-- A text is read exactly if, without the white space around it, it is empty, a timestamp of the
internet standard, or one in the lenient layout. The layout that the store writes is among them. -/
theorem isSome_read?_iff (text : String) :
    ((read? text).isSome ↔
        Text.trim text.toList = [] ∨ IsStandard (Text.trim text.toList) ∨
          IsLenient (Text.trim text.toList)) ∧
      (IsStored (Text.trim text.toList) → (read? text).isSome) := by
  obtain ⟨-, -, -, -, htrimmed, -⟩ := Text.exists_trim text.toList
  have hiff : (read? text).isSome ↔ Text.trim text.toList = [] ∨
      IsStandard (Text.trim text.toList) ∨ IsLenient (Text.trim text.toList) := by
    rw [← exists_standard?_iff, ← exists_stored?_iff htrimmed.first, read?]
    by_cases hempty : Text.trim text.toList = []
    · simp [hempty]
    · simp [hempty, Option.isSome_iff_exists]
  exact ⟨hiff, fun h => hiff.mpr (.inr (.inr h.isLenient))⟩

instance (count : ℕ) (s : List Char) (n : ℕ) : Decidable (IsFixed count s n) :=
  inferInstanceAs (Decidable (_ ∧ _ ∧ _))

/-- A leap day and a leap second as the store writes them, between white space. -/
theorem isSome_read?_leapSecond :
    IsStored (Text.trim "\t2024-02-29 23:59:60.125Z\n".toList) ∧
      (read? "\t2024-02-29 23:59:60.125Z\n").isSome := by
  have hreal : IsReal 2024 2 29 23 59 60 := by constructor <;> decide
  have hfraction : IsFraction ".125".toList := .inr ⟨"125".toList, by decide, by decide, rfl⟩
  have hstored : IsStored (Text.trim "\t2024-02-29 23:59:60.125Z\n".toList) :=
    @IsLayout.mk _ _ _ _ "2024".toList "02".toList "29".toList [' '] "23".toList "59".toList
      "60".toList ".125Z".toList 2024 2 29 23 59 60 ⟨2024, by decide, rfl⟩ (by decide) (by decide)
      rfl (by decide) (by decide) (by decide) ⟨_, ['Z'], hfraction, by decide, rfl⟩ hreal
  exact ⟨hstored, (isSome_read?_iff _).2 hstored⟩

/-- No digit is a `Z`, so the layout of the store has one at most. -/
theorem IsStored.count_le {s : List Char} (h : IsStored s) : s.count 'Z' ≤ 1 := by
  have hdigits : ∀ ds : List Char, AllDigits ds → ds.count 'Z' = 0 :=
    fun ds hd => List.count_eq_zero.mpr fun hz => absurd (hd 'Z' hz) (by decide)
  obtain ⟨⟨n, hyear, -⟩, hmonth, hday, rfl, hhour, hminute, hsecond,
    ⟨fraction, z, hfraction, hz, rfl⟩, -⟩ := h
  have hfraction : fraction.count 'Z' = 0 := by
    rcases hfraction with rfl | ⟨ds, hd, -, rfl⟩
    · rfl
    · simp [hdigits ds hd]
  have hz : z.count 'Z' ≤ 1 := by
    rcases List.mem_pair.mp hz with rfl | rfl <;> decide
  simpa [List.count_append, List.count_cons, hdigits _ hyear.1, hdigits _ hmonth.1,
    hdigits _ hday.1, hdigits _ hhour.1, hdigits _ hminute.1, hdigits _ hsecond.1, hfraction]
    using hz

/-- Four `Z`s are read, which neither layout has. -/
theorem isSome_read?_repeatedZ :
    (read? "2024-03-05 10:20:30ZZZZ").isSome ∧
      ¬IsStandard "2024-03-05 10:20:30ZZZZ".toList ∧
      ¬IsStored "2024-03-05 10:20:30ZZZZ".toList := by
  refine ⟨by decide +kernel, fun h => ?_, fun h => ?_⟩
  · obtain ⟨i, hi⟩ := exists_standard?_iff.mpr h
    have hnone : standard? "2024-03-05 10:20:30ZZZZ".toList = none := by decide +kernel
    rw [hnone] at hi
    cases hi
  · exact absurd h.count_le (by decide +kernel)

end TypedCollections.Timestamp
