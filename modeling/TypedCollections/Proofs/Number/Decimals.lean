import TypedCollections.Proofs.Number.Rounding
import TypedCollections.Proofs.Text.Digits

/-!
The texts that are read as numbers, and those among them that no finite number is near to. The
words for infinity and for what is no number are read, and so is a decimal of any size.
-/

namespace TypedCollections.Decimal

open Binary64 (overflow)
open Text (AllDigits NoDigit noDigit_cons)

/-! ## The size of a decimal -/

theorem toDigits_bounds {n : Nat} (hn : n ≠ 0) :
    10 ^ ((Nat.toDigits 10 n).length - 1) ≤ n ∧ n < 10 ^ (Nat.toDigits 10 n).length := by
  have hlength := Nat.length_toDigits_pos (b := 10) (n := n)
  constructor
  · by_cases hone : (Nat.toDigits 10 n).length = 1
    · rw [hone]
      exact Nat.pos_of_ne_zero hn
    · have hiff := Nat.length_toDigits_le_iff (b := 10) (n := n)
        (k := (Nat.toDigits 10 n).length - 1) (by decide) (by omega)
      have hnot := mt hiff.mpr (by omega)
      exact Nat.not_lt.mp hnot
  · exact (Nat.length_toDigits_le_iff (by decide) hlength).mp (Nat.le_refl _)

theorem two_zpow_le_ten_zpow : (2 ^ (1024 : ℤ) : ℚ) ≤ 10 ^ (310 : ℤ) :=
  calc (2 ^ (1024 : ℤ) : ℚ) ≤ 2 ^ (205 * 5 : ℤ) := zpow_le_zpow_right₀ one_le_two (by decide)
    _ = (2 ^ (205 : ℤ)) ^ (5 : ℤ) := zpow_mul ..
    _ ≤ (10 ^ (62 : ℤ)) ^ (5 : ℤ) :=
      zpow_le_zpow_left₀ (by decide) (by positivity) (by norm_num)
    _ = 10 ^ (62 * 5 : ℤ) := (zpow_mul ..).symm

/-- The shortcuts for powers of ten that decide alone agree with the bound. -/
theorem isFinite_scaled (negative : Bool) (significand : Nat) (scale : ℤ) :
    (scaled negative significand scale).isFinite ↔ (significand * 10 ^ scale : ℚ) < overflow := by
  obtain ⟨hlow, hhigh⟩ := Binary64.overflow_bounds
  have hone : (1 : ℚ) < overflow :=
    lt_of_le_of_lt (one_le_zpow₀ one_le_two (by decide)) hlow
  unfold scaled
  by_cases hzero : significand = 0
  · subst hzero
    simpa [Binary64.zero, Binary64.isFinite] using lt_trans one_pos hone
  obtain ⟨hleast, hmost⟩ := toDigits_bounds hzero
  have hlength := Nat.length_toDigits_pos (b := 10) (n := significand)
  generalize (Nat.toDigits 10 significand).length = length at *
  dsimp only
  by_cases hsmall : (length + scale : ℤ) < -330
  · rw [if_pos (.inr hsmall)]
    refine iff_of_true rfl (lt_trans ?_ hone)
    calc (significand * 10 ^ scale : ℚ) < 10 ^ (length : ℤ) * 10 ^ scale := by
          gcongr
          exact_mod_cast hmost
      _ = 10 ^ (length + scale : ℤ) := (zpow_add₀ (by decide) _ _).symm
      _ ≤ 1 := zpow_le_one_of_nonpos₀ (by norm_num) (by omega)
  rw [if_neg (by simp [hzero, hsmall])]
  by_cases hlarge : 310 < (length + scale : ℤ)
  · rw [if_pos hlarge]
    refine iff_of_false (by simp [Binary64.isFinite]) (not_lt.mpr ?_)
    calc overflow ≤ 2 ^ (1024 : ℤ) := hhigh.le
      _ ≤ 10 ^ (310 : ℤ) := two_zpow_le_ten_zpow
      _ ≤ 10 ^ (length - 1 + scale : ℤ) := zpow_le_zpow_right₀ (by norm_num) (by omega)
      _ = 10 ^ (length - 1 : ℤ) * 10 ^ scale := zpow_add₀ (by decide) _ _
      _ ≤ significand * 10 ^ scale := by
        gcongr
        rw [← Nat.cast_one, ← Nat.cast_sub hlength]
        exact_mod_cast hleast
  · rw [if_neg hlarge, Binary64.isFinite_ofRatio _ _ (by positivity),
      zpow_eq_toNat_div (by decide)]
    push_cast
    rw [mul_div_assoc]

/-! ## Spelling -/

/-- A point with digits behind it, or neither. -/
inductive IsFraction : List Char → List Char → Prop
  | absent : IsFraction [] []
  | present {ds} : AllDigits ds → IsFraction ('.' :: ds) ds

inductive IsExponent : List Char → ℤ → Prop
  | absent : IsExponent [] 0
  | upward {mark sign ds} : mark ∈ ['e', 'E'] → sign ∈ [[], ['+']] → ds ≠ [] → AllDigits ds →
      IsExponent (mark :: (sign ++ ds)) (Nat.ofDigitChars 10 ds 0)
  | downward {mark ds} : mark ∈ ['e', 'E'] → ds ≠ [] → AllDigits ds →
      IsExponent (mark :: '-' :: ds) (-Nat.ofDigitChars 10 ds 0)

/-- The decimals without a sign, each with the integer and the power of ten that it stands for.
There must be a digit before the point or behind it. -/
inductive Spells : List Char → ℕ → ℤ → Prop
  | mk {whole point fraction mark e} : AllDigits whole → IsFraction point fraction →
      whole ++ fraction ≠ [] → IsExponent mark e →
      Spells (whole ++ (point ++ mark)) (Nat.ofDigitChars 10 (whole ++ fraction) 0)
        (e - fraction.length)

theorem digits_append {ds rest : List Char} (hd : AllDigits ds) (hr : NoDigit rest) :
    digits (ds ++ rest) = (ds, rest) := by
  rw [digits, Text.takeWhile_digits hd hr, Text.dropWhile_digits hd hr]

theorem digits_spec (s : List Char) :
    s = (digits s).1 ++ (digits s).2 ∧ AllDigits (digits s).1 :=
  ⟨List.takeWhile_append_dropWhile.symm, Text.allDigits_takeWhile s⟩

theorem natural?_eq_some_iff {ds : List Char} {n : Nat} :
    exponent?.natural? ds = some n ↔ ds ≠ [] ∧ AllDigits ds ∧ n = Nat.ofDigitChars 10 ds 0 := by
  unfold exponent?.natural?
  rw [Option.ite_none_right_eq_some, Option.some.injEq, List.all_eq_true, and_assoc,
    eq_comm (a := n)]
  rfl

theorem exponent?_cons (mark : Char) (rest : List Char) : exponent? (mark :: rest) =
    if mark = 'e' ∨ mark = 'E' then
      match rest with
      | '-' :: ds => (exponent?.natural? ds).map fun n : ℕ => -(n : ℤ)
      | '+' :: ds => (exponent?.natural? ds).map Nat.cast
      | ds => (exponent?.natural? ds).map Nat.cast
    else none := by
  unfold exponent?
  dsimp only
  congr 1
  split <;> simp [Option.bind_eq_bind, Option.map_eq_bind, Option.bind_assoc]

theorem exponent?_eq_some_iff {s : List Char} {e : ℤ} : exponent? s = some e ↔ IsExponent s e := by
  constructor
  · intro h
    match s with
    | [] =>
      obtain rfl := Option.some.inj h
      exact .absent
    | mark :: rest =>
      rw [exponent?_cons, Option.ite_none_right_eq_some] at h
      obtain ⟨hmark, h⟩ := h
      have hmark : mark ∈ ['e', 'E'] := by simpa using hmark
      split at h <;> obtain ⟨n, hn, rfl⟩ := Option.map_eq_some_iff.mp h <;>
        obtain ⟨hne, hd, rfl⟩ := natural?_eq_some_iff.mp hn
      · exact .downward hmark hne hd
      · exact @IsExponent.upward mark ['+'] _ hmark (by simp) hne hd
      · exact @IsExponent.upward mark [] _ hmark (by simp) hne hd
  · intro h
    cases h with
    | absent => rfl
    | @upward mark sign ds hmark hsign hne hd =>
      have hn := natural?_eq_some_iff.mpr ⟨hne, hd, rfl⟩
      rw [exponent?_cons, if_pos (by simpa using hmark)]
      rcases List.mem_pair.mp hsign with rfl | rfl
      · rw [List.nil_append]
        -- A digit is no sign.
        split
        · exact absurd (hd '-' List.mem_cons_self) (by decide)
        · exact absurd (hd '+' List.mem_cons_self) (by decide)
        · rw [hn, Option.map_some]
      · simp [hn]
    | @downward mark ds hmark hne hd =>
      have hn := natural?_eq_some_iff.mpr ⟨hne, hd, rfl⟩
      rw [exponent?_cons, if_pos (by simpa using hmark)]
      simp [hn]

theorem IsExponent.noDigit {s : List Char} {e : ℤ} (h : IsExponent s e) : NoDigit s := by
  have hmark : ∀ mark ∈ ['e', 'E'], mark.isDigit = false := by simp
  cases h with
  | absent => exact Text.noDigit_nil
  | upward hm _ _ _ => exact noDigit_cons (hmark _ hm) _
  | downward hm _ _ => exact noDigit_cons (hmark _ hm) _

/-- The words that are read as numbers, in small letters. -/
def infinityWords : List (List Char) := ["inf".toList, "infinity".toList]
def nanWord : List Char := "nan".toList

theorem toLower_of_isDigit {c : Char} (h : c.isDigit) : c.toLower = c := by
  have hmost : 48 ≤ c.toNat ∧ c.toNat ≤ 57 := by
    simpa [Char.isDigit, UInt32.le_iff_toNat_le] using h
  refine dif_neg fun hupper => ?_
  have hleast : 65 ≤ c.toNat := UInt32.le_iff_toNat_le.mp hupper.1
  omega

theorem Spells.exists_cons {s : List Char} {m : ℕ} {e : ℤ} (h : Spells s m e) :
    ∃ c rest, s = c :: rest ∧ (c.isDigit ∨ c = '.') := by
  obtain ⟨hwhole, hpoint, hne, -⟩ := h
  rename_i whole point fraction mark e
  cases whole with
  | cons c whole => exact ⟨c, _, rfl, .inl (hwhole c List.mem_cons_self)⟩
  | nil =>
    cases hpoint with
    | absent => exact absurd rfl hne
    | present _ => exact ⟨'.', _, rfl, .inr rfl⟩

/-- No decimal begins as a word does. -/
theorem Spells.notMem_words {s : List Char} {m : ℕ} {e : ℤ} (h : Spells s m e) :
    s.map Char.toLower ∉ nanWord :: infinityWords := by
  obtain ⟨c, rest, rfl, hc⟩ := h.exists_cons
  have hlower : c.toLower = c := by
    rcases hc with hdigit | rfl
    · exact toLower_of_isDigit hdigit
    · rfl
  have hletters : ∀ word ∈ nanWord :: infinityWords, ∀ d ∈ word.head?,
      d.isDigit = false ∧ d ≠ '.' := by simp [nanWord, infinityWords]
  intro hmem
  obtain ⟨hdigit, hpoint⟩ := hletters _ hmem c (by simp [hlower])
  rcases hc with hc | hc
  · rw [hc] at hdigit
    cases hdigit
  · exact hpoint hc

/-- What is read of the digits behind a point, and what is left. -/
def fraction : List Char → List Char × List Char
  | '.' :: r => digits r
  | r => ([], r)

theorem exists_fraction (s : List Char) : ∃ point, IsFraction point (fraction s).1 ∧
    s = point ++ (fraction s).2 := by
  unfold fraction
  split
  · next r =>
    obtain ⟨heq, hd⟩ := digits_spec r
    exact ⟨'.' :: (digits r).1, .present hd, congrArg (List.cons '.') heq⟩
  · exact ⟨[], .absent, rfl⟩

theorem fraction_append {point ds s : List Char} {e : ℤ} (h : IsFraction point ds)
    (hs : IsExponent s e) : fraction (point ++ s) = (ds, s) := by
  cases h with
  | absent =>
    cases hs with
    | absent => rfl
    | upward hmark _ _ _ => rcases List.mem_pair.mp hmark with rfl | rfl <;> rfl
    | downward hmark _ _ => rcases List.mem_pair.mp hmark with rfl | rfl <;> rfl
  | present hd => exact digits_append hd hs.noDigit

theorem unsigned?_of_infinity {negative : Bool} {s : List Char}
    (h : s.map Char.toLower ∈ infinityWords) :
    unsigned? negative s = some (.infinite negative) := by
  unfold unsigned?
  exact if_pos (List.mem_pair.mp h)

theorem unsigned?_of_nan {negative : Bool} {s : List Char} (h : s.map Char.toLower = nanWord) :
    unsigned? negative s = some .nan := by
  unfold unsigned?
  simp only [h]
  rfl

theorem unsigned?_of_word {negative : Bool} {s : List Char}
    (h : s.map Char.toLower ∉ nanWord :: infinityWords) :
    unsigned? negative s =
      if (digits s).1 = [] ∧ (fraction (digits s).2).1 = [] then none
      else (exponent? (fraction (digits s).2).2).map fun e =>
        scaled negative (Nat.ofDigitChars 10 ((digits s).1 ++ (fraction (digits s).2).1) 0)
          (e - (fraction (digits s).2).1.length) := by
  obtain ⟨hnan, hinf, hinfinity⟩ : s.map Char.toLower ≠ "nan".toList ∧
      s.map Char.toLower ≠ "inf".toList ∧ s.map Char.toLower ≠ "infinity".toList := by
    simpa [nanWord, infinityWords] using h
  unfold unsigned?
  dsimp only
  rw [if_neg (not_or.mpr ⟨hinf, hinfinity⟩), if_neg hnan]
  rfl

theorem unsigned?_of_spells {negative : Bool} {s : List Char} {m : ℕ} {e : ℤ} (h : Spells s m e) :
    unsigned? negative s = some (scaled negative m e) := by
  rw [unsigned?_of_word h.notMem_words]
  obtain ⟨hwhole, hpoint, hne, hexponent⟩ := h
  rename_i whole point ds mark e
  have hnext : NoDigit (point ++ mark) := by
    cases hpoint with
    | absent => exact hexponent.noDigit
    | present _ => exact noDigit_cons rfl _
  rw [digits_append hwhole hnext, fraction_append hpoint hexponent,
    if_neg (by simpa using hne), exponent?_eq_some_iff.mpr hexponent]
  rfl

/-- The numbers without a sign, of either sign. -/
inductive IsUnsigned (negative : Bool) : List Char → Binary64 → Prop
  | infinity {s} : s.map Char.toLower ∈ infinityWords → IsUnsigned negative s (.infinite negative)
  | nan {s} : s.map Char.toLower = nanWord → IsUnsigned negative s .nan
  | decimal {s m e} : Spells s m e → IsUnsigned negative s (scaled negative m e)

theorem unsigned?_eq_some_iff {negative : Bool} {s : List Char} {x : Binary64} :
    unsigned? negative s = some x ↔ IsUnsigned negative s x := by
  constructor
  · intro h
    by_cases hinfinity : s.map Char.toLower ∈ infinityWords
    · rw [unsigned?_of_infinity hinfinity] at h
      obtain rfl := Option.some.inj h
      exact .infinity hinfinity
    by_cases hnan : s.map Char.toLower = nanWord
    · rw [unsigned?_of_nan hnan] at h
      obtain rfl := Option.some.inj h
      exact .nan hnan
    rw [unsigned?_of_word (by simp [hinfinity, hnan]), Option.ite_none_left_eq_some] at h
    obtain ⟨hne, h⟩ := h
    obtain ⟨e, he, rfl⟩ := Option.map_eq_some_iff.mp h
    obtain ⟨hs, hwhole⟩ := digits_spec s
    obtain ⟨point, hpoint, hrest⟩ := exists_fraction (digits s).2
    have hspells := Spells.mk hwhole hpoint (fun hnil => hne (List.append_eq_nil_iff.mp hnil))
      (exponent?_eq_some_iff.mp he)
    rw [← hrest, ← hs] at hspells
    exact .decimal hspells
  · intro h
    cases h with
    | infinity h => exact unsigned?_of_infinity h
    | nan h => exact unsigned?_of_nan h
    | decimal h => exact unsigned?_of_spells h

theorem IsUnsigned.noSign {negative : Bool} {s : List Char} {x : Binary64}
    (h : IsUnsigned negative s x) : ∀ c ∈ s.head?, c ≠ '-' ∧ c ≠ '+' := by
  have hletters : ∀ word ∈ nanWord :: infinityWords, ∀ d ∈ word.head?,
      d ≠ '-'.toLower ∧ d ≠ '+'.toLower := by simp [nanWord, infinityWords]
  have hwords : s.map Char.toLower ∈ nanWord :: infinityWords →
      ∀ c ∈ s.head?, c ≠ '-' ∧ c ≠ '+' := by
    intro hmem c hc
    have hlower := hletters _ hmem c.toLower (by rw [List.head?_map, Option.mem_def.mp hc]; rfl)
    exact ⟨fun heq => hlower.1 (by rw [heq]), fun heq => hlower.2 (by rw [heq])⟩
  cases h with
  | infinity hmem => exact hwords (List.mem_cons_of_mem _ hmem)
  | nan heq => exact hwords (by rw [heq]; exact List.mem_cons_self)
  | decimal hspells =>
    obtain ⟨c, rest, rfl, hc⟩ := hspells.exists_cons
    rintro d ⟨⟩
    rcases hc with hdigit | rfl
    · constructor <;> rintro rfl <;> cases hdigit
    · decide

/-- What may stand in front of a number. -/
def signs : List (List Char) := [[], ['+'], ['-']]

theorem read?_eq_some_iff {s : List Char} {x : Binary64} :
    read? s = some x ↔
      ∃ sign body, sign ∈ signs ∧ s = sign ++ body ∧ IsUnsigned (sign = ['-']) body x := by
  constructor
  · intro h
    unfold read? at h
    split at h
    · next body => exact ⟨['-'], body, by decide, rfl, unsigned?_eq_some_iff.mp h⟩
    · next body => exact ⟨['+'], body, by decide, rfl, unsigned?_eq_some_iff.mp h⟩
    · exact ⟨[], s, by decide, rfl, unsigned?_eq_some_iff.mp h⟩
  · rintro ⟨sign, body, hsign, rfl, h⟩
    have hread := unsigned?_eq_some_iff.mpr h
    rcases List.mem_cons.mp hsign with rfl | hsign
    · have hfirst := h.noSign
      rw [List.nil_append]
      unfold read?
      split
      · exact absurd rfl (hfirst '-' rfl).1
      · exact absurd rfl (hfirst '+' rfl).2
      · exact hread
    · rcases List.mem_pair.mp hsign with rfl | rfl <;> exact hread

/-- The texts of the numbers that have no JSON form: a word, or a decimal of any number of digits
whose size is beyond the finite numbers. -/
inductive IsUnbounded : List Char → Prop
  | word {sign body} : sign ∈ signs → body.map Char.toLower ∈ nanWord :: infinityWords →
      IsUnbounded (sign ++ body)
  | decimal {sign body m e} : sign ∈ signs → Spells body m e → overflow ≤ (m * 10 ^ e : ℚ) →
      IsUnbounded (sign ++ body)

/-- Exactly these texts are read as a number that is not finite. -/
theorem exists_not_isFinite_iff {s : List Char} :
    (∃ x, read? s = some x ∧ x.isFinite = false) ↔ IsUnbounded s := by
  simp only [read?_eq_some_iff]
  constructor
  · rintro ⟨x, ⟨sign, body, hsign, rfl, h⟩, hx⟩
    cases h with
    | infinity hmem => exact .word hsign (List.mem_cons_of_mem _ hmem)
    | nan heq => exact .word hsign (by rw [heq]; exact List.mem_cons_self)
    | @decimal m e hspells =>
      refine .decimal hsign hspells (not_lt.mp fun hlt => ?_)
      rw [(isFinite_scaled _ m e).mpr hlt] at hx
      cases hx
  · intro h
    cases h with
    | @word sign body hsign hmem =>
      rcases List.mem_cons.mp hmem with heq | hmem
      · exact ⟨.nan, ⟨sign, body, hsign, rfl, .nan heq⟩, rfl⟩
      · exact ⟨_, ⟨sign, body, hsign, rfl, .infinity hmem⟩, rfl⟩
    | @decimal sign body m e hsign hspells hlarge =>
      refine ⟨_, ⟨sign, body, hsign, rfl, .decimal hspells⟩, ?_⟩
      exact Bool.eq_false_iff.mpr (mt (isFinite_scaled _ m e).mp (not_lt.mpr hlarge))

end TypedCollections.Decimal
