import Mathlib.Algebra.Order.Field.Power
import Mathlib.Algebra.Order.Ring.Rat
import Mathlib.Tactic.FieldSimp
import Mathlib.Tactic.Linarith
import Mathlib.Tactic.NormNum
import Mathlib.Tactic.Positivity
import Mathlib.Tactic.Qify
import Mathlib.Tactic.Ring
import TypedCollections.Number.Decimal

/-!
Where rounding leaves the finite numbers. The greatest finite number is `(2 ^ 53 - 1) * 2 ^ 971`,
and half a place above it a ratio is rounded to infinity.
-/

namespace TypedCollections

/-- A power with its positive and its negative part apart. -/
theorem zpow_eq_toNat_div {b : ℚ} (hb : b ≠ 0) (e : ℤ) :
    b ^ e = b ^ e.toNat / b ^ (-e).toNat := by
  rw [← zpow_natCast, ← zpow_natCast, ← zpow_sub₀ hb]
  congr 1
  omega

namespace Binary64

/-- The least ratio that is rounded to infinity. -/
def overflow : ℚ := (2 ^ 53 - 1 / 2) * 2 ^ (971 : ℤ)

variable {num den : Nat}

/-! ## Scaling by a power of two -/

theorem shifted_pos (hden : 0 < den) (e : ℤ) : 0 < (shifted num den e).2 :=
  Nat.mul_pos hden (Nat.two_pow_pos _)

theorem ratio_shifted (num den : Nat) (e : ℤ) :
    ((shifted num den e).1 / (shifted num den e).2 : ℚ) = num / den * 2 ^ (-e) := by
  simp only [shifted, Nat.cast_mul, Nat.cast_pow, Nat.cast_ofNat]
  rw [zpow_eq_toNat_div two_ne_zero, neg_neg, mul_div_mul_comm]

theorem shifted_le_iff (hden : 0 < den) (e : ℤ) :
    (shifted num den e).2 ≤ (shifted num den e).1 ↔ (2 ^ e : ℚ) ≤ num / den := by
  have hpos : (0 : ℚ) < (shifted num den e).2 := by exact_mod_cast shifted_pos hden e
  rw [← Nat.cast_le (α := ℚ), ← one_le_div hpos, ratio_shifted, zpow_neg, ← div_eq_mul_inv,
    one_le_div (by positivity)]

theorem floorLog2_spec (hnum : 0 < num) (hden : 0 < den) :
    (2 ^ floorLog2 num den : ℚ) ≤ num / den ∧ (num / den : ℚ) < 2 ^ (floorLog2 num den + 1) := by
  have hd : (0 : ℚ) < den := by exact_mod_cast hden
  have hnumLow : (2 ^ (num.log2 : ℤ) : ℚ) ≤ num := by
    exact_mod_cast Nat.log2_self_le hnum.ne'
  have hnumHigh : (num : ℚ) < 2 ^ (num.log2 + 1 : ℤ) := by
    exact_mod_cast Nat.lt_log2_self
  have hdenLow : (2 ^ (den.log2 : ℤ) : ℚ) ≤ den := by
    exact_mod_cast Nat.log2_self_le hden.ne'
  have hdenHigh : (den : ℚ) < 2 ^ (den.log2 + 1 : ℤ) := by
    exact_mod_cast Nat.lt_log2_self
  have hlow : (2 ^ (num.log2 - den.log2 - 1 : ℤ) : ℚ) ≤ num / den := by
    rw [le_div_iff₀ hd]
    calc (2 ^ (num.log2 - den.log2 - 1 : ℤ) : ℚ) * den
        ≤ 2 ^ (num.log2 - den.log2 - 1 : ℤ) * 2 ^ (den.log2 + 1 : ℤ) := by gcongr
      _ = 2 ^ (num.log2 : ℤ) := by rw [← zpow_add₀ two_ne_zero]; congr 1; omega
      _ ≤ num := hnumLow
  have hhigh : (num / den : ℚ) < 2 ^ (num.log2 - den.log2 + 1 : ℤ) := by
    rw [div_lt_iff₀ hd]
    calc (num : ℚ) < 2 ^ (num.log2 + 1 : ℤ) := hnumHigh
      _ = 2 ^ (num.log2 - den.log2 + 1 : ℤ) * 2 ^ (den.log2 : ℤ) := by
        rw [← zpow_add₀ two_ne_zero]; congr 1; omega
      _ ≤ 2 ^ (num.log2 - den.log2 + 1 : ℤ) * den := by gcongr
  simp only [floorLog2, shifted_le_iff hden]
  by_cases h : (2 ^ (num.log2 - den.log2 : ℤ) : ℚ) ≤ num / den
  · rw [if_pos h]
    exact ⟨h, hhigh⟩
  · rw [if_neg h, sub_add_cancel]
    exact ⟨hlow, not_le.mp h⟩

/-! ## The nearest integer -/

/-- Half a unit below an even integer everything is rounded up to it. -/
theorem le_roundEven_iff {k : Nat} (hk : k % 2 = 0) (hden : 0 < den) :
    k ≤ roundEven num den ↔ (k - 1 / 2 : ℚ) ≤ num / den := by
  have hd : (0 : ℚ) < den := by exact_mod_cast hden
  have hcross : (k - 1 / 2 : ℚ) ≤ num / den ↔ 2 * k * den ≤ 2 * num + den := by
    rw [le_div_iff₀ hd]
    qify
    constructor <;> intro h <;> linarith
  rw [hcross]
  have hnum := Nat.div_add_mod num den
  have hrem := Nat.mod_lt num hden
  unfold roundEven
  dsimp only
  generalize num / den = q at *
  generalize num % den = r at *
  rcases lt_trichotomy (q + 1) k with hless | heq | hmore
  · have hround : (if 2 * r < den ∨ 2 * r = den ∧ q % 2 = 0 then q else q + 1) < k := by
      split <;> omega
    have hle : (q + 2) * den ≤ k * den := Nat.mul_le_mul_right den hless
    constructor
    · intro h; omega
    · intro h; nlinarith
  · have hsplit : 2 * k * den = 2 * (den * q) + 2 * den := by rw [← heq]; ring
    split <;> omega
  · have hle : k * den ≤ q * den := Nat.mul_le_mul_right den (by omega)
    constructor
    · intro _; nlinarith
    · intro _; split <;> omega

theorem roundEven_le {k : Nat} (hden : 0 < den) (h : (num / den : ℚ) < k) :
    roundEven num den ≤ k := by
  have hd : (0 : ℚ) < den := by exact_mod_cast hden
  have hlt : num < k * den := by
    rw [div_lt_iff₀ hd] at h
    exact_mod_cast h
  have hq : num / den < k := (Nat.div_lt_iff_lt_mul hden).mpr hlt
  unfold roundEven
  dsimp only
  split <;> omega

/-! ## The last place -/

theorem pack_carry (negative : Bool) (exponent : ℤ) :
    pack negative (2 ^ 53) exponent =
      if 971 < exponent + 1 then .infinite negative else .finite negative (2 ^ 52) (exponent + 1) :=
  rfl

theorem pack_of_ne (negative : Bool) {mantissa : Nat} (h : mantissa ≠ 2 ^ 53) (exponent : ℤ) :
    pack negative mantissa exponent =
      if 971 < exponent then .infinite negative else .finite negative mantissa exponent := by
  have h : mantissa ≠ 2 ^ mantissaDigits := h
  unfold pack
  rw [if_neg h]
  rfl

theorem isFinite_pack (negative : Bool) (mantissa : Nat) (exponent : ℤ) :
    (pack negative mantissa exponent).isFinite ↔
      exponent < 971 ∨ exponent = 971 ∧ mantissa ≠ 2 ^ 53 := by
  by_cases hcarry : mantissa = 2 ^ 53
  · rw [hcarry, pack_carry]
    split <;> simp [isFinite] <;> omega
  · rw [pack_of_ne negative hcarry]
    split <;> simp [isFinite] <;> omega

theorem isInfinite_pack (negative : Bool) (mantissa : Nat) (exponent : ℤ) :
    (pack negative mantissa exponent).isInfinite = !(pack negative mantissa exponent).isFinite := by
  by_cases hcarry : mantissa = 2 ^ 53
  · rw [hcarry, pack_carry]
    split <;> rfl
  · rw [pack_of_ne negative hcarry]
    split <;> rfl

theorem overflow_bounds : (2 ^ (1023 : ℤ) : ℚ) < overflow ∧ overflow < 2 ^ (1024 : ℤ) := by
  have hpos : (0 : ℚ) < 2 ^ (971 : ℤ) := by positivity
  have hlow : (2 ^ (1023 : ℤ) : ℚ) = 2 ^ 52 * 2 ^ (971 : ℤ) := by
    rw [← zpow_natCast, ← zpow_add₀ two_ne_zero]
    rfl
  have hhigh : (2 ^ (1024 : ℤ) : ℚ) = 2 ^ 53 * 2 ^ (971 : ℤ) := by
    rw [← zpow_natCast, ← zpow_add₀ two_ne_zero]
    rfl
  rw [hlow, hhigh, overflow]
  constructor <;> gcongr <;> norm_num

/-- At the greatest exponent the bound is where the mantissa takes a digit too many. -/
theorem carry_iff (hden : 0 < den) (h : (num / den : ℚ) < 2 ^ (1024 : ℤ)) :
    roundEven (shifted num den 971).1 (shifted num den 971).2 = 2 ^ 53 ↔
      overflow ≤ (num / den : ℚ) := by
  have hpow : (2 ^ (1024 : ℤ) : ℚ) = (2 ^ 53 : Nat) * 2 ^ (971 : ℤ) := by
    rw [Nat.cast_pow, Nat.cast_ofNat, ← zpow_natCast, ← zpow_add₀ two_ne_zero]
    rfl
  have hscaled : ((shifted num den 971).1 / (shifted num den 971).2 : ℚ) =
      num / den / 2 ^ (971 : ℤ) := by
    rw [ratio_shifted, zpow_neg, ← div_eq_mul_inv]
  have hmost : roundEven (shifted num den 971).1 (shifted num den 971).2 ≤ 2 ^ 53 := by
    refine roundEven_le (shifted_pos hden _) ?_
    rw [hscaled, div_lt_iff₀ (by positivity), ← hpow]
    exact h
  rw [Nat.le_antisymm_iff, and_iff_right hmost,
    le_roundEven_iff rfl (shifted_pos hden _), hscaled, le_div_iff₀ (by positivity), overflow]
  norm_num

/-- A ratio is rounded to a finite number exactly below the bound. -/
theorem isFinite_ofRatio (negative : Bool) (num : Nat) (hden : 0 < den) :
    (ofRatio negative num den).isFinite ↔ (num / den : ℚ) < overflow := by
  obtain ⟨hlow, hhigh⟩ := overflow_bounds
  unfold ofRatio
  by_cases hzero : num = 0
  · have hpos : (0 : ℚ) < overflow := lt_trans (by positivity) hlow
    simpa [hzero, zero, isFinite] using hpos
  obtain ⟨hfloor, hceil⟩ := floorLog2_spec (Nat.pos_of_ne_zero hzero) hden
  rw [if_neg hzero, isFinite_pack]
  simp only [leastExponent, mantissaDigits]
  rcases lt_trichotomy (floorLog2 num den) 1023 with hless | heq | hmore
  · have hsmall : (num / den : ℚ) < overflow :=
      calc (num / den : ℚ) < 2 ^ (floorLog2 num den + 1) := hceil
        _ ≤ 2 ^ (1023 : ℤ) := zpow_le_zpow_right₀ one_le_two hless
        _ < overflow := hlow
    refine iff_of_true (.inl ?_) hsmall
    push_cast
    omega
  · have he : max (-1074 : ℤ) (floorLog2 num den - ((53 : Nat) - 1)) = 971 := by
      rw [heq]
      rfl
    have hcarry := carry_iff hden (by simpa [heq] using hceil)
    rw [he]
    simp [← not_le, ← hcarry]
  · have hlarge : overflow < (num / den : ℚ) :=
      calc overflow < 2 ^ (1024 : ℤ) := hhigh
        _ ≤ 2 ^ floorLog2 num den := zpow_le_zpow_right₀ one_le_two hmore
        _ ≤ num / den := hfloor
    refine iff_of_false ?_ hlarge.not_gt
    push_cast
    omega

/-! ## Numbers below the bound -/

/-- Finite, and so small that it is a number of the format. -/
def IsBounded (x : Binary64) : Prop :=
  ∃ s m e, x = .finite s m e ∧ (m * 2 ^ e : ℚ) < overflow

theorem IsBounded.isFinite {x : Binary64} (h : x.IsBounded) : x.isFinite := by
  obtain ⟨s, m, e, rfl, -⟩ := h
  rfl

theorem IsBounded.neg {x : Binary64} (h : x.IsBounded) : x.neg.IsBounded := by
  obtain ⟨s, m, e, rfl, hm⟩ := h
  exact ⟨_, m, e, rfl, hm⟩

/-- Taking the digit that is too many out of the mantissa keeps the number. -/
theorem pack_eq_finite {negative : Bool} {mantissa : Nat} {exponent : ℤ}
    (hm : mantissa ≤ 2 ^ 53) (h : (pack negative mantissa exponent).isFinite) :
    ∃ m e, pack negative mantissa exponent = .finite negative m e ∧ m < 2 ^ 53 ∧ e ≤ 971 ∧
      (m * 2 ^ e : ℚ) = mantissa * 2 ^ exponent := by
  rw [isFinite_pack] at h
  by_cases hcarry : mantissa = 2 ^ 53
  · subst hcarry
    have hle : exponent + 1 ≤ 971 := by omega
    refine ⟨2 ^ 52, exponent + 1, ?_, by decide, hle, ?_⟩
    · rw [pack_carry, if_neg (not_lt.mpr hle)]
    · rw [zpow_add₀ two_ne_zero]
      push_cast
      ring
  · have hle : exponent ≤ 971 := by omega
    refine ⟨mantissa, exponent, ?_, by omega, hle, rfl⟩
    rw [pack_of_ne negative hcarry, if_neg (not_lt.mpr hle)]

theorem le_roundEven {k : Nat} (hden : 0 < den) (h : (k : ℚ) ≤ num / den) :
    k ≤ roundEven num den := by
  have hd : (0 : ℚ) < den := by exact_mod_cast hden
  have hle : k * den ≤ num := by
    rw [le_div_iff₀ hd] at h
    exact_mod_cast h
  have hq : k ≤ num / den := (Nat.le_div_iff_mul_le hden).mpr hle
  unfold roundEven
  dsimp only
  split <;> omega

/-- The mantissa is rounded from a ratio of as many digits. -/
theorem ofRatio_eq_pack (negative : Bool) (hnum : num ≠ 0) (hden : 0 < den) :
    ∃ m e, ofRatio negative num den = pack negative m e ∧ m ≤ 2 ^ 53 ∧
      ((1 : ℚ) ≤ num / den → (1 : ℚ) ≤ m * 2 ^ e) := by
  obtain ⟨hfloor, hceil⟩ := floorLog2_spec (Nat.pos_of_ne_zero hnum) hden
  set e := max (-1074) (floorLog2 num den - 52) with he
  have hexp : floorLog2 num den + 1 ≤ 53 + e := by omega
  refine ⟨roundEven (shifted num den e).1 (shifted num den e).2, e, ?_, ?_, fun hone => ?_⟩
  · unfold ofRatio
    rw [if_neg hnum]
    rfl
  · refine roundEven_le (shifted_pos hden e) ?_
    rw [ratio_shifted, zpow_neg, ← div_eq_mul_inv, div_lt_iff₀ (by positivity)]
    calc (num / den : ℚ) < 2 ^ (floorLog2 num den + 1) := hceil
      _ ≤ 2 ^ (53 + e) := zpow_le_zpow_right₀ one_le_two hexp
      _ = (2 ^ 53 : Nat) * 2 ^ e := by
        rw [zpow_add₀ two_ne_zero]
        rfl
  · have hlog : 0 ≤ floorLog2 num den := by
      by_contra hneg
      have hsmall : (num / den : ℚ) < 1 :=
        lt_of_lt_of_le hceil (zpow_le_one_of_nonpos₀ one_le_two (by omega))
      exact absurd hone (not_le.mpr hsmall)
    have he : e = floorLog2 num den - 52 := by omega
    have hround : 2 ^ 52 ≤ roundEven (shifted num den e).1 (shifted num den e).2 := by
      refine le_roundEven (shifted_pos hden e) ?_
      rw [ratio_shifted, zpow_neg, ← div_eq_mul_inv, le_div_iff₀ (by positivity)]
      calc ((2 ^ 52 : Nat) : ℚ) * 2 ^ e = 2 ^ (52 + e) := by
            rw [zpow_add₀ two_ne_zero]
            rfl
        _ = 2 ^ floorLog2 num den := by congr 1; omega
        _ ≤ num / den := hfloor
    calc (1 : ℚ) ≤ 2 ^ floorLog2 num den := one_le_zpow₀ one_le_two hlog
      _ = (2 ^ 52 : Nat) * 2 ^ e := by
        rw [he, zpow_sub₀ two_ne_zero]
        push_cast
        field_simp
      _ ≤ _ := by gcongr

theorem isBounded_ofRatio {negative : Bool} (hden : 0 < den)
    (h : (ofRatio negative num den).isFinite) : (ofRatio negative num den).IsBounded := by
  by_cases hnum : num = 0
  · refine ⟨negative, 0, leastExponent, if_pos hnum, ?_⟩
    have hpos : (0 : ℚ) < overflow := lt_trans (by positivity) overflow_bounds.1
    simpa using hpos
  obtain ⟨mantissa, exponent, heq, hm, -⟩ := ofRatio_eq_pack negative hnum hden
  rw [heq] at h ⊢
  obtain ⟨m, e, heq, hm, he, -⟩ := pack_eq_finite hm h
  refine ⟨negative, m, e, heq, ?_⟩
  have hmantissa : (m : ℚ) ≤ 2 ^ 53 - 1 := by
    have hm : (m + 1 : ℚ) ≤ 2 ^ 53 := by exact_mod_cast hm
    linarith
  calc (m * 2 ^ e : ℚ) ≤ (2 ^ 53 - 1) * 2 ^ (971 : ℤ) :=
        mul_le_mul hmantissa (zpow_le_zpow_right₀ one_le_two he) (by positivity) (by norm_num)
    _ < overflow := by
        rw [overflow]
        gcongr
        norm_num

theorem isBounded_ofNat {n : Nat} (h : n < 2 ^ 64) : (ofNat n).IsBounded := by
  refine isBounded_ofRatio Nat.one_pos ((isFinite_ofRatio false n Nat.one_pos).mpr ?_)
  have hn : (n : ℚ) < 2 ^ (64 : ℤ) := by exact_mod_cast h
  rw [Nat.cast_one, div_one]
  calc (n : ℚ) < 2 ^ (64 : ℤ) := hn
    _ ≤ 2 ^ (1023 : ℤ) := zpow_le_zpow_right₀ one_le_two (by decide)
    _ < overflow := overflow_bounds.1

theorem isFinite_of_isInfinite_eq_false {negative : Bool} (hden : 0 < den)
    (h : (ofRatio negative num den).isInfinite = false) : (ofRatio negative num den).isFinite := by
  by_cases hnum : num = 0
  · rw [ofRatio, if_pos hnum]
    rfl
  · obtain ⟨m, e, heq, -⟩ := ofRatio_eq_pack negative hnum hden
    rw [heq] at h ⊢
    simpa [isInfinite_pack] using h

/-- A product of finite numbers is a ratio that is rounded. -/
theorem isBounded_mul {x y : Binary64} (hx : x.isFinite) (hy : y.isFinite)
    (h : (x.mul y).isInfinite = false) : (x.mul y).IsBounded := by
  cases x with
  | nan => cases hx
  | infinite s => cases hx
  | finite s m e =>
    cases y with
    | nan => cases hy
    | infinite t => cases hy
    | finite t n f =>
      have hden : 0 < (shifted (m * n) 1 (-(e + f))).2 := shifted_pos Nat.one_pos _
      exact isBounded_ofRatio hden (isFinite_of_isInfinite_eq_false hden h)

/-- Dividing by a number that is not below one keeps the bound. -/
theorem IsBounded.div {x : Binary64} (hx : x.IsBounded) {t : Bool} {n : Nat} {f : ℤ}
    (hn : (1 : ℚ) ≤ n * 2 ^ f) : (x.div (.finite t n f)).IsBounded := by
  obtain ⟨s, m, e, rfl, hm⟩ := hx
  have hpos : 0 < n := by
    rcases Nat.eq_zero_or_pos n with rfl | hpos
    · norm_num at hn
    · exact hpos
  have hden : 0 < (shifted m n (-(e - f))).2 := shifted_pos hpos _
  have hdiv : (Binary64.finite s m e).div (.finite t n f) =
      ofRatio (s != t) (shifted m n (-(e - f))).1 (shifted m n (-(e - f))).2 := if_neg hpos.ne'
  rw [hdiv]
  refine isBounded_ofRatio hden ((isFinite_ofRatio _ _ hden).mpr ?_)
  have hn0 : (0 : ℚ) < n := by exact_mod_cast hpos
  calc ((shifted m n (-(e - f))).1 / (shifted m n (-(e - f))).2 : ℚ)
      = m * 2 ^ e / (n * 2 ^ f) := by
        rw [ratio_shifted, neg_neg, zpow_sub₀ two_ne_zero, div_mul_div_comm]
    _ ≤ m * 2 ^ e := div_le_self (by positivity) hn
    _ < overflow := hm

theorem ten_zpow_lt_overflow : (10 ^ (308 : ℤ) : ℚ) < overflow :=
  calc (10 ^ (308 : ℤ) : ℚ) = (10 ^ (77 : ℤ)) ^ (4 : ℤ) := by
        rw [← zpow_mul]
        rfl
    _ ≤ (9 / 5 * 2 ^ (255 : ℤ)) ^ (4 : ℤ) :=
      zpow_le_zpow_left₀ (by decide) (by positivity) (by norm_num)
    _ = (9 / 5) ^ (4 : ℤ) * (2 ^ (49 : ℤ) * 2 ^ (971 : ℤ)) := by
      rw [mul_zpow, ← zpow_mul, ← zpow_add₀ two_ne_zero]
      rfl
    _ = ((9 / 5) ^ (4 : ℤ) * 2 ^ (49 : ℤ)) * 2 ^ (971 : ℤ) := (mul_assoc ..).symm
    _ < overflow := by
      rw [overflow]
      gcongr
      norm_num

/-- The powers of ten that are used are numbers, and none is below one. -/
theorem powerOfTen_eq {k : Nat} (h : k ≤ 308) :
    ∃ m e, powerOfTen k = .finite false m e ∧ (1 : ℚ) ≤ m * 2 ^ e := by
  have hpos : 10 ^ k ≠ 0 := (Nat.pow_pos (by decide)).ne'
  have hfinite : (powerOfTen k).isFinite := by
    refine (isFinite_ofRatio false (10 ^ k) Nat.one_pos).mpr
      (lt_of_le_of_lt ?_ ten_zpow_lt_overflow)
    rw [Nat.cast_one, div_one, Nat.cast_pow, Nat.cast_ofNat, ← zpow_natCast]
    exact zpow_le_zpow_right₀ (by norm_num) (by omega)
  obtain ⟨mantissa, exponent, heq, hm, hone⟩ := ofRatio_eq_pack false hpos Nat.one_pos
  have heq : powerOfTen k = pack false mantissa exponent := heq
  rw [heq] at hfinite ⊢
  obtain ⟨m, e, heq, -, -, hvalue⟩ := pack_eq_finite hm hfinite
  refine ⟨m, e, heq, hvalue ▸ hone ?_⟩
  rw [Nat.cast_one, div_one]
  exact_mod_cast Nat.one_le_iff_ne_zero.mpr hpos

end Binary64
end TypedCollections
