import Mathlib.Algebra.Order.Floor.Semiring
import StreetLinking.Proofs.Number.Fractions
import StreetLinking.Number.Binary
/-!
# Quotients, and doubles and whole numbers

A quotient is rounded from its whole part and what dividing leaves over. A count becomes the double
nearest to it, and a double becomes a count by cutting off what is below one. Main statement: the
count nearest to a double is half of one away from it at most, unless it is the greatest count.
-/

namespace StreetLinking.Number

open Float.Model UnpackedFloat

/-! ## Numbers that are not rounded -/

theorem RoundsTo.abs_eq {m : ℕ} {e : ℤ} {x r : ℚ} (h : RoundsTo x r) (hm : m < 2 ^ 53)
    (he : -1074 ≤ e) (hx : |x| = m * 2 ^ e) : |r| = |x| := by
  have hspan : |x| < 2 ^ (e + 53) := by
    rw [hx, add_comm, zpow_add₀ two_ne_zero]
    have : (m : ℚ) < 2 ^ (53 : ℤ) := by exact_mod_cast hm
    gcongr
  rw [hx] at hspan ⊢
  exact le_antisymm (h.abs_le e m he (hx ▸ hspan) hx.le) (h.le_abs e m he (hx ▸ hspan) hx.ge)

theorem RoundsTo.eq_of_double {m : ℕ} {e : ℤ} {r : ℚ} (h : RoundsTo (m * 2 ^ e) r)
    (hm : m < 2 ^ 53) (he : -1074 ≤ e) : r = m * 2 ^ e := by
  have hx : (0 : ℚ) ≤ m * 2 ^ e := by positivity
  have habs := h.abs_eq hm he (abs_of_nonneg hx)
  rwa [abs_of_nonneg hx, abs_of_nonneg (h.nonneg hx)] at habs

theorem IsExactly.exists_double {x : Float} {v : ℚ} (h : IsExactly x v) (hv : 0 ≤ v) :
    ∃ (m : ℕ) (e : ℤ), v = m * 2 ^ e ∧ m < 2 ^ 53 ∧ -1074 ≤ e := by
  rcases h.cases with ⟨s, -, rfl⟩ | ⟨s, m, e, hm, hx, rfl⟩
  · exact ⟨0, 0, by simp, by decide, by decide⟩
  · obtain ⟨hsignificand, hlow, -, -⟩ := unpack_finite hx
    cases s with
    | positive => exact ⟨m, e, by simp [Sign.apply], hsignificand, hlow⟩
    | negative => exact absurd hv (value_neg hm e).not_ge

/-! ## Quotients -/

theorem isLeftOf_quotient (n : ℕ) {d : ℕ} (hd : 0 < d) :
    IsLeftOf (.ofMantissaAndAccuracy (n / d) (accuracyOfFraction (n % d) d)) (n / d : ℚ) := by
  have hd' : (0 : ℚ) < d := by exact_mod_cast hd
  have hvalue : (n : ℚ) / d = (n / d : ℕ) + (n % d : ℕ) / d := by
    rw [div_eq_iff hd'.ne', add_mul, div_mul_cancel₀ _ hd'.ne', mul_comm]
    exact_mod_cast (Nat.div_add_mod n d).symm
  have hlow : (0 : ℚ) ≤ (n % d : ℕ) / d := by positivity
  have hhigh : ((n % d : ℕ) : ℚ) / d < 1 := by
    rw [div_lt_one hd']
    exact_mod_cast Nat.mod_lt n hd
  rw [hvalue]
  generalize n % d = rest at hlow hhigh ⊢
  unfold accuracyOfFraction
  split
  · next hzero => simpa [hzero] using isLeftOf_exact (n / d)
  · next hpos =>
    have hrest : (0 : ℚ) < rest / d := by
      have : 0 < rest := Nat.pos_of_ne_zero hpos
      positivity
    rcases lt_trichotomy (2 * rest) d with hlt | heq | hgt
    · have hhalf : (rest : ℚ) / d < 1 / 2 := by
        rw [div_lt_div_iff₀ hd' two_pos, mul_comm, one_mul]
        exact_mod_cast hlt
      rw [Nat.compare_eq_lt.2 hlt]
      exact ⟨rest / d, by simp [ExtendedMantissa.ofMantissaAndAccuracy], hlow, hhalf,
        iff_of_true rfl hrest⟩
    · have hhalf : (rest : ℚ) / d = 1 / 2 := by
        rw [div_eq_div_iff hd'.ne' two_ne_zero, mul_comm, one_mul]
        exact_mod_cast heq
      rw [Nat.compare_eq_eq.2 heq, hhalf]
      exact ⟨0, by simp [ExtendedMantissa.ofMantissaAndAccuracy], le_rfl, by norm_num,
        iff_of_false Bool.false_ne_true (lt_irrefl 0)⟩
    · have hhalf : (1 / 2 : ℚ) < rest / d := by
        rw [div_lt_div_iff₀ two_pos hd', one_mul, mul_comm]
        exact_mod_cast hgt
      rw [Nat.compare_eq_gt.2 hgt]
      refine ⟨rest / d - 1 / 2, ?_, by linarith, by linarith, iff_of_true rfl (by linarith)⟩
      simp only [ExtendedMantissa.ofMantissaAndAccuracy, Bool.toNat_true, Nat.cast_one]
      ring

/-- Dividing is done at an exponent that leaves enough digits to round. -/
theorem exists_divCore {m n : ℕ} (e f : ℤ) (hm : 0 < m) (hn : 0 < n) (hspan : m < 2 ^ 53) :
    ∃ (k : ℕ) (t : ℤ), e - f = t + k ∧
      divCore .binary64 m e n f =
        ((m <<< k) / n, t, accuracyOfFraction ((m <<< k) % n) n) ∧
      t ≤ spacing ((m <<< k) / n) t ∧ (0 < (m <<< k) / n ∨ t ≤ -1074) := by
  obtain ⟨t, ht⟩ : ∃ t, t = min (e - f) (max (m.log2 + e - (n.log2 + f) - 53) (-1074)) := ⟨_, rfl⟩
  have htarget : min (e - f) (Format.binary64.targetExponent
      (totalExponent m e - totalExponent n f)) = t := by
    rw [ht]
    simp only [Format.targetExponent, totalExponent, Format.mantissaBits, Format.minExponent]
    norm_num
    omega
  obtain ⟨k, hk⟩ : ∃ k : ℕ, e - f = t + k := ⟨(e - f - t).toNat, by omega⟩
  have hamount : (e - f - t).toNat = k := by omega
  refine ⟨k, t, hk, by simp only [divCore, htarget, hamount], ?_⟩
  by_cases hleast : t ≤ -1074
  · exact ⟨hleast.trans (le_max_right _ _), Or.inr hleast⟩
  · have hlog : m.log2 ≤ 52 := Nat.lt_succ_iff.1 ((Nat.log2_lt hm.ne').2 hspan)
    -- the exponent is not the least one, so that the quotient has as many digits as a double
    have hdigits : n.log2 + 1 + 52 ≤ m.log2 + k := by omega
    have hfull : 2 ^ 52 ≤ (m <<< k) / n := by
      rw [Nat.le_div_iff_mul_le hn, Nat.shiftLeft_eq]
      calc 2 ^ 52 * n ≤ 2 ^ 52 * 2 ^ (n.log2 + 1) := Nat.mul_le_mul_left _ Nat.lt_log2_self.le
        _ = 2 ^ (n.log2 + 1 + 52) := by rw [Nat.pow_add 2 (n.log2 + 1) 52, mul_comm]
        _ ≤ 2 ^ (m.log2 + k) := Nat.pow_le_pow_right two_pos hdigits
        _ ≤ m * 2 ^ k := by
          rw [Nat.pow_add]
          exact Nat.mul_le_mul_right _ (Nat.log2_self_le hm.ne')
    have hpos : 0 < (m <<< k) / n := lt_of_lt_of_le (by decide) hfull
    have hlow := (Nat.le_log2 hpos.ne').2 hfull
    refine ⟨?_, Or.inl hpos⟩
    rw [spacing]
    omega

theorem IsExactly.exists_div {a b : Float} {u v : ℚ} (ha : IsExactly a u) (hb : IsExactly b v)
    (hu : 0 ≤ u) (hv : 0 < v) (hspan : u / v < 2 ^ 200) :
    ∃ r, RoundsTo (u / v) r ∧ IsExactly (a / b) r := by
  show ∃ r, RoundsTo (u / v) r ∧
    IsExactly (.ofModel (.pack (UnpackedFloat.div _ a.toModel.unpack b.toModel.unpack))) r
  rcases hb.cases with ⟨s', hy, rfl⟩ | ⟨s', n, f, hn, hy, rfl⟩
  · exact absurd hv (lt_irrefl 0)
  · rcases ha.cases with ⟨s, hx, rfl⟩ | ⟨s, m, e, hm, hx, rfl⟩
    · refine ⟨0, by rw [zero_div]; exact roundsTo_zero, ?_⟩
      rw [hx, hy]
      exact isExactly_zero (s / s')
    · cases s with
      | negative => exact absurd hu (value_neg hm e).not_ge
      | positive =>
        cases s' with
        | negative => exact absurd hv (value_neg hn f).not_gt
        | positive =>
          obtain ⟨k, t, hk, hcore, hfine, hsmall⟩ :=
            exists_divCore e f hm hn (unpack_finite hx).significand
          have hleft := isLeftOf_quotient (m <<< k) hn
          have hvalue : (Sign.positive.apply m : ℚ) * 2 ^ e / (Sign.positive.apply n * 2 ^ f) =
              ((m <<< k : ℕ) / n : ℚ) * 2 ^ t := by
            have hunit : (2 : ℚ) ^ e = 2 ^ t * 2 ^ k * 2 ^ f := by
              rw [← zpow_natCast, ← zpow_add₀ two_ne_zero, ← zpow_add₀ two_ne_zero]
              congr 1
              omega
            simp only [Sign.apply, Int.cast_natCast]
            rw [hunit, Nat.shiftLeft_eq]
            push_cast
            field_simp
          have hpos : (0 : ℚ) < (m <<< k : ℕ) / n := by
            rw [Nat.shiftLeft_eq]
            positivity
          rw [hvalue] at hspan ⊢
          have hhigh : spacing ((m <<< k) / n) t ≤ 147 :=
            hleft.spacing_le hsmall (by decide) (by exact_mod_cast hspan)
          obtain ⟨q, hnearest, hq⟩ :=
            exists_roundWithAccuracy .positive hleft hfine (by omega)
          refine ⟨_, hnearest.roundsTo hleft hsmall hpos, ?_⟩
          rw [hx, hy]
          simp only [UnpackedFloat.div, hcore]
          simp only [Sign.apply, Int.cast_natCast] at hq
          exact hq

/-! ## Whole numbers as doubles -/

theorem IsExactly.eq_of_whole {x : Float} {n : ℕ} {r : ℚ} (hn : n < 2 ^ 53)
    (hrounded : RoundsTo (n : ℚ) r) (hr : IsExactly x r) : IsExactly x n := by
  have hself : (n : ℚ) = n * 2 ^ (0 : ℤ) := by rw [zpow_zero, mul_one]
  rw [hself] at hrounded
  rwa [hrounded.eq_of_double hn (by decide), ← hself] at hr

theorem isExactly_toFloat {n : ℕ} (hn : n < 2 ^ 53) : IsExactly n.toUInt64.toFloat n := by
  have hcount : n.toUInt64.toNat = n := Nat.mod_eq_of_lt (hn.trans (by decide))
  have hspan : |((n : ℤ) : ℚ) * 2 ^ (0 : ℤ)| < 2 ^ 200 := by
    rw [zpow_zero, mul_one, Int.cast_natCast, Nat.abs_cast]
    have : (n : ℚ) < 2 ^ 53 := by exact_mod_cast hn
    exact this.trans (by norm_num)
  obtain ⟨r, hrounded, hr⟩ := exists_rounded_normalize n 0 .positive hspan
  rw [zpow_zero, mul_one, Int.cast_natCast] at hrounded
  refine IsExactly.eq_of_whole hn hrounded ?_
  show IsExactly (.ofModel (.pack (UnpackedFloat.normalize _ (n.toUInt64.toNat : ℤ) 0 _))) r
  rwa [hcount]

theorem isExactly_ofNat_of_lt {n : ℕ} (hn : n < 2 ^ 53) : IsExactly (Float.ofNat n) n := by
  have hproduct : Float.ofNat n = n.toUInt64.toFloat * 1.0 := by
    show Float.ofScientific n false 0 = _
    rw [Float.ofScientific, dif_pos ⟨hn, by decide⟩]
    rfl
  have hone : IsExactly 1.0 (Sign.positive.apply (2 ^ 52 : ℕ) * 2 ^ (-52 : ℤ)) := by
    exact isExactly_of_finite (show (1.0 : Float).toModel.unpack =
      .finite .positive (2 ^ 52) (-52) (by decide) by rfl)
  have hvalue : (Sign.positive.apply (2 ^ 52 : ℕ) : ℚ) * 2 ^ (-52 : ℤ) = 1 := by
    norm_num [Sign.apply]
  rw [hvalue] at hone
  have hspan : |(n : ℚ) * 1| < 2 ^ 200 := by
    rw [mul_one, Nat.abs_cast]
    have : (n : ℚ) < 2 ^ 53 := by exact_mod_cast hn
    exact this.trans (by norm_num)
  obtain ⟨r, hrounded, hr⟩ := (isExactly_toFloat hn).exists_mul hone hspan
  rw [mul_one] at hrounded
  rw [hproduct]
  exact IsExactly.eq_of_whole hn hrounded hr

/-- A whole number with more digits is rounded to so many. -/
theorem exists_ofNat_of_le {n : ℕ} (hn : 2 ^ 53 ≤ n) (hspan : n < 2 ^ 64) :
    ∃ r, RoundsTo (n : ℚ) r ∧ IsExactly (Float.ofNat n) r := by
  have hmany : Float.ofNat n = .ofModel (.ofScientific n 0) := by
    show Float.ofScientific n false 0 = _
    rw [Float.ofScientific, dif_neg fun hfew => hn.not_gt hfew.1]
    rfl
  have hpos : 0 < n := lt_of_lt_of_le (by decide) hn
  have hlog : (n <<< 53).log2 = n.log2 + 53 := log2_shiftLeft hpos 53
  have hround : Float.Model.ofScientific n 0 =
      .pack (roundWithAccuracy .binary64 .positive (n <<< 53) (0 - (53 : ℕ)) .exact) := by
    have hfew : ¬ (0 : ℤ) < -((2 ^ Format.binary64.exponentBits : ℤ) + n.log2) := by
      show ¬ (0 : ℤ) < -((2 ^ 11 : ℤ) + n.log2)
      omega
    simp only [Float.Model.ofScientific, UnpackedFloat.ofScientific]
    rw [dif_neg hpos.ne', if_neg (by decide), if_neg hfew, if_pos le_rfl, ← Nat.mul_one (n <<< 53)]
    rfl
  have hvalue := apply_shiftLeft_value .positive n 53 0
  have hself : (Sign.positive.apply n : ℚ) * 2 ^ (0 : ℤ) = n := by
    rw [zpow_zero, mul_one]
    rfl
  have hbound : ((n <<< 53 : ℕ) : ℚ) * 2 ^ (0 - (53 : ℕ) : ℤ) < 2 ^ 200 := by
    refine lt_of_eq_of_lt (hvalue.trans hself) ?_
    have : (n : ℚ) < 2 ^ 64 := by exact_mod_cast hspan
    exact this.trans (by norm_num)
  have hfine : 0 - ((53 : ℕ) : ℤ) ≤ spacing (n <<< 53) (0 - (53 : ℕ)) := by
    rw [spacing, hlog]
    omega
  have hm : 0 < n <<< 53 := by
    rw [Nat.shiftLeft_eq]
    positivity
  obtain ⟨r, hrounded, hr⟩ :=
    exists_rounded_of_fine .positive (e := 0 - (53 : ℕ)) hm hfine hbound
  rw [hvalue, hself] at hrounded
  exact ⟨r, hrounded, by rwa [hmany, hround]⟩

theorem exists_ofNat {n : ℕ} (hspan : n < 2 ^ 64) :
    ∃ r, RoundsTo (n : ℚ) r ∧ IsExactly (Float.ofNat n) r := by
  rcases lt_or_ge n (2 ^ 53) with hn | hn
  · have hself := isExactly_ofNat_of_lt hn
    exact ⟨n, hself.roundsTo_self, hself⟩
  · exact exists_ofNat_of_le hn hspan

theorem isExactly_ofNat {n m : ℕ} {e : ℤ} (hspan : n < 2 ^ 64) (hn : (n : ℚ) = m * 2 ^ e)
    (hm : m < 2 ^ 53) (he : -1074 ≤ e) : IsExactly (Float.ofNat n) n := by
  obtain ⟨r, hrounded, hr⟩ := exists_ofNat hspan
  rw [hn] at hrounded
  rwa [hrounded.eq_of_double hm he, ← hn] at hr

theorem exists_natCast_ofNat {n : ℕ} (hspan : n < 2 ^ 64) :
    ∃ c : ℕ, RoundsTo (n : ℚ) c ∧ IsExactly (Float.ofNat n) c := by
  by_cases hsmall : n < 2 ^ 53
  · have hself := isExactly_ofNat_of_lt hsmall
    exact ⟨n, hself.roundsTo_self, hself⟩
  · obtain ⟨r, hrounded, hr⟩ := exists_ofNat hspan
    have hn : (0 : ℚ) ≤ n := Nat.cast_nonneg n
    have hpos := hrounded.nonneg hn
    have hlarge : (2 : ℚ) ^ 53 ≤ r := by
      have hspan : |(n : ℚ)| < 2 ^ (11 + 53 : ℤ) := by
        rw [abs_of_nonneg hn]
        exact_mod_cast hspan
      have hle : ((2 ^ 42 : ℕ) : ℚ) * 2 ^ (11 : ℤ) ≤ |(n : ℚ)| := by
        rw [abs_of_nonneg hn]
        exact_mod_cast not_lt.1 hsmall
      have := hrounded.le_abs 11 (2 ^ 42) (by decide) hspan hle
      rw [abs_of_nonneg hpos] at this
      exact le_trans (by norm_num) this
    obtain ⟨m, e, rfl, hm, -⟩ := hr.exists_double hpos
    -- a significand alone is smaller, so that the exponent is not negative
    have he : 0 ≤ e := by
      by_contra hneg
      have hunit : (2 : ℚ) ^ e ≤ 1 := zpow_le_one_of_nonpos₀ one_le_two (not_le.1 hneg).le
      have hm : (m : ℚ) < 2 ^ 53 := by exact_mod_cast hm
      nlinarith [Nat.cast_nonneg (α := ℚ) m]
    obtain ⟨k, rfl⟩ := Int.eq_ofNat_of_zero_le he
    refine ⟨m * 2 ^ k, ?_, ?_⟩
    · simpa using hrounded
    · simpa using hr

/-! ## Doubles as whole numbers -/

theorem shiftRight_mantissa (m k : ℕ) :
    (ExtendedMantissa.ofMantissaAndAccuracy m .exact >>> k).mantissa = m / 2 ^ k := by
  have hleft := (isLeftOf_exact m).shiftRight k
  have hlow := hleft.mantissa_le
  have hhigh := hleft.lt_mantissa_add_one
  rw [le_div_iff₀ (by positivity)] at hlow
  rw [div_lt_iff₀ (by positivity)] at hhigh
  refine ((Nat.div_eq_iff (by positivity)).2 ⟨?_, ?_⟩).symm
  · exact_mod_cast hlow
  · have : m < ((ExtendedMantissa.ofMantissaAndAccuracy m .exact >>> k).mantissa + 1) * 2 ^ k := by
      exact_mod_cast hhigh
    rw [add_mul, one_mul] at this
    omega

theorem toNat_roundToInt (m : ℕ) (e : ℤ) :
    (roundToInt .positive m e).toNat = ⌊(m : ℚ) * 2 ^ e⌋₊ := by
  have hvalue : (roundToInt .positive m e).toNat =
      (m <<< e.toNat) / 2 ^ (-e).toNat := by
    have hamount : (0 - (e - (e.toNat : ℤ))).toNat = (-e).toNat := by omega
    have hraise : (e - 0).toNat = e.toNat := by rw [sub_zero]
    simp only [roundToInt, decreaseExponent, shiftToExponent, hraise, hamount, Sign.apply,
      Int.toNat_natCast, shiftRight_mantissa]
  rw [hvalue, ← Nat.floor_div_eq_div (K := ℚ), Nat.shiftLeft_eq]
  congr 1
  push_cast
  rcases le_total 0 e with he | he
  · obtain ⟨k, rfl⟩ := Int.eq_ofNat_of_zero_le he
    simp
  · obtain ⟨k, hk⟩ := Int.eq_ofNat_of_zero_le (neg_nonneg.2 he)
    obtain rfl : e = -(k : ℤ) := by omega
    simp [div_eq_mul_inv]

theorem toNat_ofNatClamp (n : ℕ) : (UInt64.ofNatClamp n).toNat = min n maxCount := by
  unfold UInt64.ofNatClamp
  split
  · next h =>
    have : n ≤ maxCount := by
      simp only [UInt64.size, maxCount] at *
      omega
    rw [min_eq_left this]
    exact UInt64.toNat_ofNatLT
  · next h =>
    have : maxCount ≤ n := by
      simp only [UInt64.size, maxCount] at *
      omega
    rw [min_eq_right this]
    rfl

theorem IsExactly.truncate_eq {x : Float} {v : ℚ} (h : IsExactly x v) (hv : 0 ≤ v) :
    truncate x = min ⌊v⌋₊ maxCount := by
  show (UInt64.ofNatClamp (x.toModel.unpack.toInt 0 _).toNat).toNat = _
  rw [toNat_ofNatClamp]
  congr 1
  rcases h.cases with ⟨s, hx, rfl⟩ | ⟨s, m, e, hm, hx, rfl⟩
  · rw [hx, Nat.floor_zero]
    rfl
  · cases s with
    | negative => exact absurd hv (value_neg hm e).not_ge
    | positive =>
      rw [hx]
      simp only [Sign.apply, Int.cast_natCast]
      exact toNat_roundToInt m e

/-- The whole part of a double and what is left are doubles too. -/
theorem exists_floor_double {m : ℕ} {e : ℤ} (hm : m < 2 ^ 53) :
    (⌊(m : ℚ) * 2 ^ e⌋₊ < 2 ^ 53 ∨ (⌊(m : ℚ) * 2 ^ e⌋₊ : ℚ) = m * 2 ^ e) ∧
      ∃ n : ℕ, n ≤ m ∧ (m : ℚ) * 2 ^ e - ⌊(m : ℚ) * 2 ^ e⌋₊ = n * 2 ^ e := by
  rcases le_total 0 e with he | he
  · obtain ⟨k, rfl⟩ := Int.eq_ofNat_of_zero_le he
    have hwhole : (m : ℚ) * 2 ^ (k : ℤ) = (m * 2 ^ k : ℕ) := by simp
    rw [hwhole, Nat.floor_natCast]
    exact ⟨Or.inr rfl, 0, Nat.zero_le m, by simp⟩
  · obtain ⟨k, hk⟩ := Int.eq_ofNat_of_zero_le (neg_nonneg.2 he)
    obtain rfl : e = -(k : ℤ) := by omega
    have hvalue : (m : ℚ) * 2 ^ (-(k : ℤ)) = m / (2 ^ k : ℕ) := by simp [div_eq_mul_inv]
    rw [hvalue, Nat.floor_div_eq_div (K := ℚ)]
    refine ⟨Or.inl ((Nat.div_le_self m _).trans_lt hm), m % 2 ^ k, Nat.mod_le m _, ?_⟩
    have hunit : (2 : ℚ) ^ (-(k : ℤ)) = 1 / (2 ^ k : ℕ) := by simp
    have hpos : (0 : ℚ) < (2 ^ k : ℕ) := by positivity
    have hparts : ((2 ^ k : ℕ) : ℚ) * (m / 2 ^ k : ℕ) + (m % 2 ^ k : ℕ) = m := by
      exact_mod_cast Nat.div_add_mod m (2 ^ k)
    rw [hunit, mul_one_div, sub_eq_iff_eq_add, div_add' _ _ _ hpos.ne', ← hparts]
    ring

theorem IsExactly.sub_floor {x : Float} {v : ℚ} (h : IsExactly x v) (hv : 0 ≤ v)
    (hspan : ⌊v⌋₊ < 2 ^ 64) : IsExactly (x - Float.ofNat ⌊v⌋₊) (v - ⌊v⌋₊) := by
  obtain ⟨m, e, rfl, hm, he⟩ := h.exists_double hv
  obtain ⟨hfew, n, hn, hrest⟩ := exists_floor_double (e := e) hm
  have hwhole : IsExactly (Float.ofNat ⌊(m : ℚ) * 2 ^ e⌋₊) ⌊(m : ℚ) * 2 ^ e⌋₊ := by
    rcases hfew with hfew | hsame
    · exact isExactly_ofNat_of_lt hfew
    · exact isExactly_ofNat hspan hsame hm he
  have hlow := Nat.floor_le hv
  have hhigh := Nat.lt_floor_add_one ((m : ℚ) * 2 ^ e)
  have hsmall : |(m : ℚ) * 2 ^ e - ⌊(m : ℚ) * 2 ^ e⌋₊| < 2 ^ 200 := by
    rw [abs_of_nonneg (by linarith)]
    exact lt_trans (by linarith) (by norm_num : (1 : ℚ) < 2 ^ 200)
  obtain ⟨r, hrounded, hr⟩ := h.exists_sub hwhole hsmall
  rw [hrest] at hrounded ⊢
  rwa [hrounded.eq_of_double (hn.trans_lt hm) he] at hr

theorem IsExactly.round_near {x : Float} {v : ℚ} (h : IsExactly x v) (hv : 0 ≤ v) :
    (round x : ℚ) ≤ v + 1 / 2 ∧ (v ≤ round x + 1 / 2 ∨ round x = maxCount) := by
  have hlow := Nat.floor_le hv
  have hhigh := Nat.lt_floor_add_one v
  have hwhole := h.truncate_eq hv
  rcases le_or_gt maxCount ⌊v⌋₊ with hcap | hfits
  · -- a number beyond the greatest count
    rw [min_eq_right hcap] at hwhole
    have hround : round x = maxCount := by
      simp only [round, hwhole]
      split <;> simp
    have hcap : (maxCount : ℚ) ≤ ⌊v⌋₊ := by exact_mod_cast hcap
    rw [hround]
    exact ⟨by linarith, Or.inr rfl⟩
  · rw [min_eq_left hfits.le] at hwhole
    have hrest := h.sub_floor hv (hfits.trans (by decide))
    have hhalf : IsExactly 0.5 (1 / 2) := by
      have hvalue : (Sign.positive.apply (2 ^ 52 : ℕ) : ℚ) * 2 ^ (-53 : ℤ) = 1 / 2 := by
        norm_num [Sign.apply]
      rw [← hvalue]
      exact isExactly_of_finite (show (0.5 : Float).toModel.unpack =
        .finite .positive (2 ^ 52) (-53) (by decide) by rfl)
    have hup := hhalf.le_iff hrest
    simp only [round, hwhole, ge_iff_le, hup]
    split
    · rw [min_eq_left hfits, Nat.cast_succ]
      exact ⟨by linarith, Or.inl (by linarith)⟩
    · exact ⟨by linarith, Or.inl (by linarith)⟩

end StreetLinking.Number
