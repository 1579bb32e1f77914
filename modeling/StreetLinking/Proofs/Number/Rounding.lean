import Mathlib.Tactic.FieldSimp
import Mathlib.Tactic.Linarith
import Mathlib.Tactic.NormNum
import Mathlib.Tactic.Ring
import StreetLinking.Proofs.Number.Doubles
/-!
# What rounding does to exact results

A finite double is a fraction, and an operation on doubles rounds the exact result to the nearest
fraction that a double can be, of two that are equally near to the one with the even significand.
Main statement: a rounded number keeps the sign, exceeds no multiple of the spacing that the exact
one does not exceed, and exceeds the exact one by half of the spacing at most.
-/

namespace StreetLinking.Number

open Float.Model UnpackedFloat

/-! ## The significand -/

/-- A significand with its two residual bits is what is left of a number: the first residual bit
counts a half, and the second one tells whether anything was cut off below it. -/
def IsLeftOf (em : ExtendedMantissa) (x : ℚ) : Prop :=
  ∃ rest, x = em.mantissa + em.roundBit.toNat / 2 + rest ∧ 0 ≤ rest ∧ rest < 1 / 2 ∧
    (em.stickyBit = true ↔ 0 < rest)

theorem isLeftOf_exact (m : ℕ) :
    IsLeftOf (ExtendedMantissa.ofMantissaAndAccuracy m .exact) m :=
  ⟨0, by simp [ExtendedMantissa.ofMantissaAndAccuracy]⟩

theorem IsLeftOf.shiftRightOne {em : ExtendedMantissa} {x : ℚ} (h : IsLeftOf em x) :
    IsLeftOf em.shiftRightOne (x / 2) := by
  obtain ⟨m, roundBit, stickyBit⟩ := em
  obtain ⟨rest, hx, hlow, hhigh, hsticky⟩ := h
  simp only at hx hsticky
  have hparts : ((m % 2 : ℕ) : ℚ) + 2 * ((m / 2 : ℕ) : ℚ) = m := by
    exact_mod_cast Nat.mod_add_div m 2
  have hbit : (m % 2 != 0).toNat = m % 2 := by
    rcases Nat.mod_two_eq_zero_or_one m with hm | hm <;> simp [hm]
  have hround : (roundBit.toNat : ℚ) ≤ 1 := by exact_mod_cast Bool.toNat_le roundBit
  have hnonneg : (0 : ℚ) ≤ roundBit.toNat := Nat.cast_nonneg _
  refine ⟨roundBit.toNat / 4 + rest / 2, ?_, by linarith, by linarith, ?_⟩
  · simp only [ExtendedMantissa.shiftRightOne, hbit]
    linarith
  · simp only [ExtendedMantissa.shiftRightOne, Bool.or_eq_true, hsticky]
    cases roundBit with
    | false =>
      rw [Bool.toNat_false, Nat.cast_zero, zero_div, zero_add]
      simp only [Bool.false_eq_true, false_or]
      constructor <;> intro hpos <;> linarith
    | true =>
      simp only [true_or, Bool.toNat_true, true_iff]
      linarith

theorem IsLeftOf.shiftRight {em : ExtendedMantissa} {x : ℚ} (h : IsLeftOf em x) (k : ℕ) :
    IsLeftOf (em >>> k) (x / 2 ^ k) := by
  change IsLeftOf (k.repeat ExtendedMantissa.shiftRightOne em) _
  induction k with
  | zero => simpa [Nat.repeat] using h
  | succ k ih =>
    rw [Nat.repeat, pow_succ, ← div_div]
    exact ih.shiftRightOne

@[simp] theorem mantissa_ofMantissaAndAccuracy (m : ℕ) (accuracy : Accuracy) :
    (ExtendedMantissa.ofMantissaAndAccuracy m accuracy).mantissa = m := by
  cases accuracy with
  | exact => rfl
  | inexact position => cases position <;> rfl

theorem IsLeftOf.mantissa_le {em : ExtendedMantissa} {x : ℚ} (h : IsLeftOf em x) :
    em.mantissa ≤ x := by
  obtain ⟨rest, hx, hlow, -, -⟩ := h
  have hround : (0 : ℚ) ≤ em.roundBit.toNat := Nat.cast_nonneg _
  linarith

theorem IsLeftOf.lt_mantissa_add_one {em : ExtendedMantissa} {x : ℚ} (h : IsLeftOf em x) :
    x < em.mantissa + 1 := by
  obtain ⟨rest, hx, -, hhigh, -⟩ := h
  have hround : (em.roundBit.toNat : ℚ) ≤ 1 := by exact_mod_cast Bool.toNat_le em.roundBit
  linarith

section Left

variable {m : ℕ} {accuracy : Accuracy} {x : ℚ}
  (h : IsLeftOf (.ofMantissaAndAccuracy m accuracy) x)

include h

theorem IsLeftOf.le_self : m ≤ x := by
  simpa only [mantissa_ofMantissaAndAccuracy] using h.mantissa_le

theorem IsLeftOf.lt_succ : x < m + 1 := by
  simpa only [mantissa_ofMantissaAndAccuracy] using h.lt_mantissa_add_one

end Left

/-- The whole number next to a number, an even one where two are equally near. -/
structure IsNearestWhole (q : ℕ) (x : ℚ) : Prop where
  floor_le : ∀ c : ℕ, (c : ℚ) ≤ x → c ≤ q
  le : (q : ℚ) ≤ x + 1 / 2
  ge : x ≤ q + 1 / 2
  le_even : ∀ c : ℕ, x ≤ (2 * c : ℕ) + 1 / 2 → q ≤ 2 * c

theorem IsNearestWhole.le_of_le {q : ℕ} {x : ℚ} (h : IsNearestWhole q x) {c : ℕ} (hx : x ≤ c) :
    q ≤ c := by
  have hhalf : (q : ℚ) < c + 1 := by linarith [h.le]
  exact Nat.lt_succ_iff.1 (by exact_mod_cast hhalf)

theorem IsLeftOf.isNearestWhole {em : ExtendedMantissa} {x : ℚ} (h : IsLeftOf em x) :
    IsNearestWhole em.roundedMantissa x := by
  obtain ⟨m, roundBit, stickyBit⟩ := em
  obtain ⟨rest, hx, hlow, hhigh, hsticky⟩ := h
  simp only at hx hsticky
  have hfloor {q : ℕ} (hq : m ≤ q) (c : ℕ) (hc : (c : ℚ) ≤ x) : c ≤ q := by
    have hround : (roundBit.toNat : ℚ) ≤ 1 := by exact_mod_cast Bool.toNat_le roundBit
    have hlt : (c : ℚ) < m + 1 := by linarith
    have : c < m + 1 := by exact_mod_cast hlt
    omega
  cases roundBit with
  | false =>
    simp only [Bool.toNat_false, Nat.cast_zero, zero_div, add_zero] at hx
    have hq : (ExtendedMantissa.mk m false stickyBit).roundedMantissa = m := by
      cases stickyBit <;> rfl
    rw [hq]
    refine ⟨hfloor le_rfl, by linarith, by linarith, fun c hc => ?_⟩
    have hlt : (m : ℚ) < (2 * c : ℕ) + 1 := by linarith
    exact Nat.lt_succ_iff.1 (by exact_mod_cast hlt)
  | true =>
    simp only [Bool.toNat_true, Nat.cast_one] at hx
    cases stickyBit with
    | false =>
      have hrest : rest = 0 := le_antisymm (not_lt.1 fun hpos => by simp [hpos] at hsticky) hlow
      show IsNearestWhole (m + m % 2) x
      refine ⟨hfloor (Nat.le_add_right _ _), ?_, ?_, fun c hc => ?_⟩
      · have hbit : ((m % 2 : ℕ) : ℚ) ≤ 1 := by
          exact_mod_cast Nat.lt_succ_iff.1 (Nat.mod_lt m two_pos)
        push_cast at hbit ⊢
        linarith
      · have hbit : (0 : ℚ) ≤ (m % 2 : ℕ) := Nat.cast_nonneg _
        push_cast at hbit ⊢
        linarith
      · have hle : (m : ℚ) ≤ (2 * c : ℕ) := by linarith
        have : m ≤ 2 * c := by exact_mod_cast hle
        omega
    | true =>
      have hrest : 0 < rest := hsticky.1 rfl
      show IsNearestWhole (m + 1) x
      refine ⟨hfloor (Nat.le_succ m), ?_, ?_, fun c hc => ?_⟩
      · push_cast
        linarith
      · push_cast
        linarith
      · have hlt : (m : ℚ) < (2 * c : ℕ) := by linarith
        exact_mod_cast hlt

/-! ## Significand and exponent -/

theorem targetExponent_eq (m : ℕ) (e : ℤ) :
    Format.binary64.targetExponent (totalExponent m e) = max (m.log2 + e - 52) (-1074) := by
  simp only [Format.targetExponent, totalExponent, Format.mantissaBits, Format.minExponent]
  norm_num
  omega

def spacing (m : ℕ) (e : ℤ) : ℤ :=
  max (m.log2 + e - 52) (-1074)

theorem shift_small {m : ℕ} {e : ℤ} (hm : m < 2 ^ 53) (he : -1074 ≤ e) :
    shiftToTargetExponent .binary64 m e .exact =
      (ExtendedMantissa.ofMantissaAndAccuracy m .exact, e) := by
  have hlog : m.log2 ≤ 52 := by
    by_cases hzero : m = 0
    · simp [hzero]
    · exact Nat.lt_succ_iff.1 ((Nat.log2_lt hzero).2 hm)
  have hstay : (max ((m.log2 : ℤ) + e - 52) (-1074) - e).toNat = 0 := by omega
  simp only [shiftToTargetExponent, targetExponent_eq, shiftToExponent, hstay]
  simp [HShiftRight.hShiftRight, Nat.repeat]

theorem shift_carry {e : ℤ} (he : -1074 ≤ e) :
    shiftToTargetExponent .binary64 (2 ^ 53) e .exact =
      (ExtendedMantissa.ofMantissaAndAccuracy (2 ^ 52) .exact, e + 1) := by
  have hstep : (max (((2 ^ 53 : ℕ).log2 : ℤ) + e - 52) (-1074) - e).toNat = 1 := by
    rw [Nat.log2_two_pow]
    omega
  simp only [shiftToTargetExponent, targetExponent_eq, shiftToExponent, hstep]
  rfl

/-- A rounded significand as a double; it may have become one bit longer. -/
def carry (s : Sign) (q : ℕ) (t : ℤ) : UnpackedFloat :=
  let shifted := shiftToTargetExponent .binary64 q t .exact
  if h : shifted.1.mantissa = 0 then .zero s
  else .finite s shifted.1.mantissa shifted.2 (Nat.pos_of_ne_zero h)

theorem isExactly_carry (s : Sign) {q : ℕ} {t : ℤ} (hspan : q ≤ 2 ^ 53) (hlow : -1074 ≤ t)
    (hhigh : t ≤ 970) (hfull : 2 ^ 52 ≤ q ∨ t = -1074) :
    IsExactly (.ofModel (.pack (carry s q t))) (s.apply q * 2 ^ t) := by
  unfold carry
  rcases hspan.lt_or_eq with hspan | rfl
  · simp only [shift_small hspan hlow]
    split
    · next hzero =>
      obtain rfl : q = 0 := hzero
      have : ((s.apply (0 : ℕ) : ℤ) : ℚ) * 2 ^ t = 0 := by cases s <;> simp [Sign.apply]
      rw [this]
      exact isExactly_zero s
    · exact isExactly_finite s _ ⟨hspan, hlow, by omega, hfull⟩
  · simp only [shift_carry hlow]
    rw [dif_neg (by decide)]
    have hvalue : ((s.apply (2 ^ 53 : ℕ) : ℤ) : ℚ) * 2 ^ t =
        ((s.apply (2 ^ 52 : ℕ) : ℤ) : ℚ) * 2 ^ (t + 1) := by
      rw [zpow_add_one₀ two_ne_zero]
      cases s <;> simp only [Sign.apply] <;> push_cast <;> ring
    rw [hvalue]
    exact isExactly_finite s _ ⟨by decide, by omega, by omega, Or.inl le_rfl⟩

/-- Rounding to a greater exponent leaves the nearest significand, which fits a double. -/
theorem exists_carry (s : Sign) {m : ℕ} {e : ℤ} {accuracy : Accuracy} {x : ℚ}
    (hleft : IsLeftOf (.ofMantissaAndAccuracy m accuracy) x) (hfine : e ≤ spacing m e) :
    ∃ q : ℕ, IsNearestWhole q (x * 2 ^ (e - spacing m e)) ∧ q ≤ 2 ^ 53 ∧
      (2 ^ 52 ≤ q ∨ spacing m e = -1074) ∧
      roundWithAccuracy .binary64 s m e accuracy = carry s q (spacing m e) := by
  obtain ⟨k, hk⟩ : ∃ k : ℕ, spacing m e = e + k := ⟨(spacing m e - e).toNat, by omega⟩
  have hshift : shiftToTargetExponent .binary64 m e accuracy =
      (ExtendedMantissa.ofMantissaAndAccuracy m accuracy >>> k, spacing m e) := by
    have hamount : (max ((m.log2 : ℤ) + e - 52) (-1074) - e).toNat = k := by
      rw [spacing] at hk
      omega
    simp only [shiftToTargetExponent, targetExponent_eq, shiftToExponent, hamount, hk]
  have hround : roundWithAccuracy .binary64 s m e accuracy =
      carry s (ExtendedMantissa.ofMantissaAndAccuracy m accuracy >>> k).roundedMantissa
        (spacing m e) := by
    simp only [roundWithAccuracy, hshift]
    rfl
  have hnearest := (hleft.shiftRight k).isNearestWhole
  rw [hround]
  generalize (ExtendedMantissa.ofMantissaAndAccuracy m accuracy >>> k).roundedMantissa = q
    at hnearest
  have hvalue : x * 2 ^ (e - spacing m e) = x / 2 ^ k := by
    rw [hk, sub_add_cancel_left, zpow_neg, zpow_natCast, div_eq_mul_inv]
  -- the bounds of the significand are those of the number in units of the spacing
  refine ⟨q, hvalue ▸ hnearest, ?_, ?_, rfl⟩
  · refine hnearest.le_of_le ?_
    rw [div_le_iff₀ (by positivity)]
    have hlog : m + 1 ≤ 2 ^ (53 + k) := by
      refine le_trans Nat.lt_log2_self (Nat.pow_le_pow_right two_pos ?_)
      rw [spacing] at hk
      omega
    rw [pow_add] at hlog
    exact hleft.lt_succ.le.trans (by exact_mod_cast hlog)
  · by_cases hleast : spacing m e = -1074
    · exact Or.inr hleast
    · refine Or.inl (hnearest.floor_le _ ?_)
      rw [le_div_iff₀ (by positivity)]
      have hlog : 2 ^ (52 + k) ≤ m := by
        have heq : m.log2 = 52 + k := by
          rw [spacing] at hk hleast
          omega
        have hm : m ≠ 0 := by
          rintro rfl
          rw [Nat.log2_zero] at heq
          omega
        exact heq ▸ Nat.log2_self_le hm
      rw [pow_add] at hlog
      exact le_trans (by exact_mod_cast hlog) hleft.le_self

theorem exists_roundWithAccuracy (s : Sign) {m : ℕ} {e : ℤ} {accuracy : Accuracy} {x : ℚ}
    (hleft : IsLeftOf (.ofMantissaAndAccuracy m accuracy) x) (hfine : e ≤ spacing m e)
    (hhigh : spacing m e ≤ 970) :
    ∃ q : ℕ, IsNearestWhole q (x * 2 ^ (e - spacing m e)) ∧
      IsExactly (.ofModel (.pack (roundWithAccuracy .binary64 s m e accuracy)))
        (s.apply q * 2 ^ spacing m e) := by
  obtain ⟨q, hnearest, hspan, hfull, hround⟩ := exists_carry s hleft hfine
  rw [hround]
  exact ⟨q, hnearest, isExactly_carry s hspan (le_max_right _ _) hhigh hfull⟩

/-! ## Rounding as a relation -/

/-- What holds between an exact result and the double that it is rounded to. As long as a number is
below `2 ^ (k + 53)`, the doubles next to it are `2 ^ k` apart at most. -/
structure RoundsTo (x r : ℚ) : Prop where
  nonneg : 0 ≤ x → 0 ≤ r
  nonpos : x ≤ 0 → r ≤ 0
  abs_le : ∀ (k : ℤ) (c : ℕ), -1074 ≤ k → |x| < 2 ^ (k + 53) → |x| ≤ c * 2 ^ k → |r| ≤ c * 2 ^ k
  le_abs : ∀ (k : ℤ) (c : ℕ), -1074 ≤ k → |x| < 2 ^ (k + 53) → c * 2 ^ k ≤ |x| → c * 2 ^ k ≤ |r|
  abs_le_add : ∀ k : ℤ, -1074 ≤ k → |x| < 2 ^ (k + 53) → |r| ≤ |x| + 2 ^ (k - 1)
  le_abs_add : ∀ k : ℤ, -1074 ≤ k → |x| < 2 ^ (k + 53) → |x| ≤ |r| + 2 ^ (k - 1)
  /-- A number in the middle between a power of two and the next double is rounded down. -/
  abs_le_pow : ∀ k : ℤ, -1074 ≤ k → |x| ≤ 2 ^ (k + 52) + 2 ^ (k - 1) → |r| ≤ 2 ^ (k + 52)

theorem roundsTo_zero : RoundsTo 0 0 where
  nonneg h := h
  nonpos h := h
  abs_le _ _ _ _ h := h
  le_abs _ _ _ _ h := h
  abs_le_add k _ _ := by
    rw [abs_zero, zero_add]
    positivity
  le_abs_add k _ _ := by
    rw [abs_zero, zero_add]
    positivity
  abs_le_pow k _ _ := by
    rw [abs_zero]
    positivity

theorem RoundsTo.neg {x r : ℚ} (h : RoundsTo x r) : RoundsTo (-x) (-r) where
  nonneg hx := neg_nonneg.2 (h.nonpos (neg_nonneg.1 hx))
  nonpos hx := neg_nonpos.2 (h.nonneg (neg_nonpos.1 hx))
  abs_le := by simpa only [abs_neg] using h.abs_le
  le_abs := by simpa only [abs_neg] using h.le_abs
  abs_le_add := by simpa only [abs_neg] using h.abs_le_add
  le_abs_add := by simpa only [abs_neg] using h.le_abs_add
  abs_le_pow := by simpa only [abs_neg] using h.abs_le_pow

section Spacing

variable {m : ℕ} {e : ℤ} {accuracy : Accuracy} {x : ℚ}
  (hleft : IsLeftOf (.ofMantissaAndAccuracy m accuracy) x)

include hleft

theorem IsLeftOf.spacing_le {k : ℤ} (hm : 0 < m ∨ e ≤ -1074) (hk : -1074 ≤ k)
    (hspan : x * 2 ^ e < 2 ^ (k + 53)) : spacing m e ≤ k := by
  rcases Nat.eq_zero_or_pos m with rfl | hpos
  · have he := hm.resolve_left (lt_irrefl 0)
    rw [spacing, Nat.log2_zero]
    omega
  · have hlog : (2 : ℚ) ^ ((m.log2 : ℤ) + e) < 2 ^ (k + 53) := by
      refine lt_of_le_of_lt ?_ hspan
      rw [zpow_add₀ two_ne_zero, zpow_natCast]
      have hlow : (2 : ℚ) ^ m.log2 ≤ x :=
        le_trans (by exact_mod_cast Nat.log2_self_le hpos.ne') hleft.le_self
      gcongr
    have := (zpow_lt_zpow_iff_right₀ one_lt_two).1 hlog
    rw [spacing]
    omega

theorem IsLeftOf.lt_of_spacing : x * 2 ^ e < 2 ^ (spacing m e + 53) := by
  have hlog : x * 2 ^ e < 2 ^ ((m.log2 : ℤ) + 1 + e) := by
    rw [zpow_add₀ two_ne_zero]
    have hhigh : (m : ℚ) + 1 ≤ 2 ^ ((m.log2 : ℤ) + 1) := by
      exact_mod_cast Nat.succ_le_of_lt (Nat.lt_log2_self (n := m))
    have := hleft.lt_succ.trans_le hhigh
    gcongr
  refine lt_of_lt_of_le hlog (zpow_le_zpow_right₀ one_le_two ?_)
  rw [spacing]
  omega

end Spacing

theorem exists_mul_two_zpow (c : ℕ) {t k : ℤ} (ht : t ≤ k) :
    ∃ d : ℕ, (c : ℚ) * 2 ^ k = d * 2 ^ t := by
  obtain ⟨n, rfl⟩ : ∃ n : ℕ, k = t + n := ⟨(k - t).toNat, by omega⟩
  refine ⟨c * 2 ^ n, ?_⟩
  rw [zpow_add₀ two_ne_zero, zpow_natCast]
  push_cast
  ring

section Scaled

variable {q : ℕ} {x : ℚ} {t k : ℤ} (h : IsNearestWhole q (x / 2 ^ t)) (ht : t ≤ k)

include h ht

theorem IsNearestWhole.mul_le {c : ℕ} (hc : x ≤ c * 2 ^ k) : (q : ℚ) * 2 ^ t ≤ c * 2 ^ k := by
  obtain ⟨d, hd⟩ := exists_mul_two_zpow c ht
  rw [hd] at hc ⊢
  have := h.le_of_le ((div_le_iff₀ (by positivity)).2 hc)
  gcongr

theorem IsNearestWhole.le_mul {c : ℕ} (hc : c * 2 ^ k ≤ x) : (c : ℚ) * 2 ^ k ≤ q * 2 ^ t := by
  obtain ⟨d, hd⟩ := exists_mul_two_zpow c ht
  rw [hd] at hc ⊢
  have := h.floor_le _ ((le_div_iff₀ (by positivity)).2 hc)
  gcongr

theorem IsNearestWhole.le_mul_add : x ≤ (q : ℚ) * 2 ^ t + 2 ^ (k - 1) := by
  have hunit : (2 : ℚ) ^ t ≠ 0 := by positivity
  have hhalf : (2 : ℚ) ^ (t - 1) ≤ 2 ^ (k - 1) := zpow_le_zpow_right₀ one_le_two (by omega)
  calc x = x / 2 ^ t * 2 ^ t := (div_mul_cancel₀ _ hunit).symm
    _ ≤ (q + 1 / 2) * 2 ^ t := by gcongr; exact h.ge
    _ = q * 2 ^ t + 2 ^ (t - 1) := by
      rw [zpow_sub_one₀ two_ne_zero, add_mul]
      ring
    _ ≤ q * 2 ^ t + 2 ^ (k - 1) := by gcongr

theorem IsNearestWhole.mul_le_add : (q : ℚ) * 2 ^ t ≤ x + 2 ^ (k - 1) := by
  have hunit : (2 : ℚ) ^ t ≠ 0 := by positivity
  have hhalf : (2 : ℚ) ^ (t - 1) ≤ 2 ^ (k - 1) := zpow_le_zpow_right₀ one_le_two (by omega)
  calc (q : ℚ) * 2 ^ t ≤ (x / 2 ^ t + 1 / 2) * 2 ^ t := by gcongr; exact h.le
    _ = x + 2 ^ (t - 1) := by
      rw [zpow_sub_one₀ two_ne_zero, add_mul, div_mul_cancel₀ _ hunit]
      ring
    _ ≤ x + 2 ^ (k - 1) := by gcongr

theorem IsNearestWhole.mul_le_pow (hspan : x < 2 ^ (t + 53))
    (hle : x ≤ 2 ^ (k + 52) + 2 ^ (k - 1)) : (q : ℚ) * 2 ^ t ≤ 2 ^ (k + 52) := by
  have hpow : (2 : ℚ) ^ (k + 52) = (2 ^ 52 : ℕ) * 2 ^ k := by
    rw [zpow_add₀ two_ne_zero]
    push_cast
    ring
  rcases ht.lt_or_eq with hfine | rfl
  · -- the spacing at the number is smaller, so it does not exceed the power
    rw [hpow]
    refine h.mul_le ht (hpow ▸ hspan.le.trans ?_)
    exact zpow_le_zpow_right₀ one_le_two (by omega)
  · rw [hpow] at hle ⊢
    have heven : q ≤ 2 * 2 ^ 51 := by
      refine h.le_even _ ((div_le_iff₀ (by positivity)).2 (hle.trans_eq ?_))
      rw [zpow_sub_one₀ two_ne_zero]
      push_cast
      ring
    have : q ≤ 2 ^ 52 := heven
    gcongr

end Scaled

theorem IsNearestWhole.roundsTo {m q : ℕ} {e : ℤ} {accuracy : Accuracy} {x : ℚ}
    (hleft : IsLeftOf (.ofMantissaAndAccuracy m accuracy) x) (hm : 0 < m ∨ e ≤ -1074)
    (hpos : 0 < x) (h : IsNearestWhole q (x * 2 ^ (e - spacing m e))) :
    RoundsTo (x * 2 ^ e) (q * 2 ^ spacing m e) := by
  have hhigh : x * 2 ^ e < 2 ^ (spacing m e + 53) := hleft.lt_of_spacing
  have hcoarse (k : ℤ) := hleft.spacing_le (k := k) hm
  rw [zpow_sub₀ two_ne_zero, ← mul_div_assoc] at h
  have hx : 0 < x * 2 ^ e := by positivity
  generalize x * 2 ^ e = x at *
  generalize spacing m e = t at *
  have hr : 0 ≤ (q : ℚ) * 2 ^ t := by positivity
  constructor
  · exact fun _ => hr
  · exact fun hneg => absurd hx (not_lt.2 hneg)
  · rw [abs_of_pos hx, abs_of_nonneg hr]
    exact fun k c hk hspan hc => h.mul_le (hcoarse k hk hspan) hc
  · rw [abs_of_pos hx, abs_of_nonneg hr]
    exact fun k c hk hspan hc => h.le_mul (hcoarse k hk hspan) hc
  · rw [abs_of_pos hx, abs_of_nonneg hr]
    exact fun k hk hspan => h.mul_le_add (hcoarse k hk hspan)
  · rw [abs_of_pos hx, abs_of_nonneg hr]
    exact fun k hk hspan => h.le_mul_add (hcoarse k hk hspan)
  · rw [abs_of_pos hx, abs_of_nonneg hr]
    intro k hk hle
    have hspan : x < 2 ^ (k + 53) := by
      have hstep : (2 : ℚ) ^ (k + 53) = 2 ^ (k + 52) * 2 := by
        rw [← zpow_add_one₀ two_ne_zero]
        congr 1
        omega
      have : (2 : ℚ) ^ (k - 1) < 2 ^ (k + 52) := zpow_lt_zpow_right₀ one_lt_two (by omega)
      linarith
    exact h.mul_le_pow (hcoarse k hk hspan) hhigh hle

theorem isNearestWhole_self (m : ℕ) : IsNearestWhole m m where
  floor_le c hc := by exact_mod_cast hc
  le := by linarith
  ge := by linarith
  le_even c hc := by
    have hlt : (m : ℚ) < (2 * c : ℕ) + 1 := by linarith
    exact Nat.lt_succ_iff.1 (by exact_mod_cast hlt)

theorem IsDouble.spacing_eq {m : ℕ} {e : ℤ} (hm : 0 < m) (h : IsDouble m e) : spacing m e = e := by
  obtain ⟨hsignificand, hlow, -, hfull⟩ := h
  have hlog : m.log2 ≤ 52 := Nat.lt_succ_iff.1 ((Nat.log2_lt hm.ne').2 hsignificand)
  have hnormal (hm' : 2 ^ 52 ≤ m) : 52 ≤ m.log2 := (Nat.le_log2 hm.ne').2 hm'
  rw [spacing]
  omega

theorem roundsTo_apply {x r : ℚ} (s : Sign) {m q : ℕ} (h : RoundsTo (m * x) (q * r)) :
    RoundsTo (s.apply m * x) (s.apply q * r) := by
  cases s with
  | positive => simpa only [Sign.apply, Int.cast_natCast] using h
  | negative => simpa only [Sign.apply, Int.cast_neg, Int.cast_natCast, neg_mul] using h.neg

theorem IsExactly.roundsTo_self {x : Float} {v : ℚ} (h : IsExactly x v) : RoundsTo v v := by
  rcases h.cases with ⟨s, -, rfl⟩ | ⟨s, m, e, hm, hx, rfl⟩
  · exact roundsTo_zero
  · have hsame := (unpack_finite hx).spacing_eq hm
    have hself : IsNearestWhole m (m * 2 ^ (e - spacing m e)) := by
      rw [hsame, sub_self, zpow_zero, mul_one]
      exact isNearestWhole_self m
    have hrounded := hself.roundsTo (isLeftOf_exact m) (Or.inl hm) (by exact_mod_cast hm)
    rw [hsame] at hrounded
    exact roundsTo_apply s hrounded

/-! ## Operations -/

theorem exists_rounded_of_fine (s : Sign) {m : ℕ} {e : ℤ} (hm : 0 < m) (hfine : e ≤ spacing m e)
    (hspan : (m : ℚ) * 2 ^ e < 2 ^ 200) :
    ∃ r, RoundsTo (s.apply m * 2 ^ e) r ∧
      IsExactly (.ofModel (.pack (roundWithAccuracy .binary64 s m e .exact))) r := by
  have hleft := isLeftOf_exact m
  have hhigh : spacing m e ≤ 147 :=
    hleft.spacing_le (Or.inl hm) (by decide) (by exact_mod_cast hspan)
  obtain ⟨q, hnearest, hvalue⟩ := exists_roundWithAccuracy s hleft hfine (by omega)
  have hrounded := hnearest.roundsTo hleft (Or.inl hm) (by exact_mod_cast hm)
  exact ⟨_, roundsTo_apply s hrounded, hvalue⟩

theorem apply_shiftLeft_value (s : Sign) (m k : ℕ) (e : ℤ) :
    (s.apply (m <<< k : ℕ) : ℚ) * 2 ^ (e - k) = s.apply m * 2 ^ e := by
  have hvalue : ((m <<< k : ℕ) : ℚ) * 2 ^ (e - k) = m * 2 ^ e := by
    rw [Nat.shiftLeft_eq, zpow_sub₀ two_ne_zero, zpow_natCast]
    push_cast
    field_simp
  cases s with
  | positive => simpa only [Sign.apply, Int.cast_natCast] using hvalue
  | negative =>
    simpa only [Sign.apply, Int.cast_neg, Int.cast_natCast, neg_mul, neg_inj] using hvalue

theorem log2_shiftLeft {m : ℕ} (hm : 0 < m) (k : ℕ) : (m <<< k).log2 = m.log2 + k := by
  have hlow : 2 ^ m.log2 ≤ m := Nat.log2_self_le hm.ne'
  have hhigh : m < 2 ^ (m.log2 + 1) := Nat.lt_log2_self
  rw [Nat.shiftLeft_eq, Nat.log2_eq_iff (by positivity), Nat.add_right_comm, pow_add, pow_add]
  exact ⟨Nat.mul_le_mul_right _ hlow, Nat.mul_lt_mul_of_pos_right hhigh (by positivity)⟩

theorem exists_round_eq (s : Sign) {m : ℕ} (e : ℤ) (hm : 0 < m) :
    ∃ k : ℕ, UnpackedFloat.round .binary64 s m e =
        roundWithAccuracy .binary64 s (m <<< k) (e - k) .exact ∧
      e - k ≤ spacing (m <<< k) (e - k) ∧ (-1074 ≤ e → -1074 ≤ e - k) := by
  obtain ⟨k, hk⟩ : ∃ k : ℕ, k = (e - spacing m e).toNat := ⟨_, rfl⟩
  refine ⟨k, ?_, ?_, fun hlow => ?_⟩
  · simp only [UnpackedFloat.round, targetExponent_eq, decreaseExponent, hk, spacing]
  · rw [spacing] at hk ⊢
    rw [log2_shiftLeft hm]
    omega
  · have hleast : -1074 ≤ spacing m e := le_max_right _ _
    omega

theorem exists_rounded_round (s : Sign) {m : ℕ} {e : ℤ} (hm : 0 < m)
    (hspan : (m : ℚ) * 2 ^ e < 2 ^ 200) :
    ∃ r, RoundsTo (s.apply m * 2 ^ e) r ∧
      IsExactly (.ofModel (.pack (UnpackedFloat.round .binary64 s m e))) r := by
  obtain ⟨k, hround, hfine, -⟩ := exists_round_eq s e hm
  have hvalue : ((m <<< k : ℕ) : ℚ) * 2 ^ (e - k) = m * 2 ^ e := by
    simpa only [Sign.apply, Int.cast_natCast] using apply_shiftLeft_value .positive m k e
  obtain ⟨r, hrounded, hr⟩ := exists_rounded_of_fine s (m := m <<< k) (e := e - k)
    (by rw [Nat.shiftLeft_eq]; positivity) hfine (by rw [hvalue]; exact hspan)
  exact ⟨r, apply_shiftLeft_value s m k e ▸ hrounded, hround ▸ hr⟩

theorem exists_rounded_normalize (m : ℤ) (e : ℤ) (zeroSign : Sign)
    (hspan : |(m : ℚ) * 2 ^ e| < 2 ^ 200) :
    ∃ r, RoundsTo (m * 2 ^ e) r ∧
      IsExactly (.ofModel (.pack (UnpackedFloat.normalize .binary64 m e zeroSign))) r := by
  have hunit : (0 : ℚ) < 2 ^ e := by positivity
  rw [abs_mul, abs_of_pos hunit] at hspan
  unfold UnpackedFloat.normalize
  rcases lt_trichotomy m 0 with hm | rfl | hm
  · obtain ⟨n, rfl⟩ : ∃ n : ℕ, m = -n := ⟨(-m).toNat, by omega⟩
    rw [Int.compare_eq_lt.2 hm]
    have hn : |((-n : ℤ) : ℚ)| = n := by
      rw [Int.cast_neg, abs_neg, Int.cast_natCast, Nat.abs_cast]
    show ∃ r, RoundsTo _ r ∧
      IsExactly (.ofModel (.pack (UnpackedFloat.round .binary64 .negative (- -(n : ℤ)).toNat e))) r
    rw [neg_neg, Int.toNat_natCast]
    exact exists_rounded_round .negative (by omega) (hn ▸ hspan)
  · refine ⟨0, ?_, isExactly_zero zeroSign⟩
    rw [Int.cast_zero, zero_mul]
    exact roundsTo_zero
  · obtain ⟨n, rfl⟩ : ∃ n : ℕ, m = n := ⟨m.toNat, by omega⟩
    rw [Int.compare_eq_gt.2 hm]
    have hn : |((n : ℤ) : ℚ)| = n := by rw [Int.cast_natCast, Nat.abs_cast]
    exact exists_rounded_round .positive (by omega) (hn ▸ hspan)

theorem decreaseExponent_value (s : Sign) (m : ℕ) {e t : ℤ} (ht : t ≤ e) :
    (s.apply (decreaseExponent m e t).1 : ℚ) * 2 ^ t = s.apply m * 2 ^ e := by
  have hvalue := apply_shiftLeft_value s m (e - t).toNat e
  rw [show e - ((e - t).toNat : ℤ) = t by omega] at hvalue
  exact hvalue

section Arithmetic

variable {a b : Float} {u v : ℚ} (ha : IsExactly a u) (hb : IsExactly b v)

include ha hb

theorem IsExactly.exists_add (hspan : |u + v| < 2 ^ 200) :
    ∃ r, RoundsTo (u + v) r ∧ IsExactly (a + b) r := by
  rcases ha.cases with ⟨s, hx, rfl⟩ | ⟨s, m, e, hm, hx, rfl⟩
  · rw [zero_add]
    exact ⟨v, hb.roundsTo_self, hb.add_of_zero hx⟩
  · rcases hb.cases with ⟨s', hy, rfl⟩ | ⟨s', m', e', hm', hy, rfl⟩
    · rw [add_zero, floatAdd_comm]
      exact ⟨_, ha.roundsTo_self, ha.add_of_zero hy⟩
    · have hsum : (s.apply m : ℚ) * 2 ^ e + s'.apply m' * 2 ^ e' =
          (s.apply (decreaseExponent m e (min e e')).1 +
            s'.apply (decreaseExponent m' e' (min e e')).1 : ℤ) * 2 ^ min e e' := by
        rw [Int.cast_add, add_mul, decreaseExponent_value s m (min_le_left e e'),
          decreaseExponent_value s' m' (min_le_right e e')]
      rw [hsum] at hspan ⊢
      show ∃ r, RoundsTo _ r ∧
        IsExactly (.ofModel (.pack (UnpackedFloat.add _ a.toModel.unpack b.toModel.unpack))) r
      rw [hx, hy]
      exact exists_rounded_normalize _ _ .positive hspan

theorem IsExactly.exists_sub (hspan : |u - v| < 2 ^ 200) :
    ∃ r, RoundsTo (u - v) r ∧ IsExactly (a - b) r := by
  rw [sub_eq_add_neg] at hspan ⊢
  rw [floatSub_eq_add_neg]
  exact ha.exists_add hb.neg hspan

theorem IsExactly.exists_mul (hspan : |u * v| < 2 ^ 200) :
    ∃ r, RoundsTo (u * v) r ∧ IsExactly (a * b) r := by
  show ∃ r, RoundsTo (u * v) r ∧
    IsExactly (.ofModel (.pack (UnpackedFloat.mul _ a.toModel.unpack b.toModel.unpack))) r
  rcases ha.cases with ⟨s, hx, rfl⟩ | ⟨s, m, e, hm, hx, rfl⟩
  · refine ⟨0, by rw [zero_mul]; exact roundsTo_zero, ?_⟩
    rcases hb.cases with ⟨s', hy, rfl⟩ | ⟨s', m', e', hm', hy, rfl⟩ <;>
    · rw [hx, hy]
      exact isExactly_zero (s * s')
  · rcases hb.cases with ⟨s', hy, rfl⟩ | ⟨s', m', e', hm', hy, rfl⟩
    · refine ⟨0, by rw [mul_zero]; exact roundsTo_zero, ?_⟩
      rw [hx, hy]
      exact isExactly_zero (s * s')
    · have hproduct : (s.apply m : ℚ) * 2 ^ e * (s'.apply m' * 2 ^ e') =
          (s * s').apply (m * m' : ℕ) * 2 ^ (e + e') := by
        rw [zpow_add₀ two_ne_zero, ← apply_mul_apply, Int.cast_mul]
        ring
      have hfine : e + e' ≤ spacing (m * m') (e + e') := by
        have hleast := unpack_finite hx
        have hleast' := unpack_finite hy
        rw [spacing]
        rcases hleast.full with hfull | rfl
        · have := (Nat.le_log2 (Nat.mul_pos hm hm').ne').2
            (hfull.trans (Nat.le_mul_of_pos_right m hm'))
          omega
        · rcases hleast'.full with hfull | rfl
          · have := (Nat.le_log2 (Nat.mul_pos hm hm').ne').2
              (hfull.trans (Nat.le_mul_of_pos_left m' hm))
            omega
          · omega
      rw [hproduct] at hspan ⊢
      rw [hx, hy]
      refine exists_rounded_of_fine (s * s') (Nat.mul_pos hm hm') hfine ?_
      rw [← abs_apply (s * s') (m * m')]
      rwa [abs_mul, abs_of_pos (show (0 : ℚ) < 2 ^ (e + e') by positivity)] at hspan

end Arithmetic

/-- A number that is at most as great as a double is not rounded past it. -/
theorem IsExactly.abs_le_of_rounded {b : Float} {v x r : ℚ} (hb : IsExactly b v) (h : RoundsTo x r)
    (hle : |x| ≤ |v|) : |r| ≤ |v| := by
  rcases hb.cases with ⟨s, -, rfl⟩ | ⟨s, m, e, hm, hunpack, rfl⟩
  · have hspan : |x| < 2 ^ (-1074 + 53 : ℤ) := by
      rw [abs_zero] at hle
      exact lt_of_le_of_lt hle (by positivity)
    simpa using h.abs_le (-1074) 0 le_rfl hspan (by simpa using hle)
  · obtain ⟨hsignificand, hlow, -, -⟩ := unpack_finite hunpack
    have hv : |(s.apply m : ℚ) * 2 ^ e| = m * 2 ^ e := by
      rw [abs_mul, abs_of_pos (show (0 : ℚ) < 2 ^ e by positivity), abs_apply]
    rw [hv] at hle ⊢
    refine h.abs_le e m hlow (lt_of_le_of_lt hle ?_) hle
    rw [add_comm, zpow_add₀ two_ne_zero]
    have : (m : ℚ) < 2 ^ (53 : ℤ) := by exact_mod_cast hsignificand
    gcongr

end StreetLinking.Number
