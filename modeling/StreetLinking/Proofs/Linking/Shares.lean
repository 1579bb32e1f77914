import StreetLinking.Proofs.Linking.Apportioning
import StreetLinking.Proofs.Plane.Lengths
/-!
# Shares of two lengths

A share is the whole part of a quotient of doubles, and the sums in the quotient were rounded once
for each segment of a line. Main statement: where two lengths are apportioned by sums that are
rounded from the same ones, the shares of a part are one apart at most, and what the lengths are
apart, and so are the rests.
-/

namespace StreetLinking.Linking

open Number Plane

/-! ## Shares -/

section Share

variable {total n : ℕ} {part sum : Float} {f s : ℚ}

theorem approximates_ofNat_mul (htotal : total ≤ maxCount) (hpart : Approximates n part f)
    (hn : n ≤ 2 ^ 49) (hspan : f < 2 ^ 100) :
    Approximates (n + 2) (Float.ofNat total * part) (total * f) := by
  have hf := hpart.nonneg
  have hcount : (total : ℚ) ≤ 2 ^ 64 := by
    have : total ≤ 2 ^ 64 := htotal.trans (by decide)
    exact_mod_cast this
  obtain ⟨c, hc, htotal'⟩ := exists_approximates_ofNat (n := total) (htotal.trans_lt (by decide))
  obtain ⟨u, hu, hu0, hpart'⟩ := hpart
  have hexact := htotal'.mul hpart' (Nat.cast_nonneg c) hu0
  have hspan : c * u < (2 : ℚ) ^ 200 := by
    calc c * u ≤ 2 * (total * f) :=
          hexact.le_two_mul (mul_nonneg (Nat.cast_nonneg c) hu0) (by omega)
      _ ≤ 2 * (2 ^ 64 * 2 ^ 100) := by gcongr
      _ < 2 ^ 200 := by norm_num
  obtain ⟨x, hx, hx0, hrounded⟩ :=
    hc.mul_whole hu (Nat.cast_nonneg c) hu0 (Or.inl ⟨c, rfl⟩) hspan
  have hall := hrounded.trans hexact
  rw [show 1 + (1 + n) = n + 2 by omega] at hall
  exact ⟨x, hx, hx0, hall⟩

variable (htotal : total ≤ maxCount) (hpart : Approximates n part f)
  (hsum : Approximates (n + 1) sum s) (hs : 0 < s) (hle : f ≤ s) (hn : n ≤ 2 ^ 49)
  (hspan : f < 2 ^ 100)

include htotal hpart hsum hs hle hn hspan

theorem exists_quotient :
    ∃ r, IsExactly (Float.ofNat total * part / sum) r ∧ 0 ≤ r ∧
      |r - total * (f / s)| ≤ (2 * n + 4 : ℕ) / 2 ^ 51 * total + 2 ^ (-1021 : ℤ) := by
  have hratio : f / s ≤ 1 := (div_le_one hs).2 hle
  have hexact : 0 ≤ total * (f / s) :=
    mul_nonneg (Nat.cast_nonneg total) (div_nonneg hpart.nonneg hs.le)
  have hwhole : total * (f / s) ≤ total := mul_le_of_le_one_right (Nat.cast_nonneg total) hratio
  have hsmall : total * f / s < (2 : ℚ) ^ 150 := by
    have hcount : (total : ℚ) ≤ 2 ^ 64 := by
      have : total ≤ 2 ^ 64 := htotal.trans (by decide)
      exact_mod_cast this
    rw [mul_div_assoc]
    exact (hwhole.trans hcount).trans_lt (by norm_num)
  obtain ⟨r, hr, hr0, hnear⟩ :=
    (approximates_ofNat_mul htotal hpart hn hspan).div hsum hs (by omega) hsmall
  rw [mul_div_assoc] at hnear
  refine ⟨r, hr, hr0, ?_⟩
  have hunit : (0 : ℚ) < 2 ^ (-1021 : ℤ) := by positivity
  rcases hnear with hwithin | ⟨hr, hx⟩
  · rw [show n + 2 + (n + 1) + 1 = 2 * n + 4 by omega] at hwithin
    have hclose := hwithin.abs_sub_le hr0 (by omega)
    refine hclose.trans (le_add_of_le_of_nonneg ?_ hunit.le)
    gcongr
    exact (min_le_right _ _).trans hwhole
  · have hless : (2 : ℚ) ^ (-1022 : ℤ) ≤ 2 ^ (-1021 : ℤ) :=
      zpow_le_zpow_right₀ one_le_two (by decide)
    have hrest : (0 : ℚ) ≤ (2 * n + 4 : ℕ) / 2 ^ 51 * total := by positivity
    rw [abs_sub_le_iff]
    constructor <;> linarith

/-- The share of a part is the whole part of a number near to the exact share. -/
theorem exists_share :
    ∃ p : ℚ, share total part sum = ⌊p⌋₊ ∧ 0 ≤ p ∧
      |p - total * (f / s)| ≤ (2 * n + 4 : ℕ) / 2 ^ 51 * total + 2 ^ (-1021 : ℤ) := by
  obtain ⟨r, hr, hr0, herror⟩ := exists_quotient htotal hpart hsum hs hle hn hspan
  have hwhole : total * (f / s) ≤ total :=
    mul_le_of_le_one_right (Nat.cast_nonneg total) ((div_le_one hs).2 hle)
  refine ⟨min r total, ?_, le_min hr0 (Nat.cast_nonneg total), ?_⟩
  · rw [share, hr.truncate_eq hr0, min_assoc, min_eq_right htotal]
    rcases le_total r total with hle | hle
    · rw [min_eq_left hle]
      exact min_eq_left (Nat.floor_le_of_le hle)
    · rw [min_eq_right hle, Nat.floor_natCast]
      exact min_eq_right (Nat.le_floor hle)
  · -- the exact share is no more than the whole, so that the smaller number is nearer to it
    rcases le_total r total with hle | hle
    · rwa [min_eq_left hle]
    · rw [min_eq_right hle, abs_of_nonneg (sub_nonneg.2 hwhole)]
      rw [abs_of_nonneg (sub_nonneg.2 (hwhole.trans hle))] at herror
      linarith

end Share

/-! ## Shares of two lengths -/

theorem errors_le {S T n : ℕ} (hlength : 0 < S + T) (hn : 0 < n) :
    (2 * n + 4 : ℕ) / 2 ^ 51 * (S : ℚ) + 2 ^ (-1021 : ℤ) +
        ((2 * n + 4 : ℕ) / 2 ^ 51 * (T : ℚ) + 2 ^ (-1021 : ℤ)) ≤
      ((n + 1) * (S + T) : ℕ) / (2 ^ 49 : ℕ) := by
  have htiny : (2 : ℚ) ^ (-1021 : ℤ) ≤ 1 / 2 ^ 51 := by
    rw [one_div, ← zpow_natCast, ← zpow_neg]
    exact zpow_le_zpow_right₀ one_le_two (by decide)
  have hpos : (1 : ℚ) ≤ n * (S + T) := by
    exact_mod_cast Nat.mul_pos hn hlength
  generalize (2 : ℚ) ^ (-1021 : ℤ) = tiny at htiny ⊢
  push_cast
  linarith

theorem floor_near {p x δ : ℚ} (hp : 0 ≤ p) (h : |p - x| ≤ δ) :
    x - δ - 1 ≤ ⌊p⌋₊ ∧ ⌊p⌋₊ ≤ x + δ := by
  obtain ⟨hup, hdown⟩ := abs_sub_le_iff.1 h
  have hlow := Nat.floor_le hp
  have hhigh := Nat.lt_floor_add_one p
  constructor <;> linarith

/-- Numbers near to the same share of two lengths have whole parts that are no further apart than
the lengths, up to one and their errors, and so are what these leave of the lengths. -/
theorem dist_floor_le {S T m d : ℕ} {p p' ratio δ δ' : ℚ} (hp : 0 ≤ p) (hp' : 0 ≤ p')
    (hnear : |p - S * ratio| ≤ δ) (hnear' : |p' - T * ratio| ≤ δ') (hratio : 0 ≤ ratio)
    (hone : ratio ≤ 1) (hd : 0 < d) (herrors : δ + δ' ≤ m / d) :
    Nat.dist ⌊p⌋₊ ⌊p'⌋₊ ≤ 1 + Nat.dist S T + m / d ∧
      (⌊p⌋₊ ≤ S → ⌊p'⌋₊ ≤ T → Nat.dist (S - ⌊p⌋₊) (T - ⌊p'⌋₊) ≤ 1 + Nat.dist S T + m / d) := by
  have hapart := abs_sub_natCast S T
  obtain ⟨hlow, hhigh⟩ := floor_near hp hnear
  obtain ⟨hlow', hhigh'⟩ := floor_near hp' hnear'
  constructor
  · have hpart : |S * ratio - T * ratio| ≤ Nat.dist S T := by
      rw [← sub_mul, abs_mul, abs_of_nonneg hratio, ← hapart]
      exact mul_le_of_le_one_right (abs_nonneg _) hone
    rw [abs_sub_le_iff] at hpart
    refine natDist_le hd ?_
    rw [abs_sub_le_iff, Nat.cast_add, Nat.cast_one]
    constructor <;> linarith
  · intro hle hle'
    have hrest : |S * (1 - ratio) - T * (1 - ratio)| ≤ Nat.dist S T := by
      rw [← sub_mul, abs_mul, abs_of_nonneg (sub_nonneg.2 hone), ← hapart]
      exact mul_le_of_le_one_right (abs_nonneg _) (sub_le_self 1 hratio)
    rw [abs_sub_le_iff] at hrest
    refine natDist_le hd ?_
    rw [abs_sub_le_iff, Nat.cast_add, Nat.cast_one, Nat.cast_sub hle, Nat.cast_sub hle']
    constructor <;> linarith

section TwoLengths

variable {S T n : ℕ} {a b c d : Float} {f g : ℚ} (hS : S ≤ maxCount) (hT : T ≤ maxCount)
  (ha : Approximates n a f) (hb : Approximates n b g) (hc : Approximates n c f)
  (hd : Approximates n d g) (hpos : 0 < f + g) (hn : 0 < n) (hfew : n ≤ 2 ^ 49)
  (hspan : f + g < 2 ^ 100)

include hS hT ha hb hc hd hpos hn hfew hspan

theorem dist_share_le :
    Nat.dist (share S a (a + b)) (share T c (d + c)) ≤
        1 + Nat.dist S T + leeway (n + 1) S T ∧
      Nat.dist (S - share S a (a + b)) (T - share T c (d + c)) ≤
        1 + Nat.dist S T + leeway (n + 1) S T := by
  have hsum := ha.add hb (by omega) (hspan.trans (by norm_num))
  have hsum' := hd.add hc (by omega) (by rw [add_comm]; exact hspan.trans (by norm_num))
  rw [add_comm g f] at hsum'
  have hf := ha.nonneg
  have hle : f ≤ f + g := le_add_of_nonneg_right hb.nonneg
  have hfspan : f < 2 ^ 100 := hle.trans_lt hspan
  obtain ⟨p, hp, hp0, hnear⟩ := exists_share hS ha hsum hpos hle hfew hfspan
  obtain ⟨p', hp', hp0', hnear'⟩ := exists_share hT hc hsum' hpos hle hfew hfspan
  have hshare := share_le S a (a + b)
  have hshare' := share_le T c (d + c)
  rcases Nat.eq_zero_or_pos (S + T) with hnone | hsome
  · -- without any length there is nothing to share
    unfold Nat.dist
    omega
  · have hratio : 0 ≤ f / (f + g) := div_nonneg hf hpos.le
    have hone : f / (f + g) ≤ 1 := (div_le_one hpos).2 hle
    obtain ⟨hpart, hrest⟩ := dist_floor_le hp0 hp0' hnear hnear' hratio hone (by positivity)
      (errors_le hsome hn)
    rw [← hp, ← hp'] at hpart hrest
    exact ⟨hpart, hrest hshare hshare'⟩

/-- The edges of a street, which see the parts in opposite orders, apportion lengths to them that
are no further apart than their own. -/
theorem dist_apportion_le :
    Nat.dist (apportion S a b false).1 (apportion T d c true).2 ≤
        1 + Nat.dist S T + leeway (n + 1) S T ∧
      Nat.dist (apportion S a b false).2 (apportion T d c true).1 ≤
        1 + Nat.dist S T + leeway (n + 1) S T := by
  have hforward : 0.0 < a + b := (ha.add_pos_iff hb).2 hpos
  have hback : 0.0 < d + c := (hd.add_pos_iff hc).2 (add_comm f g ▸ hpos)
  rw [apportion_of_pos false hforward, apportion_of_pos true hback, if_neg Bool.false_ne_true,
    if_pos rfl]
  exact dist_share_le hS hT ha hb hc hd hpos hn hfew hspan

end TwoLengths

end StreetLinking.Linking
