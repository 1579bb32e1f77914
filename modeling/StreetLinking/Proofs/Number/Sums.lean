import StreetLinking.Proofs.Number.Fractions
/-!
# The sign of a sum

The sum of two doubles is a whole multiple of the smallest positive double, so that rounding never
takes its sign away. Main statement: a sum is positive just if one term exceeds the negative of the
other, also where it is infinite or undefined.
-/

namespace StreetLinking.Number

open Float.Model UnpackedFloat

/-! ## The sign of a rounded number -/

def HasSign (s : Sign) : UnpackedFloat → Prop
  | .finite t _ _ _ | .infinity t => t = s
  | .zero _ | .notANumber => False

theorem HasSign.eq {s t : Sign} {u : UnpackedFloat} (hs : HasSign s u) (ht : HasSign t u) :
    s = t := by
  cases u with
  | notANumber => exact hs.elim
  | zero _ => exact hs.elim
  | infinity _ => exact hs.symm.trans ht
  | finite _ _ _ _ => exact hs.symm.trans ht

theorem pos_iff_hasSign {x : Float} : 0.0 < x ↔ HasSign .positive x.toModel.unpack := by
  have hzero : (0.0 : Float).toModel.unpack = .zero .positive := by rfl
  rw [floatLT_iff_compare, hzero]
  cases x.toModel.unpack with
  | notANumber => exact iff_of_false nofun id
  | zero s => exact iff_of_false nofun id
  | infinity s => cases s <;> simp [UnpackedFloat.compare, HasSign]
  | finite s m e hm => cases s <;> simp [UnpackedFloat.compare, HasSign]

/-- Packing keeps the sign, also where it makes a significand with a large exponent infinite. -/
theorem hasSign_pack (s : Sign) {m : ℕ} {e : ℤ} (hm : 0 < m) (hsignificand : m < 2 ^ 53)
    (hlow : -1074 ≤ e) (hfull : 2 ^ 52 ≤ m ∨ e = -1074) :
    HasSign s (Float.Model.pack (.finite s m e hm)).unpack := by
  by_cases hhigh : e ≤ 971
  · rw [unpack_pack s hm ⟨hsignificand, hlow, hhigh, hfull⟩]
    rfl
  · have hbeyond : 2 ^ Format.binary64.exponentBits ≤
        (e + Format.binary64.exponentBias +
          Format.binary64.mantissaBitsWithoutImplicit).toNat + 1 := by
      simp only [Format.exponentBias]
      omega
    show HasSign s (UnpackedFloat.unpack _ (UnpackedFloat.pack _ (.finite s m e hm)))
    simp only [UnpackedFloat.pack]
    rw [if_pos hbeyond]
    cases s <;> rfl

theorem hasSign_carry (s : Sign) {q : ℕ} {t : ℤ} (hq : 0 < q) (hspan : q ≤ 2 ^ 53)
    (hlow : -1074 ≤ t) (hfull : 2 ^ 52 ≤ q ∨ t = -1074) :
    HasSign s (Float.Model.pack (carry s q t)).unpack := by
  unfold carry
  rcases hspan.lt_or_eq with hspan | rfl
  · simp only [shift_small hspan hlow]
    rw [dif_neg (by exact hq.ne')]
    exact hasSign_pack s hq hspan hlow hfull
  · -- the significand has become one bit longer
    simp only [shift_carry hlow]
    rw [dif_neg (by decide)]
    exact hasSign_pack s _ (by decide) (by omega) (Or.inl le_rfl)

theorem hasSign_round (s : Sign) {m : ℕ} {e : ℤ} (hm : 0 < m) (hlow : -1074 ≤ e) :
    HasSign s (Float.Model.pack (UnpackedFloat.round .binary64 s m e)).unpack := by
  obtain ⟨k, hround, hfine, hleast⟩ := exists_round_eq s e hm
  have hlow := hleast hlow
  have hm : 0 < m <<< k := by
    rw [Nat.shiftLeft_eq]
    positivity
  rw [hround]
  generalize m <<< k = n at *
  generalize e - k = f at *
  obtain ⟨q, hnearest, hspan, hfull, hcarry⟩ := exists_carry s (isLeftOf_exact n) hfine
  have hq : 0 < q := by
    rcases hfull with hfull | hexponent
    · exact lt_of_lt_of_le (by decide) hfull
    · -- the exponent is the least one already, so that no bit is cut off
      have hsame : f - spacing n f = 0 := by omega
      rw [hsame, zpow_zero, mul_one] at hnearest
      exact hnearest.floor_le 1 (by exact_mod_cast hm)
  rw [hcarry]
  exact hasSign_carry s hq hspan (le_max_right _ _) hfull

theorem hasSign_normalize_iff {m e : ℤ} (zeroSign : Sign) (hlow : -1074 ≤ e) :
    HasSign .positive (Float.Model.pack (UnpackedFloat.normalize .binary64 m e zeroSign)).unpack ↔
      0 < m := by
  unfold UnpackedFloat.normalize
  rcases lt_trichotomy m 0 with hm | rfl | hm
  · rw [Int.compare_eq_lt.2 hm]
    refine iff_of_false (fun hpositive => ?_) hm.asymm
    exact nomatch hpositive.eq (hasSign_round .negative (m := (-m).toNat) (by omega) hlow)
  · rw [Int.compare_eq_eq.2 rfl]
    refine iff_of_false ?_ (lt_irrefl 0)
    show ¬ HasSign .positive (Float.Model.pack (.zero zeroSign)).unpack
    cases zeroSign <;> exact id
  · rw [Int.compare_eq_gt.2 hm]
    exact iff_of_true (hasSign_round .positive (m := m.toNat) (by omega) hlow) hm

/-! ## Sums -/

theorem IsExactly.pos_iff {x : Float} {v : ℚ} (h : IsExactly x v) : 0.0 < x ↔ 0 < v := by
  have hzero : IsExactly 0.0 0 := by rfl
  exact hzero.lt_iff h

theorem IsExactly.add_pos_iff {a b : Float} {u v : ℚ} (ha : IsExactly a u) (hb : IsExactly b v) :
    0.0 < a + b ↔ 0 < u + v := by
  rcases ha.cases with ⟨s, hx, rfl⟩ | ⟨s, m, e, hm, hx, rfl⟩
  · rw [zero_add]
    exact (hb.add_of_zero hx).pos_iff
  · rcases hb.cases with ⟨s', hy, rfl⟩ | ⟨s', m', e', hm', hy, rfl⟩
    · rw [add_zero, floatAdd_comm]
      exact (ha.add_of_zero hy).pos_iff
    · have hlow : -1074 ≤ min e e' := le_min (unpack_finite hx).low (unpack_finite hy).low
      have hunit : (0 : ℚ) < 2 ^ min e e' := by positivity
      rw [pos_iff_hasSign, ← decreaseExponent_value s m (min_le_left e e'),
        ← decreaseExponent_value s' m' (min_le_right e e'), ← add_mul, ← Int.cast_add,
        mul_pos_iff_of_pos_right hunit, Int.cast_pos]
      show HasSign .positive
        (Float.Model.pack (UnpackedFloat.add _ a.toModel.unpack b.toModel.unpack)).unpack ↔ _
      rw [hx, hy]
      exact hasSign_normalize_iff .positive hlow

theorem compare_infinity_iff {u : UnpackedFloat} (hu : u.isFinite = true) (s : Sign) :
    u.compare (.infinity s) = some .lt ↔ s = .positive := by
  cases u with
  | notANumber => cases hu
  | infinity t => cases hu
  | zero t => cases s <;> simp [UnpackedFloat.compare]
  | finite t m e hm => cases s <;> simp [UnpackedFloat.compare]

theorem neg_infinity_compare_iff {u : UnpackedFloat} (hu : u.isFinite = true) (s : Sign) :
    (UnpackedFloat.infinity s).neg.compare u = some .lt ↔ s = .positive := by
  cases u with
  | notANumber => cases hu
  | infinity t => cases hu
  | zero t => cases s <;> simp [UnpackedFloat.neg, UnpackedFloat.compare]
  | finite t m e hm => cases s <;> simp [UnpackedFloat.neg, UnpackedFloat.compare]

theorem hasSign_add_iff {a b : UnpackedFloat} (h : a.isFinite = false ∨ b.isFinite = false) :
    HasSign .positive (Float.Model.pack (a.add .binary64 b)).unpack ↔
      b.neg.compare a = some .lt := by
  have hundefined : ¬ HasSign .positive (Float.Model.pack .notANumber).unpack := id
  have hinfinite (s : Sign) :
      HasSign .positive (Float.Model.pack (.infinity s)).unpack ↔ s = .positive := by
    cases s <;> exact Iff.rfl
  cases a with
  | notANumber =>
    rw [compare_eq_none (Or.inr rfl)]
    exact iff_of_false hundefined nofun
  | infinity s =>
    cases b with
    | notANumber => exact iff_of_false hundefined nofun
    | infinity t =>
      -- where the signs differ the sum is undefined, and one term is the negative of the other
      cases s <;> cases t
      · exact (hinfinite _).trans (iff_of_false nofun (by decide))
      · exact iff_of_false hundefined (by decide)
      · exact iff_of_false hundefined (by decide)
      · exact (hinfinite _).trans (iff_of_true rfl rfl)
    | zero t => exact (hinfinite s).trans (compare_infinity_iff rfl s).symm
    | finite t n f hn => exact (hinfinite s).trans (compare_infinity_iff rfl s).symm
  | zero s =>
    cases b with
    | notANumber => exact iff_of_false hundefined nofun
    | infinity t => exact (hinfinite t).trans (neg_infinity_compare_iff rfl t).symm
    | zero t => simp [UnpackedFloat.isFinite] at h
    | finite t n f hn => simp [UnpackedFloat.isFinite] at h
  | finite s m e hm =>
    cases b with
    | notANumber => exact iff_of_false hundefined nofun
    | infinity t => exact (hinfinite t).trans (neg_infinity_compare_iff rfl t).symm
    | zero t => simp [UnpackedFloat.isFinite] at h
    | finite t n f hn => simp [UnpackedFloat.isFinite] at h

/-- A sum is positive just if one term exceeds the negative of the other. -/
theorem floatAdd_pos_iff (a b : Float) : 0.0 < a + b ↔ -b < a := by
  by_cases hfinite : a.isFinite = true ∧ b.isFinite = true
  · obtain ⟨u, ha⟩ := exists_isExactly hfinite.1
    obtain ⟨v, hb⟩ := exists_isExactly hfinite.2
    rw [ha.add_pos_iff hb, hb.neg.lt_iff ha, neg_lt_iff_pos_add]
  · rw [not_and_or, Bool.not_eq_true, Bool.not_eq_true] at hfinite
    rw [pos_iff_hasSign, floatLT_iff_compare, unpack_neg]
    exact hasSign_add_iff hfinite

end StreetLinking.Number
