import StreetLinking.Proofs.Number.Ordering
import StreetLinking.Proofs.Number.Rounding
/-!
# Doubles as ordered fractions

Doubles are compared by sign, exponent and significand. Main statements: finite ones are ordered as
the fractions that they are, and a double between two finite ones is finite.
-/

namespace StreetLinking.Number

open Float.Model UnpackedFloat

/-! ## Finite doubles -/

section Finite

variable {x : Float} {v : ℚ} (h : IsExactly x v)

include h

theorem IsExactly.isFinite : x.isFinite = true := by
  show x.toModel.unpack.isFinite = true
  rcases h.cases with ⟨s, hx, -⟩ | ⟨s, m, e, hm, hx, -⟩ <;> rw [hx] <;> rfl

theorem IsExactly.isNaN_eq_false : x.isNaN = false := by
  rw [isNaN_eq_false_iff]
  rcases h.cases with ⟨s, hx, -⟩ | ⟨s, m, e, hm, hx, -⟩ <;> rw [hx] <;> exact nofun

theorem IsExactly.standing_mem :
    standing x ∈ Set.Ioo (unpackedStanding (.infinity .negative))
      (unpackedStanding (.infinity .positive)) := by
  unfold standing
  rcases h.cases with ⟨s, hx, -⟩ | ⟨s, m, e, hm, hx, -⟩ <;> rw [hx]
  · simp [unpackedStanding, Prod.Lex.toLex_lt_toLex]
  · cases s <;> simp [unpackedStanding, Prod.Lex.toLex_lt_toLex]

theorem IsExactly.eq {w : ℚ} (hw : IsExactly x w) : v = w := by
  unfold IsExactly at h hw
  cases hx : x.toModel.unpack with
  | notANumber => exact (hx ▸ h : IsValue .notANumber v).elim
  | infinity s => exact (hx ▸ h : IsValue (.infinity s) v).elim
  | zero s =>
    rw [hx] at h hw
    exact h.trans hw.symm
  | finite s m e hm =>
    rw [hx] at h hw
    exact h.trans hw.symm

end Finite

theorem exists_isExactly {x : Float} (h : x.isFinite = true) : ∃ v, IsExactly x v := by
  replace h : x.toModel.unpack.isFinite = true := h
  cases hx : x.toModel.unpack with
  | notANumber =>
    rw [hx] at h
    cases h
  | infinity s =>
    rw [hx] at h
    cases h
  | zero s => exact ⟨0, isExactly_of_zero hx⟩
  | finite s m e hm => exact ⟨_, isExactly_of_finite hx⟩

theorem value_pos {m : ℕ} (hm : 0 < m) (e : ℤ) : (0 : ℚ) < Sign.positive.apply m * 2 ^ e := by
  simp only [Sign.apply, Int.cast_natCast]
  positivity

theorem value_neg {m : ℕ} (hm : 0 < m) (e : ℤ) : (Sign.negative.apply m : ℚ) * 2 ^ e < 0 := by
  simp only [Sign.apply, Int.cast_neg, Int.cast_natCast, neg_mul, neg_lt_zero]
  positivity

/-! ## The order of fractions -/

theorem IsDouble.lt_of_exponent {m m' : ℕ} {e e' : ℤ} (h : IsDouble m e) (h' : IsDouble m' e')
    (he : e < e') : (m : ℚ) * 2 ^ e < m' * 2 ^ e' := by
  have hsmall : (m : ℚ) < 2 ^ 53 := by exact_mod_cast h.significand
  have hlarge : (2 : ℚ) ^ 52 ≤ m' := by
    have hfull : 2 ^ 52 ≤ m' := h'.full.resolve_right (h.low.trans_lt he).ne'
    exact_mod_cast hfull
  calc (m : ℚ) * 2 ^ e < 2 ^ 53 * 2 ^ e := by gcongr
    _ = 2 ^ 52 * 2 ^ (e + 1) := by
      rw [zpow_add_one₀ two_ne_zero]
      ring
    _ ≤ m' * 2 ^ e' := by
      gcongr
      · exact one_le_two
      · exact he

theorem IsDouble.lt_of_toLex {m m' : ℕ} {e e' : ℤ} (h : IsDouble m e) (h' : IsDouble m' e')
    (hlt : toLex (e, (m : ℤ)) < toLex (e', (m' : ℤ))) : (m : ℚ) * 2 ^ e < m' * 2 ^ e' := by
  rcases Prod.Lex.toLex_lt_toLex.1 hlt with he | ⟨he, hm⟩
  · exact h.lt_of_exponent h' he
  · obtain rfl : e = e' := he
    have hm : (m : ℚ) < m' := by exact_mod_cast (show (m : ℤ) < m' from hm)
    gcongr

section Order

variable {a b : Float} {u v : ℚ} (ha : IsExactly a u) (hb : IsExactly b v)

include ha hb

theorem IsExactly.lt_of_standing (h : standing a < standing b) : u < v := by
  unfold standing at h
  rcases ha.cases with ⟨s, hx, rfl⟩ | ⟨s, m, e, hm, hx, rfl⟩
  · rcases hb.cases with ⟨s', hy, rfl⟩ | ⟨s', m', e', hm', hy, rfl⟩ <;> rw [hx, hy] at h
    · exact absurd h (lt_irrefl _)
    · cases s' with
      | positive => exact value_pos hm' e'
      | negative => simp [unpackedStanding, Prod.Lex.toLex_lt_toLex] at h
  · rcases hb.cases with ⟨s', hy, rfl⟩ | ⟨s', m', e', hm', hy, rfl⟩ <;> rw [hx, hy] at h
    · cases s with
      | positive => simp [unpackedStanding, Prod.Lex.toLex_lt_toLex] at h
      | negative => exact value_neg hm e
    · -- exponents and significands count only where the signs are the same
      cases s with
      | positive =>
        cases s' with
        | positive =>
          have hplaces : toLex (e, (m : ℤ)) < toLex (e', (m' : ℤ)) := by
            simpa [unpackedStanding, Prod.Lex.toLex_lt_toLex] using h
          simpa [Sign.apply] using (unpack_finite hx).lt_of_toLex (unpack_finite hy) hplaces
        | negative => simp [unpackedStanding, Prod.Lex.toLex_lt_toLex] at h
      | negative =>
        cases s' with
        | positive => exact (value_neg hm e).trans (value_pos hm' e')
        | negative =>
          have hplaces : toLex (e', (m' : ℤ)) < toLex (e, (m : ℤ)) := by
            simpa [unpackedStanding, Prod.Lex.toLex_lt_toLex, eq_comm] using h
          simpa [Sign.apply] using (unpack_finite hy).lt_of_toLex (unpack_finite hx) hplaces

theorem IsExactly.eq_of_standing (h : standing a = standing b) : u = v := by
  rcases eq_of_unpackedStanding ha.isFinite h with ⟨s, s', hx, hy⟩ | ⟨s, m, e, hm, hx, hy⟩
  · rw [ha.eq (isExactly_of_zero hx), hb.eq (isExactly_of_zero hy)]
  · rw [ha.eq (isExactly_of_finite hx), hb.eq (isExactly_of_finite (hy.trans hx))]

theorem IsExactly.standing_lt_iff : standing a < standing b ↔ u < v := by
  refine ⟨ha.lt_of_standing hb, fun hlt => ?_⟩
  rcases lt_trichotomy (standing a) (standing b) with h | h | h
  · exact h
  · exact absurd (ha.eq_of_standing hb h) hlt.ne
  · exact absurd (hb.lt_of_standing ha h) hlt.asymm

/-- Finite doubles are ordered as the fractions that they are. -/
theorem IsExactly.lt_iff : a < b ↔ u < v := by
  rw [floatLT_iff, ha.standing_lt_iff hb]
  exact ⟨fun h => h.2.2, fun h => ⟨ha.isNaN_eq_false, hb.isNaN_eq_false, h⟩⟩

theorem IsExactly.le_iff : a ≤ b ↔ u ≤ v := by
  rw [floatLE_iff, ← not_lt, hb.standing_lt_iff ha, not_lt]
  exact ⟨fun h => h.2.2, fun h => ⟨ha.isNaN_eq_false, hb.isNaN_eq_false, h⟩⟩

theorem IsExactly.exists_between {x : Float} (hax : a ≤ x) (hxb : x ≤ b) :
    ∃ w, IsExactly x w ∧ u ≤ w ∧ w ≤ v := by
  have hfinite : x.isFinite = true := by
    obtain ⟨-, hdefined, hlow⟩ := floatLE_iff.1 hax
    have hhigh := (floatLE_iff.1 hxb).2.2
    rw [isNaN_eq_false_iff] at hdefined
    rw [standing.eq_def x] at hlow hhigh
    show x.toModel.unpack.isFinite = true
    cases hx : x.toModel.unpack with
    | notANumber => exact absurd hx hdefined
    | zero s => rfl
    | finite s m e hm => rfl
    | infinity s =>
      rw [hx] at hlow hhigh
      cases s with
      | negative => exact absurd hlow ha.standing_mem.1.not_ge
      | positive => exact absurd hhigh hb.standing_mem.2.not_ge
  obtain ⟨w, hx⟩ := exists_isExactly hfinite
  exact ⟨w, hx, (ha.le_iff hx).1 hax, (hx.le_iff hb).1 hxb⟩

end Order

end StreetLinking.Number
