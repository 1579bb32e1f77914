import Mathlib.Algebra.Order.Field.Basic
import Mathlib.Tactic.LinearCombination
import Mathlib.Tactic.Linarith
import Mathlib.Tactic.Ring
import StreetLinking.Plane.Frame
/-!
# Geometry in exact numbers

Over an ordered field nothing is rounded. Distances are then ranked by their squares, and along a
segment the square of the distance is a quadratic in the fraction. Main statements: the foot of a
point on a segment is the nearest point of the segment, and on a segment that has a length it is the
only one.
-/

namespace StreetLinking.Number

/-- What it takes to run the geometry on an ordered field. Of the hypotenuse only the ranking
matters, so fields without square roots will do. -/
class ExactNumbers (K : Type) [Field K] [LinearOrder K] where
  hypot : K → K → K
  far : K
  toDouble : K → Float
  ofDouble : Float → K
  hypot_lt_iff (x y u v : K) : hypot x y < hypot u v ↔ x * x + y * y < u * u + v * v

instance exactScalar {K : Type} [Field K] [LinearOrder K] [ExactNumbers K] : Scalar K where
  decideLT _ _ := inferInstance
  decideLE _ _ := inferInstance
  hypot := ExactNumbers.hypot
  far := ExactNumbers.far
  order := compare
  toDouble := ExactNumbers.toDouble
  ofDouble := ExactNumbers.ofDouble

end StreetLinking.Number

namespace StreetLinking.Plane

open Number

/-! ## Squares of distances -/

section Squares

variable {K : Type} [Field K] [LinearOrder K] [IsStrictOrderedRing K]

def squareLength (a b : Point K) : K :=
  (b.x - a.x) * (b.x - a.x) + (b.y - a.y) * (b.y - a.y)

theorem squareLength_nonneg (a b : Point K) : 0 ≤ squareLength a b :=
  add_nonneg (mul_self_nonneg _) (mul_self_nonneg _)

theorem squareLength_pos {a b : Point K} (hab : a ≠ b) : 0 < squareLength a b := by
  apply lt_of_le_of_ne (squareLength_nonneg a b)
  intro hzero
  have hsides := (add_eq_zero_iff_of_nonneg (mul_self_nonneg (b.x - a.x))
    (mul_self_nonneg (b.y - a.y))).1 hzero.symm
  have hx : b.x = a.x := sub_eq_zero.1 (mul_self_eq_zero.1 hsides.1)
  have hy : b.y = a.y := sub_eq_zero.1 (mul_self_eq_zero.1 hsides.2)
  apply hab
  cases a
  cases b
  rw [Point.mk.injEq]
  exact ⟨hx.symm, hy.symm⟩

def squareAt (p a b : Point K) (t : K) : K :=
  (p.x - (a.x + t * (b.x - a.x))) * (p.x - (a.x + t * (b.x - a.x))) +
    (p.y - (a.y + t * (b.y - a.y))) * (p.y - (a.y + t * (b.y - a.y)))

/-- The fraction at which the line through `a` and `b` is nearest to `p`. -/
def IsLineFoot (p a b : Point K) (c : K) : Prop :=
  c * squareLength a b = (p.x - a.x) * (b.x - a.x) + (p.y - a.y) * (b.y - a.y)

omit [LinearOrder K] [IsStrictOrderedRing K] in
theorem squareAt_eq {p a b : Point K} {c : K} (hc : IsLineFoot p a b c) (t : K) :
    squareAt p a b t = squareAt p a b c + (t - c) * (t - c) * squareLength a b := by
  unfold IsLineFoot at hc
  unfold squareAt
  unfold squareLength at *
  linear_combination 2 * (t - c) * hc

end Squares

variable {K : Type} [Field K] [LinearOrder K] [ExactNumbers K]

section Clamp

variable [IsStrictOrderedRing K]

theorem unitClamp_mem (c : K) : 0 ≤ Scalar.unitClamp c ∧ Scalar.unitClamp c ≤ 1 := by
  unfold Scalar.unitClamp
  split
  · exact ⟨le_refl 0, zero_le_one⟩
  · next hlow =>
    split
    · exact ⟨zero_le_one, le_refl 1⟩
    · next hhigh => exact ⟨not_lt.1 hlow, not_lt.1 hhigh⟩

theorem unitClamp_nearest (c : K) {t : K} (hlow : 0 ≤ t) (hhigh : t ≤ 1) :
    (Scalar.unitClamp c - c) * (Scalar.unitClamp c - c) +
      (t - Scalar.unitClamp c) * (t - Scalar.unitClamp c) ≤ (t - c) * (t - c) := by
  unfold Scalar.unitClamp
  split
  · nlinarith
  · split
    · nlinarith
    · nlinarith

/-- Away from the clamped foot the square grows at least with the square of the way. -/
theorem squareAt_unitClamp {p a b : Point K} {c t : K} (hc : IsLineFoot p a b c) (hlow : 0 ≤ t)
    (hhigh : t ≤ 1) :
    squareAt p a b (Scalar.unitClamp c) +
        (t - Scalar.unitClamp c) * (t - Scalar.unitClamp c) * squareLength a b ≤
      squareAt p a b t := by
  have hgrowth := mul_le_mul_of_nonneg_right (unitClamp_nearest c hlow hhigh)
    (squareLength_nonneg a b)
  rw [squareAt_eq hc t, squareAt_eq hc (Scalar.unitClamp c)]
  linarith

end Clamp

/-! ## The foot of a point on a segment -/

namespace Frame

variable {p a b : Point K} {t : K}

theorem distanceAt_lt_iff {q c d : Point K} {u : K} :
    distanceAt p a b t < distanceAt q c d u ↔ squareAt p a b t < squareAt q c d u :=
  ExactNumbers.hypot_lt_iff _ _ _ _

theorem distanceAt_le_iff {q c d : Point K} {u : K} :
    distanceAt p a b t ≤ distanceAt q c d u ↔ squareAt p a b t ≤ squareAt q c d u :=
  not_lt.symm.trans ((not_congr distanceAt_lt_iff).trans not_lt)

theorem footFraction_self : footFraction p a a = 0 := by
  unfold footFraction
  rw [if_pos]
  rw [beq_iff_eq]
  simp

variable [IsStrictOrderedRing K]

theorem exists_footFraction (p : Point K) (hab : a ≠ b) :
    ∃ c, footFraction p a b = Scalar.unitClamp c ∧ IsLineFoot p a b c := by
  have hlength : squareLength a b ≠ 0 := (squareLength_pos hab).ne'
  refine ⟨((p.x - a.x) * (b.x - a.x) + (p.y - a.y) * (b.y - a.y)) / squareLength a b, ?_,
    div_mul_cancel₀ _ hlength⟩
  unfold footFraction
  rw [if_neg]
  · rfl
  · exact fun hzero => hlength (beq_iff_eq.1 hzero)

theorem footFraction_mem (p a b : Point K) : 0 ≤ footFraction p a b ∧ footFraction p a b ≤ 1 := by
  by_cases hab : a = b
  · rw [hab, footFraction_self]
    exact ⟨le_refl 0, zero_le_one⟩
  · obtain ⟨c, hfoot, -⟩ := exists_footFraction p hab
    rw [hfoot]
    exact unitClamp_mem c

theorem segmentDistance_le (p a b : Point K) (hlow : 0 ≤ t) (hhigh : t ≤ 1) :
    segmentDistance p a b ≤ distanceAt p a b t := by
  unfold segmentDistance
  rw [distanceAt_le_iff]
  by_cases hab : a = b
  · subst hab
    simp [squareAt]
  · obtain ⟨c, hfoot, hc⟩ := exists_footFraction p hab
    have hleast := squareAt_unitClamp hc hlow hhigh
    have hgrowth :
        0 ≤ (t - Scalar.unitClamp c) * (t - Scalar.unitClamp c) * squareLength a b :=
      mul_nonneg (mul_self_nonneg _) (squareLength_nonneg a b)
    rw [hfoot]
    linarith

theorem eq_footFraction (hab : a ≠ b) (hlow : 0 ≤ t) (hhigh : t ≤ 1)
    (hnear : distanceAt p a b t ≤ segmentDistance p a b) : t = footFraction p a b := by
  obtain ⟨c, hfoot, hc⟩ := exists_footFraction p hab
  unfold segmentDistance at hnear
  rw [distanceAt_le_iff, hfoot] at hnear
  have hleast := squareAt_unitClamp hc hlow hhigh
  rw [hfoot]
  by_contra hne
  have hway : 0 < (t - Scalar.unitClamp c) * (t - Scalar.unitClamp c) :=
    mul_self_pos.2 (sub_ne_zero.2 hne)
  have hgrowth := mul_pos hway (squareLength_pos hab)
  linarith

end Frame

end StreetLinking.Plane
