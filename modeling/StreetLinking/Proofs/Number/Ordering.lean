import Mathlib
import StreetLinking.Number.Scalar
/-!
# The order of doubles

Defined doubles are ordered by sign, exponent and significand, and the two zeros share one place.
The total order for ranking goes by the bits instead and keeps the zeros apart. Main statements: one
defined double is less than another, or no greater, just if its place is; the total order is
transitive and takes no two doubles for the same.
-/

namespace StreetLinking.Number

open Float.Model UnpackedFloat

/-! ## Places in the order -/

/-- What decides where a defined double is in the order: how it compares with zero, then the
exponent, then the significand. -/
def unpackedStanding : UnpackedFloat → ℤ ×ₗ ℤ ×ₗ ℤ
  | .infinity .negative => toLex (-2, toLex (0, 0))
  | .finite .negative m e _ => toLex (-1, toLex (-e, -(m : ℤ)))
  | .zero _ => toLex (0, toLex (0, 0))
  | .finite .positive m e _ => toLex (1, toLex (e, (m : ℤ)))
  | .infinity .positive => toLex (2, toLex (0, 0))
  | .notANumber => toLex (3, toLex (0, 0))

def standing (x : Float) : ℤ ×ₗ ℤ ×ₗ ℤ :=
  unpackedStanding x.toModel.unpack

theorem compare_toLex {α β : Type} [Ord α] [Ord β] (a b : α × β) :
    compare (toLex a) (toLex b) = (compare a.1 b.1).then (compare a.2 b.2) := by
  rw [Prod.Lex.compare_def]
  rfl

theorem compare_natCast (m n : ℕ) : compare (m : ℤ) n = compare m n := by
  rcases lt_trichotomy m n with hlt | heq | hgt
  · rw [Nat.compare_eq_lt.2 hlt, Int.compare_eq_lt.2 (Int.ofNat_lt.2 hlt)]
  · rw [Nat.compare_eq_eq.2 heq, Int.compare_eq_eq.2 (congrArg _ heq)]
  · rw [Nat.compare_eq_gt.2 hgt, Int.compare_eq_gt.2 (Int.ofNat_lt.2 hgt)]

theorem compare_neg (m n : ℤ) : compare (-m) (-n) = (compare m n).swap := by
  rcases lt_trichotomy m n with hlt | heq | hgt
  · rw [Int.compare_eq_lt.2 hlt, Int.compare_eq_gt.2 (by omega)]
    rfl
  · rw [Int.compare_eq_eq.2 heq, Int.compare_eq_eq.2 (congrArg _ heq)]
    rfl
  · rw [Int.compare_eq_gt.2 hgt, Int.compare_eq_lt.2 (by omega)]
    rfl

theorem compare_eq_none {a b : UnpackedFloat} (h : a = .notANumber ∨ b = .notANumber) :
    a.compare b = none := by
  rcases h with rfl | rfl
  · rfl
  · cases a <;> rfl

theorem compare_eq_some {a b : UnpackedFloat} (ha : a ≠ .notANumber) (hb : b ≠ .notANumber) :
    a.compare b = some (compare (unpackedStanding a) (unpackedStanding b)) := by
  cases a with
  | notANumber => exact absurd rfl ha
  | infinity s =>
    cases b with
    | notANumber => exact absurd rfl hb
    | infinity s' => cases s <;> cases s' <;> rfl
    | zero s' => cases s <;> rfl
    | finite s' m' e' hm' => cases s <;> cases s' <;> rfl
  | zero s =>
    cases b with
    | notANumber => exact absurd rfl hb
    | infinity s' => cases s' <;> rfl
    | zero s' => rfl
    | finite s' m' e' hm' => cases s' <;> rfl
  | finite s m e hm =>
    cases b with
    | notANumber => exact absurd rfl hb
    | infinity s' => cases s <;> cases s' <;> rfl
    | zero s' => cases s <;> rfl
    | finite s' m' e' hm' =>
      cases s <;> cases s' <;>
        simp [UnpackedFloat.compare, unpackedStanding, compare_toLex, compare_neg,
          compare_natCast, Ordering.swap_then] <;> rfl

theorem isNaN_eq_false_iff {x : Float} : x.isNaN = false ↔ x.toModel.unpack ≠ .notANumber := by
  rw [← Bool.not_eq_true]
  exact not_congr UnpackedFloat.isNaN_iff

theorem isUndefined_eq (x : Float) : Scalar.isUndefined x = x.isNaN := by
  rw [Float.isNaN_eq_decide_eq_nan, Scalar.isUndefined, Bool.not_eq_eq_eq_not, Bool.eq_iff_iff]
  simp [Float.beq_self_iff]

theorem beq_self_of_defined {x : Float} (hx : x.isNaN = false) : (x == x) = true := by
  rwa [← isUndefined_eq, Scalar.isUndefined, Bool.not_eq_false'] at hx

theorem floatLT_iff_compare {a b : Float} :
    a < b ↔ a.toModel.unpack.compare b.toModel.unpack = some .lt := by
  rw [← beq_iff_eq]
  exact decide_eq_true_iff (p := a.toModel < b.toModel)

theorem floatLT_iff {a b : Float} :
    a < b ↔ a.isNaN = false ∧ b.isNaN = false ∧ standing a < standing b := by
  rw [floatLT_iff_compare, isNaN_eq_false_iff, isNaN_eq_false_iff]
  by_cases hdefined : a.toModel.unpack = .notANumber ∨ b.toModel.unpack = .notANumber
  · rw [compare_eq_none hdefined]
    exact iff_of_false (by simp) fun h => hdefined.elim h.1 h.2.1
  · obtain ⟨ha, hb⟩ := not_or.1 hdefined
    rw [compare_eq_some ha hb, Option.some_inj, compare_lt_iff_lt]
    exact ⟨fun h => ⟨ha, hb, h⟩, fun h => h.2.2⟩

theorem floatLE_iff {a b : Float} :
    a ≤ b ↔ a.isNaN = false ∧ b.isNaN = false ∧ standing a ≤ standing b := by
  have hcompare : a ≤ b ↔ (a.toModel.unpack.compare b.toModel.unpack).any (·.isLE) = true :=
    decide_eq_true_iff (p := a.toModel ≤ b.toModel)
  rw [hcompare, isNaN_eq_false_iff, isNaN_eq_false_iff]
  by_cases hdefined : a.toModel.unpack = .notANumber ∨ b.toModel.unpack = .notANumber
  · rw [compare_eq_none hdefined]
    exact iff_of_false Bool.false_ne_true fun h => hdefined.elim h.1 h.2.1
  · obtain ⟨ha, hb⟩ := not_or.1 hdefined
    rw [compare_eq_some ha hb, Option.any_some, ← Ordering.ne_gt_iff_isLE, ne_eq,
      compare_gt_iff_gt, not_lt]
    exact ⟨fun h => ⟨ha, hb, h⟩, fun h => h.2.2⟩

theorem floatLE_trans {a b c : Float} (hab : a ≤ b) (hbc : b ≤ c) : a ≤ c := by
  obtain ⟨ha, -, hab⟩ := floatLE_iff.1 hab
  obtain ⟨-, hc, hbc⟩ := floatLE_iff.1 hbc
  exact floatLE_iff.2 ⟨ha, hc, hab.trans hbc⟩

theorem floatLT_trans {a b c : Float} (hab : a < b) (hbc : b < c) : a < c := by
  obtain ⟨ha, -, hab⟩ := floatLT_iff.1 hab
  obtain ⟨-, hc, hbc⟩ := floatLT_iff.1 hbc
  exact floatLT_iff.2 ⟨ha, hc, hab.trans hbc⟩

theorem floatLE_of_lt {a b : Float} (h : a < b) : a ≤ b := by
  obtain ⟨ha, hb, hlt⟩ := floatLT_iff.1 h
  exact floatLE_iff.2 ⟨ha, hb, hlt.le⟩

theorem floatLT_of_not_le {a b : Float} (ha : a.isNaN = false) (hb : b.isNaN = false)
    (h : ¬ b ≤ a) : a < b := by
  exact floatLT_iff.2 ⟨ha, hb, not_le.1 fun hle => h (floatLE_iff.2 ⟨hb, ha, hle⟩)⟩

theorem floatLE_of_not_lt {a b : Float} (ha : a.isNaN = false) (hb : b.isNaN = false)
    (h : ¬ b < a) : a ≤ b := by
  exact floatLE_iff.2 ⟨ha, hb, not_lt.1 fun hlt => h (floatLT_iff.2 ⟨hb, ha, hlt⟩)⟩

theorem isNaN_of_beq {a b : Float} (h : (a == b) = true) : a.isNaN = false ∧ b.isNaN = false := by
  obtain ⟨ha, hb, -⟩ := Float.beq_iff_ne_nan_and_eq.1 h
  rw [Float.isNaN_eq_decide_eq_nan, Float.isNaN_eq_decide_eq_nan]
  exact ⟨decide_eq_false ha, decide_eq_false hb⟩

theorem standing_eq_of_beq {a b : Float} (h : (a == b) = true) : standing a = standing b := by
  obtain ⟨-, -, rfl | ⟨rfl, rfl⟩ | ⟨rfl, rfl⟩⟩ := Float.beq_iff_ne_nan_and_eq.1 h
  · rfl
  · rfl
  · rfl

theorem floatLT_of_beq_of_lt {a b c : Float} (hab : (a == b) = true) (hbc : b < c) : a < c := by
  obtain ⟨-, hc, hlt⟩ := floatLT_iff.1 hbc
  exact floatLT_iff.2 ⟨(isNaN_of_beq hab).1, hc, (standing_eq_of_beq hab).trans_lt hlt⟩

theorem floatLT_irrefl (a : Float) : ¬ a < a :=
  fun h => (floatLT_iff.1 h).2.2.false

/-! ## Differences of equal doubles -/

theorem eq_of_unpackedStanding {a b : UnpackedFloat} (ha : a.isFinite = true)
    (h : unpackedStanding a = unpackedStanding b) :
    (∃ s s', a = .zero s ∧ b = .zero s') ∨ ∃ s m e hm, a = .finite s m e hm ∧ b = a := by
  cases a with
  | notANumber => cases ha
  | infinity s => cases ha
  | zero s =>
    cases b with
    | zero s' => exact Or.inl ⟨s, s', rfl, rfl⟩
    | notANumber => simp [unpackedStanding] at h
    | infinity s' => cases s' <;> simp [unpackedStanding] at h
    | finite s' m' e' hm' => cases s' <;> simp [unpackedStanding] at h
  | finite s m e hm =>
    refine Or.inr ⟨s, m, e, hm, rfl, ?_⟩
    cases b with
    | zero s' => cases s <;> simp [unpackedStanding] at h
    | notANumber => cases s <;> simp [unpackedStanding] at h
    | infinity s' => cases s <;> cases s' <;> simp [unpackedStanding] at h
    | finite s' m' e' hm' =>
      cases s <;> cases s' <;> simp [unpackedStanding] at h ⊢ <;> exact ⟨h.2.symm, h.1.symm⟩

theorem isFinite_of_standing {a b : Float} (ha : a.isFinite = true) (h : standing a = standing b) :
    b.isFinite = true := by
  rcases eq_of_unpackedStanding ha h with ⟨s, s', -, hb⟩ | ⟨s, m, e, hm, -, hb⟩
  · exact congrArg UnpackedFloat.isFinite hb
  · exact (congrArg UnpackedFloat.isFinite hb).trans ha

theorem standing_sub {a b : Float} (ha : a.isFinite = true) (h : standing a = standing b) :
    standing (b - a) = standing 0 := by
  have hzero (s : Sign) : standing (.ofModel (.pack (.zero s))) = standing 0 := by
    cases s <;> rfl
  have hsub : ∃ s, UnpackedFloat.sub .binary64 b.toModel.unpack a.toModel.unpack = .zero s := by
    rcases eq_of_unpackedStanding ha h with ⟨s, s', ha, hb⟩ | ⟨s, m, e, hm, ha, hb⟩
    · rw [ha, hb]
      cases s <;> cases s' <;> exact ⟨_, rfl⟩
    · rw [hb, ha]
      simp only [UnpackedFloat.sub, Int.sub_self, UnpackedFloat.normalize]
      exact ⟨_, rfl⟩
  obtain ⟨s, hsub⟩ := hsub
  show standing (.ofModel (.pack (UnpackedFloat.sub _ b.toModel.unpack a.toModel.unpack))) = _
  rw [hsub, hzero]

theorem not_le_sub {gap a b : Float} (hgap : 0 < gap) (ha : a.isFinite = true)
    (h : standing a = standing b) : ¬ gap ≤ b - a := by
  intro hle
  have hlow := (floatLT_iff.1 hgap).2.2
  have hhigh := (floatLE_iff.1 hle).2.2
  rw [standing_sub ha h] at hhigh
  exact hhigh.not_gt hlow

/-! ## The total order -/

/-- A double with its sign bit set comes before those without, all of them in the order of keys
that differ. -/
theorem toNat_orderKey (x : Float) :
    (orderKey x).toNat =
      if 2 ^ 63 ≤ x.toBits.toNat then 2 ^ 64 - 1 - x.toBits.toNat else 2 ^ 63 + x.toBits.toNat := by
  have hhalf : (0x8000000000000000 : UInt64).toNat = 2 ^ 63 := rfl
  have hsign : 0x8000000000000000 ≤ x.toBits ↔ 2 ^ 63 ≤ x.toBits.toNat := UInt64.le_iff_toNat_le
  simp only [orderKey, hsign]
  split
  · exact UInt64.toNat_not x.toBits
  · next hlow =>
    have hor := Nat.two_pow_add_eq_or_of_lt (not_le.1 hlow) 1
    rw [UInt64.toNat_or, hhalf, Nat.or_comm]
    simpa using hor.symm

theorem orderKey_injective : Function.Injective orderKey := by
  intro x y hsame
  have hkeys := congrArg UInt64.toNat hsame
  rw [toNat_orderKey, toNat_orderKey] at hkeys
  have hx := x.toBits.toNat_lt
  have hy := y.toBits.toNat_lt
  apply Float.toBits_inj.1
  apply UInt64.toNat_inj.1
  split at hkeys <;> split at hkeys <;> omega

instance orientedFloat : Std.OrientedCmp (Scalar.order : Float → Float → Ordering) where
  eq_swap {x y} := Std.OrientedOrd.eq_swap (a := orderKey x) (b := orderKey y)

instance transFloat : Std.TransCmp (Scalar.order : Float → Float → Ordering) where
  isLE_trans {x y z} :=
    Std.TransOrd.isLE_trans (a := orderKey x) (b := orderKey y) (c := orderKey z)

theorem eq_of_floatOrder {x y : Float} (h : Scalar.order x y = .eq) : x = y :=
  orderKey_injective (Std.LawfulEqOrd.eq_of_compare h)

/-- Between two equal doubles there is none but these: there is none between the two zeros. -/
theorem eq_or_eq_of_between {x y z : Float} (hsame : (x == y) = true)
    (hx : (Scalar.order x z).isLE = true) (hy : (Scalar.order z y).isLE = true) :
    z = x ∨ z = y := by
  obtain ⟨-, -, rfl | ⟨rfl, rfl⟩ | ⟨rfl, rfl⟩⟩ := Float.beq_iff_ne_nan_and_eq.1 hsame
  · exact Or.inl (eq_of_floatOrder (Std.OrientedCmp.isLE_antisymm hy hx))
  · have hwrong : (Scalar.order (0 : Float) (-0)).isLE = true := Std.TransCmp.isLE_trans hx hy
    exact absurd hwrong (by decide)
  · have hlow : orderKey (-0) ≤ orderKey z := Std.isLE_compare.1 hx
    have hhigh : orderKey z ≤ orderKey 0 := Std.isLE_compare.1 hy
    rw [UInt64.le_iff_toNat_le] at hlow hhigh
    have hnext : (orderKey 0).toNat = (orderKey (-0)).toNat + 1 := by decide
    rcases Nat.lt_or_ge (orderKey (-0)).toNat (orderKey z).toNat with hlt | hge
    · exact Or.inr (orderKey_injective (UInt64.toNat_inj.1 (by omega)))
    · exact Or.inl (orderKey_injective (UInt64.toNat_inj.1 (by omega)))

end StreetLinking.Number
