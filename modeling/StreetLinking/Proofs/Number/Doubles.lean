import Mathlib
/-!
# Doubles as fractions

A finite double has a sign, a significand and an exponent, and so it is a fraction. Main statements:
the significands and exponents of doubles keep to fixed bounds, and within these bounds a double has
those that it was made of.
-/

namespace StreetLinking.Number

open Float.Model UnpackedFloat

/-! ## Significand and exponent -/

/-- The significands and exponents of doubles. -/
structure IsDouble (m : ℕ) (e : ℤ) : Prop where
  significand : m < 2 ^ 53
  low : -1074 ≤ e
  high : e ≤ 971
  full : 2 ^ 52 ≤ m ∨ e = -1074

theorem toNat_implicitBit (m : BitVec 52) : (1#1 ++ m).toNat = 2 ^ 52 + m.toNat := by
  rw [BitVec.toNat_append, ← Nat.shiftLeft_add_eq_or_of_lt m.isLt]
  rfl

theorem unpack_finite {x : Float} {s : Sign} {m : ℕ} {e : ℤ} {hm : 0 < m}
    (h : x.toModel.unpack = .finite s m e hm) : IsDouble m e := by
  unfold Float.Model.unpack UnpackedFloat.unpack at h
  dsimp only at h
  have hfraction : (@unpackMantissa .binary64 x.toModel.toBits.toBitVec).toNat < 2 ^ 52 :=
    BitVec.isLt _
  have hfield : (@unpackExponent .binary64 x.toModel.toBits.toBitVec).toNat < 2 ^ 11 :=
    BitVec.isLt _
  split at h
  · split at h <;> cases h
  · next hfinite =>
    have hfinite : (@unpackExponent .binary64 x.toModel.toBits.toBitVec).toNat ≠ 2047 :=
      fun hsame => hfinite (BitVec.eq_of_toNat_eq hsame)
    split at h
    · next hzero =>
      split at h
      · cases h
      · cases h
        rw [hzero]
        exact ⟨by omega, by decide, by decide, Or.inr (by decide)⟩
    · next hzero =>
      have hzero : (@unpackExponent .binary64 x.toModel.toBits.toBitVec).toNat ≠ 0 :=
        fun hsame => hzero (BitVec.eq_of_toNat_eq hsame)
      cases h
      rw [toNat_implicitBit]
      simp only [Format.exponentBias]
      refine ⟨by omega, by omega, by omega, Or.inl (by omega)⟩

theorem unpack_normal (s : Sign) {field : ℕ} {m : ℕ} (hpos : 0 < field) (hfield : field < 2047)
    (hm : 2 ^ 52 ≤ m) (hsignificand : m < 2 ^ 53) :
    UnpackedFloat.unpack .binary64
        (packComponents .binary64 s (BitVec.ofNat 11 field) (BitVec.ofNat 52 m)) =
      .finite s m (field - 1075) (by omega) := by
  have hnat : (BitVec.ofNat 11 field).toNat = field := by
    rw [BitVec.toNat_ofNat]
    omega
  have hfinite : BitVec.ofNat 11 field ≠ -1#_ := fun hsame => by
    have := congrArg BitVec.toNat hsame
    rw [hnat] at this
    exact absurd this (by show field ≠ 2047; omega)
  have hnormal : BitVec.ofNat 11 field ≠ 0#_ := fun hsame => by
    have := congrArg BitVec.toNat hsame
    rw [hnat] at this
    exact absurd this (by show field ≠ 0; omega)
  have hwhole : (1#1 ++ BitVec.ofNat 52 m).toNat = m := by
    rw [toNat_implicitBit, BitVec.toNat_ofNat]
    omega
  unfold UnpackedFloat.unpack
  simp only [unpackMantissa_packComponents, unpackExponent_packComponents,
    unpackSign_packComponents, Sign.ofBitVec_toBitVec]
  simp only [if_neg hfinite, if_neg hnormal, hnat, hwhole]
  rfl

theorem unpack_small (s : Sign) {m : ℕ} (hm : 0 < m) (hsmall : m < 2 ^ 52) :
    UnpackedFloat.unpack .binary64 (packComponents .binary64 s 0#_ (BitVec.ofNat 52 m)) =
      .finite s m (-1074) hm := by
  have hnat : (BitVec.ofNat 52 m).toNat = m := by
    rw [BitVec.toNat_ofNat]
    omega
  have hnonzero : BitVec.ofNat 52 m ≠ 0#_ := fun hsame => by
    have := congrArg BitVec.toNat hsame
    rw [hnat] at this
    exact absurd this (by show m ≠ 0; omega)
  unfold UnpackedFloat.unpack
  simp only [unpackMantissa_packComponents, unpackExponent_packComponents,
    unpackSign_packComponents, Sign.ofBitVec_toBitVec]
  simp only [dif_neg hnonzero, hnat]
  rfl

theorem unpack_pack (s : Sign) {m : ℕ} {e : ℤ} (hm : 0 < m) (h : IsDouble m e) :
    (Float.Model.pack (.finite s m e hm)).unpack = .finite s m e hm := by
  obtain ⟨hsignificand, hlow, hhigh, hfull⟩ := h
  have hfield : e + Format.binary64.exponentBias + Format.binary64.mantissaBitsWithoutImplicit =
      e + 1075 := by
    simp only [Format.exponentBias]
    omega
  have hspan : ¬ 2 ^ Format.binary64.exponentBits ≤ (e + 1075).toNat + 1 := by
    show ¬ 2048 ≤ (e + 1075).toNat + 1
    omega
  show UnpackedFloat.unpack _ (UnpackedFloat.pack _ (.finite s m e hm)) = _
  simp only [UnpackedFloat.pack]
  rw [hfield, if_neg hspan]
  by_cases hnormal : 2 ^ 52 ≤ m
  · have hlog : m.log2 = 52 := (Nat.log2_eq_iff hm.ne').2 ⟨hnormal, hsignificand⟩
    rw [if_pos (by rw [hlog]; rfl), unpack_normal s (by omega) (by omega) hnormal hsignificand]
    congr 1
    omega
  · have hlog : m.log2 < 52 := (Nat.log2_lt hm.ne').2 (not_le.1 hnormal)
    obtain rfl := hfull.resolve_left hnormal
    rw [if_neg (by show m.log2 + 1 ≠ 53; omega)]
    exact unpack_small s hm (not_le.1 hnormal)

/-! ## Values -/

theorem abs_apply (s : Sign) (m : ℕ) : |(s.apply m : ℚ)| = m := by
  cases s <;> simp [Sign.apply]

theorem apply_mul_apply (s s' : Sign) (m m' : ℕ) :
    s.apply m * s'.apply m' = (s * s').apply (m * m' : ℕ) := by
  rw [Nat.cast_mul]
  cases s <;> cases s'
  · exact neg_mul_neg (m : ℤ) m'
  · exact neg_mul (m : ℤ) m'
  · exact mul_neg (m : ℤ) m'
  · rfl

def IsValue (u : UnpackedFloat) (v : ℚ) : Prop :=
  match u with
  | .zero _ => v = 0
  | .finite s m e _ => v = s.apply m * 2 ^ e
  | .infinity _ | .notANumber => False

/-- A double is finite, and this is the fraction that it is. -/
def IsExactly (x : Float) (v : ℚ) : Prop :=
  IsValue x.toModel.unpack v

theorem isExactly_zero (s : Sign) : IsExactly (.ofModel (.pack (.zero s))) 0 := by
  cases s <;> rfl

theorem isExactly_finite (s : Sign) {m : ℕ} {e : ℤ} (hm : 0 < m) (h : IsDouble m e) :
    IsExactly (.ofModel (.pack (.finite s m e hm))) (s.apply m * 2 ^ e) := by
  show IsValue (Float.Model.pack (.finite s m e hm)).unpack _
  rw [unpack_pack s hm h]
  rfl

theorem IsExactly.cases {x : Float} {v : ℚ} (h : IsExactly x v) :
    (∃ s, x.toModel.unpack = .zero s ∧ v = 0) ∨
      ∃ s m e hm, x.toModel.unpack = .finite s m e hm ∧ v = s.apply m * 2 ^ e := by
  unfold IsExactly at h
  generalize x.toModel.unpack = u at h
  cases u with
  | infinity s => exact h.elim
  | notANumber => exact h.elim
  | zero s => exact Or.inl ⟨s, rfl, h⟩
  | finite s m e hm => exact Or.inr ⟨s, m, e, hm, rfl, h⟩

theorem isExactly_of_zero {x : Float} {s : Sign} (hx : x.toModel.unpack = .zero s) :
    IsExactly x 0 := by
  show IsValue x.toModel.unpack 0
  rw [hx]
  rfl

theorem isExactly_of_finite {x : Float} {s : Sign} {m : ℕ} {e : ℤ} {hm : 0 < m}
    (hx : x.toModel.unpack = .finite s m e hm) : IsExactly x (s.apply m * 2 ^ e) := by
  show IsValue x.toModel.unpack _
  rw [hx]
  rfl

theorem IsExactly.repack {x : Float} {v : ℚ} (h : IsExactly x v) :
    IsExactly (.ofModel (.pack x.toModel.unpack)) v := by
  have hsame : Float.ofModel (.pack x.toModel.unpack) = x := Float.ofBits_toBits x
  rwa [hsame]

/-! ## Negation -/

theorem apply_neg (s : Sign) (m : ℤ) : (-s).apply m = -s.apply m := by
  cases s with
  | positive => rfl
  | negative => exact (neg_neg m).symm

theorem unpack_neg (x : Float) : (-x).toModel.unpack = x.toModel.unpack.neg := by
  show (Float.Model.pack x.toModel.unpack.neg).unpack = _
  cases hx : x.toModel.unpack with
  | notANumber => exact unpack_packedNaN
  | infinity s => cases s <;> rfl
  | zero s => exact unpack_packedZero
  | finite s m e hm => exact unpack_pack (-s) hm (unpack_finite hx)

theorem IsExactly.neg {x : Float} {v : ℚ} (h : IsExactly x v) : IsExactly (-x) (-v) := by
  show IsValue (-x).toModel.unpack (-v)
  rw [unpack_neg]
  rcases h.cases with ⟨s, hx, rfl⟩ | ⟨s, m, e, hm, hx, rfl⟩
  · rw [hx, neg_zero]
    rfl
  · rw [hx, ← neg_mul, ← Int.cast_neg, ← apply_neg]
    rfl

theorem floatSub_eq_add_neg (a b : Float) : a - b = a + -b := by
  show Float.ofModel (.pack (UnpackedFloat.sub _ a.toModel.unpack b.toModel.unpack)) =
    .ofModel (.pack (UnpackedFloat.add _ a.toModel.unpack (-b).toModel.unpack))
  rw [unpack_neg]
  congr 2
  cases a.toModel.unpack with
  | notANumber => rfl
  | infinity s => cases b.toModel.unpack <;> rfl
  | zero s => cases b.toModel.unpack <;> rfl
  | finite s m e hm =>
    cases b.toModel.unpack with
    | notANumber => rfl
    | infinity s' => rfl
    | zero s' => rfl
    | finite s' m' e' hm' =>
      simp only [UnpackedFloat.sub, UnpackedFloat.add, UnpackedFloat.neg, apply_neg]
      rfl

/-! ## Sums -/

theorem unpackedAdd_comm (spec : Format) (a b : UnpackedFloat) : a.add spec b = b.add spec a := by
  cases a with
  | notANumber => cases b <;> rfl
  | infinity s =>
    cases b with
    | infinity t => cases s <;> cases t <;> rfl
    | _ => rfl
  | zero s =>
    cases b with
    | zero t => cases s <;> cases t <;> rfl
    | _ => rfl
  | finite s m e h =>
    cases b with
    | finite t n f k =>
      unfold UnpackedFloat.add
      dsimp only
      rw [Int.add_comm, Int.min_comm]
    | _ => rfl

theorem floatAdd_comm (a b : Float) : a + b = b + a :=
  congrArg (fun sum => Float.ofModel (.pack sum)) (unpackedAdd_comm .binary64 _ _)

/-- Adding zero changes nothing but the sign of another zero. -/
theorem IsExactly.add_of_zero {a b : Float} {v : ℚ} {s : Sign} (hb : IsExactly b v)
    (ha : a.toModel.unpack = .zero s) : IsExactly (a + b) v := by
  show IsExactly (.ofModel (.pack (UnpackedFloat.add _ a.toModel.unpack b.toModel.unpack))) v
  rcases hb.cases with ⟨s', hy, rfl⟩ | ⟨s', m', e', hm', hy, -⟩
  · rw [ha, hy]
    cases s <;> cases s' <;> rfl
  · have hrepack := hb.repack
    rw [ha, hy]
    rwa [hy] at hrepack

/-! ## Products and sizes -/

theorem sign_mul_comm (s t : Sign) : s * t = t * s := by
  cases s <;> cases t <;> rfl

theorem unpackedMul_comm (spec : Format) (a b : UnpackedFloat) : a.mul spec b = b.mul spec a := by
  cases a <;> cases b <;>
    simp only [UnpackedFloat.mul, sign_mul_comm, Nat.mul_comm, Int.add_comm]

theorem floatMul_comm (a b : Float) : a * b = b * a :=
  congrArg (fun product => Float.ofModel (.pack product)) (unpackedMul_comm .binary64 _ _)

theorem abs_round (spec : Format) (s t : Sign) (m : ℕ) (e : ℤ) :
    (UnpackedFloat.round spec s m e).abs = (UnpackedFloat.round spec t m e).abs := by
  simp only [UnpackedFloat.round, roundWithAccuracy]
  split <;> rfl

theorem abs_normalize_neg (spec : Format) (m e : ℤ) (zeroSign : Sign) :
    (UnpackedFloat.normalize spec (-m) e zeroSign).abs =
      (UnpackedFloat.normalize spec m e zeroSign).abs := by
  unfold UnpackedFloat.normalize
  rcases lt_trichotomy m 0 with hm | rfl | hm
  · rw [Int.compare_eq_lt.2 hm, Int.compare_eq_gt.2 (by omega)]
    exact abs_round spec _ _ _ e
  · rfl
  · rw [Int.compare_eq_gt.2 hm, Int.compare_eq_lt.2 (by omega)]
    dsimp only
    rw [neg_neg]
    exact abs_round spec _ _ _ e

theorem abs_sub_comm_unpacked (spec : Format) (a b : UnpackedFloat) :
    (a.sub spec b).abs = (b.sub spec a).abs := by
  cases a with
  | notANumber => cases b <;> rfl
  | infinity s =>
    cases b with
    | infinity t => cases s <;> cases t <;> rfl
    | _ => rfl
  | zero s =>
    cases b with
    | zero t => cases s <;> cases t <;> rfl
    | _ => rfl
  | finite s m e hm =>
    cases b with
    | finite t n f hn =>
      simp only [UnpackedFloat.sub]
      rw [Int.min_comm, ← abs_normalize_neg, neg_sub]
    | _ => rfl

theorem abs_unpack_components (s : Sign) (exponent : BitVec 11) (fraction : BitVec 52) :
    (UnpackedFloat.unpack .binary64 (packComponents .binary64 s exponent fraction)).abs =
      (UnpackedFloat.unpack .binary64 (packComponents .binary64 .positive exponent fraction)).abs := by
  unfold UnpackedFloat.unpack
  simp only [unpackMantissa_packComponents, unpackExponent_packComponents,
    unpackSign_packComponents, Sign.ofBitVec_toBitVec]
  split
  · split <;> rfl
  · split
    · split <;> rfl
    · rfl

theorem abs_unpack_pack (u : UnpackedFloat) :
    (Float.Model.pack u).unpack.abs = (Float.Model.pack u.abs).unpack.abs := by
  cases u with
  | notANumber => rfl
  | infinity s => exact abs_unpack_components s _ _
  | zero s => exact abs_unpack_components s _ _
  | finite s m e hm =>
    show (UnpackedFloat.unpack _ (UnpackedFloat.pack _ (.finite s m e hm))).abs =
      (UnpackedFloat.unpack _ (UnpackedFloat.pack _ (.finite .positive m e hm))).abs
    simp only [UnpackedFloat.pack]
    split
    · exact abs_unpack_components s _ _
    · split <;> exact abs_unpack_components s _ _

theorem floatAbs_sub_comm (a b : Float) : (a - b).abs = (b - a).abs := by
  show Float.ofModel (.pack (Float.Model.pack (UnpackedFloat.sub _ a.toModel.unpack
    b.toModel.unpack)).unpack.abs) = .ofModel (.pack (Float.Model.pack (UnpackedFloat.sub _
      b.toModel.unpack a.toModel.unpack)).unpack.abs)
  rw [abs_unpack_pack, abs_sub_comm_unpacked, ← abs_unpack_pack]

/-! ## Undefined doubles -/

theorem IsExactly.beq_self {x : Float} {v : ℚ} (h : IsExactly x v) : (x == x) = true := by
  have hdefined : x.toModel.unpack ≠ .notANumber := by
    rcases h.cases with ⟨s, hx, -⟩ | ⟨s, m, e, hm, hx, -⟩ <;> simp [hx]
  exact (beq_iff_ne_notANumber_and_eq _ _).2 ⟨hdefined, hdefined, Or.inl rfl⟩

theorem unpack_of_undefined {x : Float} (h : (x == x) = false) :
    x.toModel.unpack = .notANumber := by
  by_contra hdefined
  have hself : x.toModel.unpack.beq x.toModel.unpack = true :=
    (beq_iff_ne_notANumber_and_eq _ _).2 ⟨hdefined, hdefined, Or.inl rfl⟩
  exact absurd (h.symm.trans hself) Bool.false_ne_true

section Undefined

variable {x : Float} (hx : x.toModel.unpack = .notANumber) (y : Float)

include hx

theorem unpack_add_undefined : (x + y).toModel.unpack = .notANumber := by
  show (Float.Model.pack (UnpackedFloat.add _ x.toModel.unpack y.toModel.unpack)).unpack = _
  have hsum : UnpackedFloat.add .binary64 .notANumber y.toModel.unpack = .notANumber := by
    cases y.toModel.unpack <;> rfl
  rw [hx, hsum]
  exact unpack_packedNaN

theorem unpack_mul_undefined : (x * y).toModel.unpack = .notANumber := by
  show (Float.Model.pack (UnpackedFloat.mul _ x.toModel.unpack y.toModel.unpack)).unpack = _
  have hproduct : UnpackedFloat.mul .binary64 .notANumber y.toModel.unpack = .notANumber := by
    cases y.toModel.unpack <;> rfl
  rw [hx, hproduct]
  exact unpack_packedNaN

theorem unpack_sub_undefined : (x - y).toModel.unpack = .notANumber := by
  rw [floatSub_eq_add_neg]
  exact unpack_add_undefined hx (-y)

theorem not_le_of_undefined : ¬ x ≤ y := by
  intro h
  have h : x.toModel.unpack.le y.toModel.unpack = true :=
    of_decide_eq_true (p := x.toModel ≤ y.toModel) h
  rw [hx] at h
  cases h

end Undefined

end StreetLinking.Number
