import StreetLinking.Proofs.Number.Conversions
import StreetLinking.Proofs.Number.Sums
/-!
# How far rounding leads away

Every operation moves its result by one rounding at most, and the roundings of a computation add up.
Two numbers that are a number of roundings apart can be exchanged: the relation is symmetric, and
sums, products and quotients keep it. Main statements: sums, products with whole numbers and
quotients of doubles are one rounding away from the exact ones, and numbers that are few roundings
apart are close.
-/

namespace StreetLinking.Number

/-! ## Numbers that are a number of roundings apart -/

/-- The factor by which a rounding moves a number at most, twice the half of the spacing, so that
it bounds what is lost as well as what is gained. -/
def rounding : ℚ :=
  1 + 1 / 2 ^ 52

/-- Neither of two numbers exceeds the other one by more than `n` roundings. -/
structure Within (n : ℕ) (x y : ℚ) : Prop where
  le : x ≤ y * rounding ^ n
  ge : y ≤ x * rounding ^ n

theorem one_le_rounding : 1 ≤ rounding := by
  norm_num [rounding]

theorem one_le_rounding_pow (n : ℕ) : 1 ≤ rounding ^ n :=
  one_le_pow₀ one_le_rounding

theorem rounding_pow_pos (n : ℕ) : 0 < rounding ^ n :=
  zero_lt_one.trans_le (one_le_rounding_pow n)

/-- A few roundings are hardly more than their number. -/
theorem rounding_pow_le {n : ℕ} (hn : n ≤ 2 ^ 51) : rounding ^ n ≤ 1 + n / 2 ^ 51 := by
  induction n with
  | zero => simp
  | succ n ih =>
    have hfew : (n : ℚ) / 2 ^ 51 ≤ 1 := by
      rw [div_le_one (by positivity)]
      exact_mod_cast (Nat.le_succ n).trans hn
    calc rounding ^ (n + 1) = rounding ^ n * rounding := pow_succ _ _
      _ ≤ (1 + n / 2 ^ 51) * rounding := by
        gcongr
        · exact zero_le_one.trans one_le_rounding
        · exact ih ((Nat.le_succ n).trans hn)
      _ = 1 + n / 2 ^ 51 + (1 + n / 2 ^ 51) * (1 / 2 ^ 52) := by
        rw [rounding]
        ring
      _ ≤ 1 + n / 2 ^ 51 + 2 * (1 / 2 ^ 52) := by
        gcongr
        linarith
      _ = 1 + (n + 1 : ℕ) / 2 ^ 51 := by
        push_cast
        ring

namespace Within

variable {m n : ℕ} {x x' y y' z : ℚ}

theorem refl (x : ℚ) : Within 0 x x :=
  ⟨by simp, by simp⟩

theorem symm (h : Within n x y) : Within n y x :=
  ⟨h.ge, h.le⟩

theorem trans (h : Within m x y) (h' : Within n y z) : Within (m + n) x z where
  le := by
    calc x ≤ y * rounding ^ m := h.le
      _ ≤ z * rounding ^ n * rounding ^ m :=
        mul_le_mul_of_nonneg_right h'.le (rounding_pow_pos m).le
      _ = z * rounding ^ (m + n) := by ring
  ge := by
    calc z ≤ y * rounding ^ n := h'.ge
      _ ≤ x * rounding ^ m * rounding ^ n :=
        mul_le_mul_of_nonneg_right h.ge (rounding_pow_pos n).le
      _ = x * rounding ^ (m + n) := by ring

theorem nonneg_iff (h : Within n x y) : 0 ≤ x ↔ 0 ≤ y :=
  ⟨fun hx => nonneg_of_mul_nonneg_left (hx.trans h.le) (rounding_pow_pos n),
    fun hy => nonneg_of_mul_nonneg_left (hy.trans h.ge) (rounding_pow_pos n)⟩

theorem pos_iff (h : Within n x y) : 0 < x ↔ 0 < y :=
  ⟨fun hx => pos_of_mul_pos_left (hx.trans_le h.le) (rounding_pow_pos n).le,
    fun hy => pos_of_mul_pos_left (hy.trans_le h.ge) (rounding_pow_pos n).le⟩

theorem mono (h : Within m x y) (hx : 0 ≤ x) (hmn : m ≤ n) : Within n x y := by
  have hpow : rounding ^ m ≤ rounding ^ n := pow_le_pow_right₀ one_le_rounding hmn
  have hy := h.nonneg_iff.1 hx
  exact ⟨h.le.trans (by gcongr), h.ge.trans (by gcongr)⟩

theorem add (h : Within n x y) (h' : Within n x' y') : Within n (x + x') (y + y') where
  le := by
    rw [add_mul]
    exact add_le_add h.le h'.le
  ge := by
    rw [add_mul]
    exact add_le_add h.ge h'.ge

theorem mul (h : Within m x y) (h' : Within n x' y') (hx : 0 ≤ x) (hx' : 0 ≤ x') :
    Within (m + n) (x * x') (y * y') where
  le := by
    calc x * x' ≤ y * rounding ^ m * (y' * rounding ^ n) :=
        mul_le_mul h.le h'.le hx' (hx.trans h.le)
      _ = y * y' * rounding ^ (m + n) := by ring
  ge := by
    calc y * y' ≤ x * rounding ^ m * (x' * rounding ^ n) :=
        mul_le_mul h.ge h'.ge (h'.nonneg_iff.1 hx') ((h.nonneg_iff.1 hx).trans h.ge)
      _ = x * x' * rounding ^ (m + n) := by ring

theorem inv (h : Within n x y) (hx : 0 < x) : Within n x⁻¹ y⁻¹ := by
  have hy := h.pos_iff.1 hx
  constructor
  · rw [inv_mul_eq_div, inv_eq_one_div, div_le_div_iff₀ hx hy, one_mul, mul_comm]
    exact h.ge
  · rw [inv_mul_eq_div, inv_eq_one_div, div_le_div_iff₀ hy hx, one_mul, mul_comm]
    exact h.le

theorem div (h : Within m x y) (h' : Within n x' y') (hx : 0 ≤ x) (hx' : 0 < x') :
    Within (m + n) (x / x') (y / y') := by
  rw [div_eq_mul_inv, div_eq_mul_inv]
  exact h.mul (h'.inv hx') hx (inv_nonneg.2 hx'.le)

theorem abs_sub_le (h : Within n x y) (hx : 0 ≤ x) (hn : n ≤ 2 ^ 51) :
    |x - y| ≤ n / 2 ^ 51 * min x y := by
  have hpow := rounding_pow_le hn
  have hy := h.nonneg_iff.1 hx
  have hup : x ≤ y * (1 + n / 2 ^ 51) := h.le.trans (by gcongr)
  have hdown : y ≤ x * (1 + n / 2 ^ 51) := h.ge.trans (by gcongr)
  rcases le_total x y with hxy | hxy
  · rw [min_eq_left hxy, abs_of_nonpos (by linarith)]
    linarith
  · rw [min_eq_right hxy, abs_of_nonneg (by linarith)]
    linarith

theorem le_two_mul (h : Within n x y) (hx : 0 ≤ x) (hn : n ≤ 2 ^ 51) : x ≤ 2 * y := by
  have hone : (n : ℚ) / 2 ^ 51 ≤ 1 := by
    rw [div_le_one (by positivity)]
    exact_mod_cast hn
  have hy := h.nonneg_iff.1 hx
  calc x ≤ y * rounding ^ n := h.le
    _ ≤ y * (1 + n / 2 ^ 51) := by
      gcongr
      exact rounding_pow_le hn
    _ ≤ y * (1 + 1) := by gcongr
    _ = 2 * y := by ring

end Within

/-! ## One rounding -/

theorem least_normal : (2 : ℚ) ^ (-1022 : ℤ) = (2 ^ 52 : ℕ) * 2 ^ (-1074 : ℤ) := by
  rw [Nat.cast_pow, Nat.cast_ofNat, ← zpow_natCast, ← zpow_add₀ two_ne_zero]
  rfl

theorem RoundsTo.abs_sub_le {x r : ℚ} (h : RoundsTo x r) (hx : 2 ^ (-1022 : ℤ) ≤ x) :
    |r - x| ≤ x / 2 ^ 53 := by
  have hpos : 0 < x := lt_of_lt_of_le (by positivity) hx
  have hr := h.nonneg hpos.le
  obtain ⟨k, hk⟩ : ∃ k : ℤ, k + 52 = Int.log 2 x := ⟨Int.log 2 x - 52, by omega⟩
  have hlow : (2 : ℚ) ^ (k + 52) ≤ x := hk ▸ Int.zpow_log_le_self one_lt_two hpos
  have hhigh : x < 2 ^ (k + 53) := by
    have := Int.lt_zpow_succ_log_self (R := ℚ) one_lt_two x
    rwa [← hk, add_assoc] at this
  have hleast : -1074 ≤ k := by
    have := (zpow_lt_zpow_iff_right₀ (one_lt_two (α := ℚ))).1 (hx.trans_lt hhigh)
    omega
  have hspan : |x| < 2 ^ (k + 53) := by rwa [abs_of_pos hpos]
  have hup := h.abs_le_add k hleast hspan
  have hdown := h.le_abs_add k hleast hspan
  rw [abs_of_pos hpos, abs_of_nonneg hr] at hup hdown
  have hunit : (2 : ℚ) ^ (k - 1) ≤ x / 2 ^ 53 := by
    rw [le_div_iff₀ (by positivity)]
    refine le_trans (le_of_eq ?_) hlow
    rw [← zpow_natCast, ← zpow_add₀ two_ne_zero]
    congr 1
    omega
  rw [abs_sub_le_iff]
  constructor <;> linarith

theorem RoundsTo.within_of_le {x r : ℚ} (h : RoundsTo x r) (hx : 2 ^ (-1022 : ℤ) ≤ x) :
    Within 1 r x := by
  have hpos : 0 < x := lt_of_lt_of_le (by positivity) hx
  obtain ⟨hup, hdown⟩ := abs_sub_le_iff.1 (h.abs_sub_le hx)
  constructor
  · rw [pow_one, rounding]
    linarith
  · rw [pow_one, rounding]
    linarith

/-- Multiples of the smallest double are rounded by one rounding at most, also where they are
small. -/
theorem RoundsTo.within {x r : ℚ} (h : RoundsTo x r) {c : ℕ} (hx : x = c * 2 ^ (-1074 : ℤ)) :
    Within 1 r x := by
  rcases lt_or_ge c (2 ^ 53) with hc | hc
  · subst hx
    rw [h.eq_of_double hc le_rfl]
    exact (Within.refl _).mono (by positivity) (Nat.zero_le 1)
  · refine h.within_of_le ?_
    have hlarge : ((2 ^ 52 : ℕ) : ℚ) ≤ c := by exact_mod_cast le_trans (by decide) hc
    rw [hx, least_normal]
    gcongr

/-! ## Computed results -/

/-- A double that is not negative and a number of roundings away from an exact result. -/
def Approximates (n : ℕ) (a : Float) (x : ℚ) : Prop :=
  ∃ v, IsExactly a v ∧ 0 ≤ v ∧ Within n v x

theorem IsExactly.approximates {a : Float} {v : ℚ} (h : IsExactly a v) (hv : 0 ≤ v) :
    Approximates 0 a v :=
  ⟨v, h, hv, .refl v⟩

theorem IsExactly.exists_units {a : Float} {v : ℚ} (h : IsExactly a v) (hv : 0 ≤ v) :
    ∃ c : ℕ, v = c * 2 ^ (-1074 : ℤ) := by
  obtain ⟨m, e, rfl, -, he⟩ := h.exists_double hv
  exact exists_mul_two_zpow m he

section Operations

variable {m n : ℕ} {a b : Float} {x y : ℚ}

theorem Approximates.nonneg (h : Approximates n a x) : 0 ≤ x := by
  obtain ⟨v, -, hv, hx⟩ := h
  exact hx.nonneg_iff.1 hv

theorem Approximates.mono (h : Approximates m a x) (hmn : m ≤ n) : Approximates n a x := by
  obtain ⟨v, ha, hv, hx⟩ := h
  exact ⟨v, ha, hv, hx.mono hv hmn⟩

theorem Approximates.add (ha : Approximates n a x) (hb : Approximates n b y) (hn : n ≤ 2 ^ 51)
    (hspan : x + y < 2 ^ 150) : Approximates (n + 1) (a + b) (x + y) := by
  obtain ⟨u, hu, hu0, hx⟩ := ha
  obtain ⟨v, hv, hv0, hy⟩ := hb
  have hsum := hx.add hy
  have hsmall : |u + v| < 2 ^ 200 := by
    rw [abs_of_nonneg (add_nonneg hu0 hv0)]
    calc u + v ≤ 2 * (x + y) := hsum.le_two_mul (add_nonneg hu0 hv0) hn
      _ < 2 * 2 ^ 150 := by gcongr
      _ < 2 ^ 200 := by norm_num
  obtain ⟨r, hrounded, hr⟩ := hu.exists_add hv hsmall
  obtain ⟨c, hc⟩ := hu.exists_units hu0
  obtain ⟨d, hd⟩ := hv.exists_units hv0
  have hunits : u + v = (c + d : ℕ) * 2 ^ (-1074 : ℤ) := by
    rw [hc, hd, Nat.cast_add, add_mul]
  refine ⟨r, hr, hrounded.nonneg (add_nonneg hu0 hv0), ?_⟩
  rw [add_comm n 1]
  exact (hrounded.within hunits).trans hsum

theorem Approximates.add_pos_iff (ha : Approximates n a x) (hb : Approximates n b y) :
    0.0 < a + b ↔ 0 < x + y := by
  obtain ⟨u, hu, -, hx⟩ := ha
  obtain ⟨v, hv, -, hy⟩ := hb
  exact (hu.add_pos_iff hv).trans (hx.add hy).pos_iff

theorem IsExactly.mul_whole {u v : ℚ} (ha : IsExactly a u) (hb : IsExactly b v) (hu : 0 ≤ u)
    (hv : 0 ≤ v) (hwhole : (∃ c : ℕ, u = c) ∨ ∃ c : ℕ, v = c) (hspan : u * v < 2 ^ 200) :
    Approximates 1 (a * b) (u * v) := by
  have hnonneg : 0 ≤ u * v := mul_nonneg hu hv
  obtain ⟨r, hrounded, hr⟩ := ha.exists_mul hb (by rwa [abs_of_nonneg hnonneg])
  obtain ⟨c, hc⟩ : ∃ c : ℕ, u * v = c * 2 ^ (-1074 : ℤ) := by
    rcases hwhole with ⟨c, rfl⟩ | ⟨c, rfl⟩
    · obtain ⟨d, rfl⟩ := hb.exists_units hv
      exact ⟨c * d, by rw [Nat.cast_mul, mul_assoc]⟩
    · obtain ⟨d, rfl⟩ := ha.exists_units hu
      exact ⟨d * c, by rw [Nat.cast_mul, mul_right_comm]⟩
  exact ⟨r, hr, hrounded.nonneg hnonneg, hrounded.within hc⟩

theorem exists_approximates_ofNat {n : ℕ} (hspan : n < 2 ^ 64) :
    ∃ c : ℕ, IsExactly (Float.ofNat n) c ∧ Within 1 c n := by
  obtain ⟨c, hrounded, hc⟩ := exists_natCast_ofNat hspan
  obtain ⟨d, hd⟩ := exists_mul_two_zpow n (t := -1074) (k := 0) (by decide)
  rw [zpow_zero, mul_one] at hd
  exact ⟨c, hc, hrounded.within hd⟩

/-- A quotient is rounded once, or else it is next to nothing. -/
theorem Approximates.div (ha : Approximates m a x) (hb : Approximates n b y) (hy : 0 < y)
    (hmn : m + n ≤ 2 ^ 51) (hspan : x / y < 2 ^ 150) :
    ∃ r, IsExactly (a / b) r ∧ 0 ≤ r ∧
      (Within (m + n + 1) r (x / y) ∨ r ≤ 2 ^ (-1022 : ℤ) ∧ x / y ≤ 2 ^ (-1021 : ℤ)) := by
  obtain ⟨u, hu, hu0, hx⟩ := ha
  obtain ⟨v, hv, -, hy'⟩ := hb
  have hv0 : 0 < v := hy'.pos_iff.2 hy
  have hquotient := hx.div hy' hu0 hv0
  have hnonneg : 0 ≤ u / v := div_nonneg hu0 hv0.le
  have hsmall : u / v < 2 ^ 200 := by
    calc u / v ≤ 2 * (x / y) := hquotient.le_two_mul hnonneg hmn
      _ < 2 * 2 ^ 150 := by gcongr
      _ < 2 ^ 200 := by norm_num
  obtain ⟨r, hrounded, hr⟩ := hu.exists_div hv hu0 hv0 hsmall
  have hr0 := hrounded.nonneg hnonneg
  refine ⟨r, hr, hr0, ?_⟩
  rcases le_or_gt (2 ^ (-1022 : ℤ)) (u / v) with hlarge | htiny
  · rw [add_comm (m + n) 1]
    exact Or.inl ((hrounded.within_of_le hlarge).trans hquotient)
  · have hspan : |u / v| < 2 ^ (-1074 + 53 : ℤ) := by
      rw [abs_of_nonneg hnonneg]
      exact htiny.trans (zpow_lt_zpow_right₀ one_lt_two (by decide))
    have hle : |u / v| ≤ (2 ^ 52 : ℕ) * 2 ^ (-1074 : ℤ) := by
      rw [abs_of_nonneg hnonneg, ← least_normal]
      exact htiny.le
    have hbound := hrounded.abs_le (-1074) (2 ^ 52) le_rfl hspan hle
    rw [abs_of_nonneg hr0, ← least_normal] at hbound
    refine Or.inr ⟨hbound, ?_⟩
    calc x / y ≤ 2 * (u / v) := hquotient.symm.le_two_mul (hquotient.nonneg_iff.1 hnonneg) hmn
      _ ≤ 2 * 2 ^ (-1022 : ℤ) := by gcongr
      _ = 2 ^ (-1021 : ℤ) := by
        rw [← zpow_one_add₀ two_ne_zero]
        rfl

end Operations

/-! ## Sums of many -/

def fraction (x : Float) : ℚ :=
  match x.toModel.unpack with
  | .finite s m e _ => s.apply m * 2 ^ e
  | _ => 0

theorem IsExactly.fraction_eq {x : Float} {v : ℚ} (h : IsExactly x v) : fraction x = v := by
  unfold fraction
  rcases h.cases with ⟨s, hx, rfl⟩ | ⟨s, m, e, hm, hx, rfl⟩ <;> rw [hx]

def exactSum (terms : List Float) : ℚ :=
  (terms.map fraction).sum

def IsAmount (x : Float) : Prop :=
  IsExactly x (fraction x) ∧ 0 ≤ fraction x

theorem exactSum_nonneg {terms : List Float} (h : ∀ x ∈ terms, IsAmount x) : 0 ≤ exactSum terms := by
  apply List.sum_nonneg
  intro v hv
  obtain ⟨x, hx, rfl⟩ := List.mem_map.1 hv
  exact (h x hx).2

/-- A sum that is added up from the left is rounded once for each term. -/
theorem Approximates.foldl {terms : List Float} (hterms : ∀ x ∈ terms, IsAmount x) :
    ∀ {n : ℕ} {a : Float} {x : ℚ}, Approximates n a x → n + terms.length ≤ 2 ^ 51 →
      x + exactSum terms < 2 ^ 150 →
      Approximates (n + terms.length) (terms.foldl (· + ·) a) (x + exactSum terms) := by
  induction terms with
  | nil =>
    intro n a x ha _ _
    simpa [exactSum] using ha
  | cons d rest ih =>
    intro n a x ha hn hspan
    have hd := hterms d List.mem_cons_self
    have hrest : ∀ y ∈ rest, IsAmount y := fun y hy => hterms y (List.mem_cons_of_mem d hy)
    have hsum : exactSum (d :: rest) = fraction d + exactSum rest := by simp [exactSum]
    rw [List.length_cons] at hn
    rw [hsum, ← add_assoc] at hspan ⊢
    have hfirst : x + fraction d < 2 ^ 150 := by linarith [exactSum_nonneg hrest]
    have hstep := ha.add ((hd.1.approximates hd.2).mono (Nat.zero_le n)) (by omega) hfirst
    rw [List.foldl_cons, List.length_cons, add_comm rest.length 1, ← add_assoc]
    exact ih hrest hstep (by omega) hspan

theorem unpack_foldl_undefined {terms : List Float} {a : Float}
    (h : a.toModel.unpack = .notANumber ∨ ∃ x ∈ terms, x.toModel.unpack = .notANumber) :
    (terms.foldl (· + ·) a).toModel.unpack = .notANumber := by
  induction terms generalizing a with
  | nil => simpa using h
  | cons d rest ih =>
    rw [List.foldl_cons]
    apply ih
    rcases h with ha | ⟨x, hx, hundefined⟩
    · exact Or.inl (unpack_add_undefined ha d)
    · rcases List.mem_cons.1 hx with rfl | hx
      · rw [floatAdd_comm]
        exact Or.inl (unpack_add_undefined hundefined a)
      · exact Or.inr ⟨x, hx, hundefined⟩

end StreetLinking.Number
