import StreetLinking.Plane.Earth
import StreetLinking.Proofs.Number.Accuracy
/-!
# Lengths of lines

The length of a line adds up the distances from point to point in the order of the line, so from the
other end it may be rounded otherwise. The distances themselves are the same both ways. Main
statements: a length is as many roundings away from the exact sum as the line has segments, and the
whole millimetres of a line and of the line from its other end are one apart at most, and a share of
both that only lines of millions of points notice.
-/

namespace StreetLinking.Plane

open Number Float.Model

/-! ## Great circles -/

theorem point_beq_comm (a b : Point Float) : (a == b) = (b == a) := by
  have hcomm (x y : Float) : (x == y) = (y == x) := by
    rw [Bool.eq_iff_iff, Float.beq_iff_ne_nan_and_eq, Float.beq_iff_ne_nan_and_eq]
    tauto
  show (a.x == b.x && a.y == b.y) = (b.x == a.x && b.y == a.y)
  rw [hcomm a.x, hcomm a.y]

theorem greatCircle_comm (a b : Point Float) : greatCircle a b = greatCircle b a := by
  unfold greatCircle
  simp only [Bool.and_comm a.isFinite, point_beq_comm a, floatAbs_sub_comm b.x,
    floatAbs_sub_comm b.y,
    floatMul_comm (radians a.y).cos]

theorem isFinite_of_greatCircle {a b : Point Float}
    (h : (greatCircle a b).toModel.unpack ≠ .notANumber) :
    a.isFinite = true ∧ b.isFinite = true := by
  by_contra hfinite
  rw [← Bool.and_eq_true] at hfinite
  apply h
  rw [greatCircle, Bool.eq_false_iff.2 hfinite, if_pos (by decide)]
  rfl

theorem greatCircle_self {a : Point Float} (h : a.isFinite = true) : greatCircle a a = 0.0 := by
  have hsame : (a == a) = true := by
    have hx : a.x.isFinite = true ∧ a.y.isFinite = true := by
      simpa [Point.isFinite] using h
    obtain ⟨u, hu⟩ := exists_isExactly hx.1
    obtain ⟨v, hv⟩ := exists_isExactly hx.2
    show (a.x == a.x && a.y == a.y) = true
    rw [hu.beq_self, hv.beq_self]
    rfl
  simp [greatCircle, h, hsame]

def IsDistance (d : Float) : Prop :=
  IsAmount d ∧ Number.fraction d ≤ 2 ^ 25

theorem isDistance_zero : IsDistance 0.0 := by
  have hzero : IsExactly 0.0 0 := by rfl
  rw [IsDistance, IsAmount, hzero.fraction_eq]
  exact ⟨⟨hzero, le_rfl⟩, by positivity⟩

theorem isExactly_four : IsExactly 4.0 4 := by
  have hsame : (4.0 : Float) = Float.ofNat 4 := by rfl
  rw [hsame]
  exact isExactly_ofNat_of_lt (n := 4) (by decide)

theorem boundedArc_cases (arc : Float) :
    (boundedArc arc).toModel.unpack = .notANumber ∨
      ∃ v, IsExactly (boundedArc arc) v ∧ 0 ≤ v ∧ v ≤ 4 := by
  have hzero : IsExactly 0.0 0 := by rfl
  by_cases hdefined : arc.isNaN = false
  · right
    unfold boundedArc
    split
    · exact ⟨0, hzero, le_rfl, by norm_num⟩
    · next hlow =>
      split
      · exact ⟨4, isExactly_four, by norm_num, le_rfl⟩
      · next hhigh =>
        exact hzero.exists_between isExactly_four
          (floatLE_of_not_lt hzero.isNaN_eq_false hdefined hlow)
          (floatLE_of_not_lt hdefined isExactly_four.isNaN_eq_false hhigh)
  · left
    have hundefined : arc.toModel.unpack = .notANumber := by
      by_contra h
      exact hdefined (isNaN_eq_false_iff.2 h)
    have hlow : ¬ arc < 0.0 := fun h => hdefined (floatLT_iff.1 h).1
    have hhigh : ¬ 4.0 < arc := fun h => hdefined (floatLT_iff.1 h).2.1
    rw [boundedArc, if_neg hlow, if_neg hhigh]
    exact hundefined

theorem exists_radius : ∃ r, IsExactly 6371008.8 r ∧ 0 ≤ r ∧ r ≤ 2 ^ 23 := by
  have hunpack : (6371008.8 : Float).toModel.unpack =
      .finite .positive 6840818609632051 (-30) (by decide) := by rfl
  refine ⟨_, isExactly_of_finite hunpack, ?_, ?_⟩ <;> norm_num [UnpackedFloat.Sign.apply]

/-- The distance of two points is undefined or no more than half of the equator. -/
theorem greatCircle_cases (a b : Point Float) :
    (greatCircle a b).toModel.unpack = .notANumber ∨ IsDistance (greatCircle a b) := by
  unfold greatCircle
  split
  · exact Or.inl rfl
  · split
    · exact Or.inr isDistance_zero
    · obtain ⟨radius, hradius, hr0, hr⟩ := exists_radius
      rcases boundedArc_cases _ with hundefined | ⟨v, hv, hv0, hv4⟩
      · left
        rw [floatMul_comm]
        exact unpack_mul_undefined hundefined _
      · right
        have hproduct : radius * v ≤ 2 ^ 25 := by
          calc radius * v ≤ 2 ^ 23 * 4 := by gcongr
            _ = 2 ^ 25 := by norm_num
        have hnonneg : 0 ≤ radius * v := mul_nonneg hr0 hv0
        have hsmall : |radius * v| < 2 ^ 200 := by
          rw [abs_of_nonneg hnonneg]
          exact hproduct.trans_lt (by norm_num)
        obtain ⟨d, hrounded, hd⟩ := hradius.exists_mul hv hsmall
        have hd0 := hrounded.nonneg hnonneg
        have hbound := hrounded.abs_le 0 (2 ^ 25) (by decide)
          (by rw [abs_of_nonneg hnonneg]; exact hproduct.trans_lt (by norm_num))
          (by rw [abs_of_nonneg hnonneg]; exact_mod_cast hproduct)
        rw [abs_of_nonneg hd0] at hbound
        rw [IsDistance, IsAmount, hd.fraction_eq]
        exact ⟨⟨hd, hd0⟩, by exact_mod_cast hbound⟩

/-! ## The distances along a line -/

section Distances

variable {α : Type} [Scalar α]

theorem segments_append_cons {α : Type} (first rest : Line α) (a : Point α) :
    segments (first ++ a :: rest) = segments (first ++ [a]) ++ segments (a :: rest) := by
  induction first with
  | nil => rfl
  | cons b first ih =>
    cases first with
    | nil => rfl
    | cons c first =>
      simp only [List.cons_append, segments_cons_cons] at ih ⊢
      rw [ih]

theorem segments_reverse {α : Type} (line : Line α) :
    segments line.reverse = ((segments line).map Prod.swap).reverse := by
  induction line with
  | nil => rfl
  | cons a rest ih =>
    cases rest with
    | nil => rfl
    | cons b rest =>
      rw [List.reverse_cons] at ih ⊢
      rw [List.reverse_cons, List.append_assoc, List.singleton_append, segments_append_cons, ih]
      simp

def distances (line : Line α) : List Float :=
  (segments line).map fun s => metresBetween s.1 s.2

theorem lineMetres_eq (line : Line α) : lineMetres line = (distances line).foldl (· + ·) 0.0 := by
  rw [lineMetres, distances, List.foldl_map]

theorem length_distances (line : Line α) : (distances line).length = line.length - 1 := by
  rw [distances, List.length_map, length_segments]

theorem distances_reverse (line : Line α) : distances line.reverse = (distances line).reverse := by
  rw [distances, distances, segments_reverse, ← List.map_reverse, List.map_map, ← List.map_reverse]
  apply List.map_congr_left
  intro s _
  exact greatCircle_comm _ _

theorem exactSum_reverse (line : Line α) :
    exactSum (distances line.reverse) = exactSum (distances line) := by
  rw [distances_reverse, exactSum, List.map_reverse, List.sum_reverse, exactSum]

def IsMeasured (line : Line α) : Prop :=
  ∀ d ∈ distances line, IsDistance d

theorem isMeasured_reverse_iff (line : Line α) : IsMeasured line.reverse ↔ IsMeasured line := by
  simp [IsMeasured, distances_reverse]

theorem isMeasured_of_lineMetres {line : Line α}
    (h : (lineMetres line).toModel.unpack ≠ .notANumber) : IsMeasured line := by
  intro d hd
  have hdefined : d.toModel.unpack ≠ .notANumber := by
    intro hundefined
    rw [lineMetres_eq] at h
    exact h (unpack_foldl_undefined (Or.inr ⟨d, hd, hundefined⟩))
  obtain ⟨s, -, rfl⟩ := List.mem_map.1 hd
  exact (greatCircle_cases _ _).resolve_left hdefined

theorem isMeasured_of_sum_pos {first second : Line α}
    (h : 0.0 < lineMetres first + lineMetres second) : IsMeasured first ∧ IsMeasured second := by
  have hdefined := (floatLT_iff.1 h).2.1
  constructor
  · exact isMeasured_of_lineMetres fun hundefined =>
      isNaN_eq_false_iff.1 hdefined (unpack_add_undefined hundefined _)
  · rw [floatAdd_comm] at hdefined
    exact isMeasured_of_lineMetres fun hundefined =>
      isNaN_eq_false_iff.1 hdefined (unpack_add_undefined hundefined _)

theorem IsMeasured.exactSum_le {line : Line α} (h : IsMeasured line) :
    exactSum (distances line) ≤ line.length * 2 ^ 25 := by
  have hlength : (distances line).length ≤ line.length := by
    rw [length_distances]
    exact Nat.sub_le _ _
  calc exactSum (distances line) ≤ ((distances line).map Number.fraction).length • (2 ^ 25 : ℚ) := by
        apply List.sum_le_card_nsmul
        intro v hv
        obtain ⟨d, hd, rfl⟩ := List.mem_map.1 hv
        exact (h d hd).2
    _ ≤ line.length * 2 ^ 25 := by
        rw [List.length_map, nsmul_eq_mul]
        gcongr

theorem IsMeasured.approximates {line : Line α} (h : IsMeasured line) {n : ℕ}
    (hline : line.length ≤ n + 1) (hn : n ≤ 2 ^ 50) :
    Approximates n (lineMetres line) (exactSum (distances line)) := by
  have hzero : IsExactly 0.0 0 := by rfl
  have hlength := length_distances line
  have hspan : 0 + exactSum (distances line) < 2 ^ 150 := by
    have hpoints : (line.length : ℚ) ≤ 2 ^ 51 := by exact_mod_cast (by omega : line.length ≤ 2 ^ 51)
    calc 0 + exactSum (distances line) ≤ line.length * 2 ^ 25 := by
          rw [zero_add]
          exact h.exactSum_le
      _ ≤ 2 ^ 51 * 2 ^ 25 := by gcongr
      _ < 2 ^ 150 := by norm_num
  have hcount : 0 + (distances line).length ≤ 2 ^ 51 := by omega
  have hsum := (hzero.approximates le_rfl).foldl (fun d hd => (h d hd).1) hcount hspan
  rw [← lineMetres_eq, zero_add, zero_add, hlength] at hsum
  exact hsum.mono (Nat.sub_le_iff_le_add.2 hline)

end Distances

/-! ## Whole millimetres -/

theorem isExactly_perMetre : IsExactly 1000.0 (1000 : ℕ) := by
  have hsame : (1000.0 : Float) = Float.ofNat 1000 := by rfl
  rw [hsame]
  exact isExactly_ofNat_of_lt (by decide)

theorem approximates_perMetre {n : ℕ} {a : Float} {x : ℚ} (h : Approximates n a x)
    (hn : n ≤ 2 ^ 51) (hspan : x < 2 ^ 150) :
    Approximates (n + 1) (a * 1000.0) (x * (1000 : ℕ)) := by
  obtain ⟨u, hu, hu0, hx⟩ := h
  have hsmall : u * (1000 : ℕ) < 2 ^ 200 := by
    calc u * (1000 : ℕ) ≤ 2 * x * (1000 : ℕ) := by
          gcongr
          exact hx.le_two_mul hu0 hn
      _ < 2 * 2 ^ 150 * (1000 : ℕ) := by gcongr
      _ < 2 ^ 200 := by norm_num
  obtain ⟨v, hv, hv0, hrounded⟩ := hu.mul_whole isExactly_perMetre hu0 (Nat.cast_nonneg _)
    (Or.inr ⟨1000, rfl⟩) hsmall
  refine ⟨v, hv, hv0, ?_⟩
  rw [add_comm n 1]
  exact hrounded.trans (hx.mul (.refl _) hu0 (Nat.cast_nonneg _))

/-- Lengths that are rounded from the same sum come to the same millimetres, but for one and for a
share that grows with the number of roundings. -/
theorem millimetres_le_add {n : ℕ} {a b : Float} {x : ℚ} (ha : Approximates n a x)
    (hb : Approximates n b x) (hn : n ≤ 2 ^ 49) (hspan : x < 2 ^ 150) :
    millimetres a ≤
      millimetres b + 1 + (n + 1) * (millimetres a + millimetres b) / 2 ^ 51 := by
  obtain ⟨v, hv, hv0, hx⟩ := approximates_perMetre ha (by omega) hspan
  obtain ⟨w, hw, hw0, hy⟩ := approximates_perMetre hb (by omega) hspan
  have hclose := (hx.trans hy.symm).abs_sub_le hv0 (by omega)
  have hup := (hv.round_near hv0).1
  rcases (hw.round_near hw0).2 with hdown | hcap
  · rw [millimetres, millimetres]
    generalize round (a * 1000.0) = r at hup ⊢
    generalize round (b * 1000.0) = s at hdown ⊢
    rcases le_or_gt r (s + 1) with hle | hgt
    · exact hle.trans (Nat.le_add_right _ _)
    · obtain ⟨k, rfl⟩ := Nat.exists_eq_add_of_le hgt.le
      refine Nat.add_le_add_left ((Nat.le_div_iff_mul_le (by positivity)).2 ?_) _
      have hexcess : (k : ℚ) ≤ (n + 1 + (n + 1) : ℕ) / 2 ^ 51 * (s + 1 / 2) := by
        push_cast at hup
        calc (k : ℚ) ≤ v - w := by linarith
          _ ≤ |v - w| := le_abs_self _
          _ ≤ (n + 1 + (n + 1) : ℕ) / 2 ^ 51 * min v w := hclose
          _ ≤ (n + 1 + (n + 1) : ℕ) / 2 ^ 51 * (s + 1 / 2) := by
            gcongr
            exact (min_le_right _ _).trans hdown
      have hscaled : (k : ℚ) * 2 ^ 51 ≤ (n + 1) * (2 * s + 1) := by
        rw [div_mul_eq_mul_div, le_div_iff₀ (by positivity)] at hexcess
        push_cast at hexcess
        linarith
      have hwhole : k * 2 ^ 51 ≤ (n + 1) * (2 * s + 1) := by exact_mod_cast hscaled
      exact hwhole.trans (Nat.mul_le_mul_left _ (by omega))
  · exact (round_le_maxCount _).trans (hcap ▸ (Nat.le_add_right _ _).trans (Nat.le_add_right _ _))

/-- What the lengths of two edges over the same points may differ by because their sums are rounded
in opposite orders. The edges of a street of a thousand points have none up to a quarter of a
million kilometres. -/
def leeway (points first second : ℕ) : ℕ :=
  points * (first + second) / 2 ^ 49

theorem add_le_leeway {points : ℕ} (h : 2 ^ 49 ≤ points) (a b : ℕ) : a + b ≤ leeway points a b := by
  rw [leeway, Nat.le_div_iff_mul_le (by positivity), mul_comm]
  exact Nat.mul_le_mul_right _ h

theorem abs_sub_natCast (a b : ℕ) : |(a : ℚ) - b| = Nat.dist a b := by
  rcases le_total a b with hab | hab
  · rw [Nat.dist_eq_sub_of_le hab, Nat.cast_sub hab, abs_sub_comm, abs_of_nonneg]
    exact sub_nonneg.2 (by exact_mod_cast hab)
  · rw [Nat.dist_eq_sub_of_le_right hab, Nat.cast_sub hab, abs_of_nonneg]
    exact sub_nonneg.2 (by exact_mod_cast hab)

/-- Whole numbers that are no further apart than one and a fraction are no further apart than it
and the whole part of the fraction. -/
theorem natDist_le {a b t n d : ℕ} (hd : 0 < d) (h : |(a : ℚ) - b| ≤ t + n / d) :
    Nat.dist a b ≤ t + n / d := by
  have hd' : (0 : ℚ) < d := by exact_mod_cast hd
  rw [abs_sub_natCast, ← sub_le_iff_le_add', le_div_iff₀ hd'] at h
  rw [← Nat.sub_le_iff_le_add', Nat.le_div_iff_mul_le hd]
  rcases le_total (Nat.dist a b) t with hle | hle
  · rw [Nat.sub_eq_zero_of_le hle, zero_mul]
    exact Nat.zero_le n
  · exact_mod_cast (Nat.cast_sub hle (R := ℚ)).symm ▸ h

variable {α : Type} [Scalar α]

theorem lineMetres_reverse_of_not_isMeasured {line : Line α} (h : ¬ IsMeasured line) :
    lineMetres line.reverse = lineMetres line := by
  have hundefined {line : Line α} (h : ¬ IsMeasured line) : lineMetres line = Float.nan := by
    have hnan : (lineMetres line).isNaN = true := by
      rw [← Bool.not_eq_false, isNaN_eq_false_iff]
      exact fun hdefined => h (isMeasured_of_lineMetres hdefined)
    rw [Float.isNaN_eq_decide_eq_nan] at hnan
    exact of_decide_eq_true hnan
  rw [hundefined h, hundefined (mt (isMeasured_reverse_iff line).1 h)]

theorem dist_millimetres_reverse (line : Line α) :
    Nat.dist (millimetres (lineMetres line)) (millimetres (lineMetres line.reverse)) ≤
      1 + leeway line.length (millimetres (lineMetres line))
        (millimetres (lineMetres line.reverse)) := by
  by_cases hmeasured : IsMeasured line
  · cases hline : line with
    | nil =>
      rw [List.reverse_nil, Nat.dist_self]
      exact Nat.zero_le _
    | cons p rest =>
      rw [← hline]
      obtain ⟨n, hn⟩ : ∃ n, line.length = n + 1 := ⟨rest.length, by rw [hline, List.length_cons]⟩
      rcases le_or_gt (2 ^ 49) line.length with hmany | hfew
      · have hsum := add_le_leeway hmany (millimetres (lineMetres line))
          (millimetres (lineMetres line.reverse))
        unfold Nat.dist
        omega
      · have hspan : exactSum (distances line) < 2 ^ 150 := by
          have hpoints : (line.length : ℚ) ≤ 2 ^ 49 := by exact_mod_cast hfew.le
          calc exactSum (distances line) ≤ line.length * 2 ^ 25 := hmeasured.exactSum_le
            _ ≤ 2 ^ 49 * 2 ^ 25 := by gcongr
            _ < 2 ^ 150 := by norm_num
        have hfront := hmeasured.approximates hn.le (by omega)
        have hrear := ((isMeasured_reverse_iff line).2 hmeasured).approximates (n := n)
          (by rw [List.length_reverse, hn]) (by omega)
        rw [exactSum_reverse] at hrear
        have hup := millimetres_le_add hfront hrear (by omega) hspan
        have hdown := millimetres_le_add hrear hfront (by omega) hspan
        rw [← hn] at hup hdown
        generalize millimetres (lineMetres line) = a at hup hdown ⊢
        generalize millimetres (lineMetres line.reverse) = b at hup hdown ⊢
        have hleeway : line.length * (a + b) / 2 ^ 51 ≤ leeway line.length a b :=
          Nat.div_le_div_left (by decide) (by decide)
        rw [add_comm b a] at hdown
        unfold Nat.dist
        omega
  · rw [lineMetres_reverse_of_not_isMeasured hmeasured, Nat.dist_self]
    exact Nat.zero_le _

/-! ## Lines there and back -/

/-- A line leads back along another one, and may rest where it turns. -/
def Retraces {α : Type} (line other : Line α) : Prop :=
  ∃ (k : ℕ) (q : Point α) (rest : Line α), other = rest ++ [q] ∧
    line = List.replicate (k + 1) q ++ rest.reverse

theorem retraces_of_resting {α : Type} (k : ℕ) (q : Point α) (rest : Line α) :
    Retraces (List.replicate k q ++ (rest ++ [q]).reverse) (rest ++ [q]) := by
  refine ⟨k, q, rest, rfl, ?_⟩
  rw [List.reverse_append, List.reverse_singleton, ← List.append_assoc, List.replicate_succ']

theorem fraction_metresBetween_self (q : Point α) : Number.fraction (metresBetween q q) = 0 := by
  by_cases h : q.toDouble.isFinite = true
  · rw [metresBetween, greatCircle_self h]
    rfl
  · rw [metresBetween, greatCircle, Bool.eq_false_iff.2 h, if_pos (by decide)]
    rfl

theorem distances_resting (q : Point α) (k : ℕ) (rest : Line α) :
    distances (List.replicate (k + 1) q ++ rest) =
      List.replicate k (metresBetween q q) ++ distances (q :: rest) := by
  induction k with
  | zero => rfl
  | succ k ih =>
    rw [List.replicate_succ (n := k), List.cons_append, ← ih]
    rfl

theorem Retraces.exists_distances {line other : Line α} (h : Retraces line other) :
    ∃ (k : ℕ) (q : Point α),
      distances line = List.replicate k (metresBetween q q) ++ (distances other).reverse ∧
      (2 ≤ other.length → ∃ a, metresBetween a q ∈ distances other) := by
  obtain ⟨k, q, rest, rfl, rfl⟩ := h
  refine ⟨k, q, ?_, fun hlong => ?_⟩
  · rw [distances_resting, ← distances_reverse, List.reverse_append, List.reverse_singleton,
      List.singleton_append]
  · obtain ⟨rest, a, rfl⟩ : ∃ before a, rest = before ++ [a] := by
      rcases rest.eq_nil_or_concat' with rfl | h
      · simp at hlong
      · exact h
    refine ⟨a, List.mem_map.2 ⟨(a, q), ?_, rfl⟩⟩
    rw [List.append_assoc, List.singleton_append, segments_append_cons]
    simp

theorem Retraces.exactSum_eq {line other : Line α} (h : Retraces line other) :
    exactSum (distances line) = exactSum (distances other) := by
  obtain ⟨k, q, hdistances, -⟩ := h.exists_distances
  rw [hdistances, exactSum, List.map_append, List.sum_append, List.map_replicate,
    fraction_metresBetween_self, List.sum_replicate, smul_zero, zero_add, List.map_reverse,
    List.sum_reverse, exactSum]

theorem Retraces.isMeasured_iff {line other : Line α} (h : Retraces line other)
    (hlong : 2 ≤ other.length) : IsMeasured line ↔ IsMeasured other := by
  obtain ⟨k, q, hdistances, hlast⟩ := h.exists_distances
  simp only [IsMeasured, hdistances, List.mem_append, List.mem_reverse, List.mem_replicate]
  refine ⟨fun hall d hd => hall d (Or.inr hd), fun hall d hd => ?_⟩
  rcases hd with ⟨-, rfl⟩ | hd
  · obtain ⟨a, ha⟩ := hlast hlong
    have hdefined : (metresBetween a q).toModel.unpack ≠ .notANumber := by
      obtain ⟨⟨hvalue, -⟩, -⟩ := hall _ ha
      exact isNaN_eq_false_iff.1 hvalue.isNaN_eq_false
    rw [metresBetween, greatCircle_self (isFinite_of_greatCircle hdefined).2]
    exact isDistance_zero
  · exact hall d hd

theorem lineMetres_reverse_of_le {line : Line α} (h : line.length ≤ 2) :
    lineMetres line.reverse = lineMetres line := by
  have hfew : (distances line).length ≤ 1 := by
    rw [length_distances]
    omega
  rw [lineMetres_eq, lineMetres_eq, distances_reverse]
  match distances line, hfew with
  | [], _ => rfl
  | [_], _ => rfl

theorem Retraces.lineMetres_eq_of_le {line other : Line α} (h : Retraces line other)
    (hline : line.length ≤ 2) (hother : 2 ≤ other.length) : lineMetres line = lineMetres other := by
  obtain ⟨k, q, rest, rfl, rfl⟩ := h
  simp only [List.length_append, List.length_replicate, List.length_reverse,
    List.length_singleton] at hline hother
  obtain rfl : k = 0 := by omega
  have hsame : List.replicate (0 + 1) q ++ rest.reverse = (rest ++ [q]).reverse := by
    rw [List.reverse_append]
    rfl
  rw [hsame, lineMetres_reverse_of_le]
  rw [List.length_append, List.length_singleton]
  omega

end StreetLinking.Plane
