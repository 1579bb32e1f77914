import StreetLinking.Plane.Frame
import StreetLinking.Proofs.Number.Conversions
import StreetLinking.Proofs.Plane.Cutting
import StreetLinking.Proofs.Plane.Scale
/-!
# Points on lines of moderate size

A point on a segment is computed with three roundings, so it need not lie between the ends of the
segment. Main statement: it is still a point of the plane that is no farther out than a power of two
that bounds both ends, and so equal to itself; a line can be cut at such points again and again
without leaving the bounds.
-/

namespace StreetLinking.Plane

open Number Float.Model

/-! ## Numbers -/

/-- A double is finite and no greater than `2 ^ 10`. -/
def IsBounded (x : Float) : Prop :=
  ∃ v, IsExactly x v ∧ |v| ≤ 2 ^ 10

def IsFraction (t : Float) : Prop :=
  ∃ v, IsExactly t v ∧ 0 ≤ v ∧ v < 1

theorem isExactly_thousand : IsExactly 1000 1000 :=
  isExactly_ofNat_of_lt (n := 1000) (by decide)

theorem isExactly_one : IsExactly 1 1 := by
  exact_mod_cast isExactly_ofNat_of_lt (n := 1) (by decide)

theorem isBounded_of_le {x : Float} (hlow : -1000 ≤ x) (hhigh : x ≤ 1000) : IsBounded x := by
  obtain ⟨v, hx, hlow, hhigh⟩ :=
    isExactly_thousand.neg.exists_between isExactly_thousand hlow hhigh
  exact ⟨v, hx, abs_le.2 ⟨by linarith, by linarith⟩⟩

theorem isFraction_zero : IsFraction 0 :=
  ⟨0, by rfl, le_rfl, one_pos⟩

theorem isFraction_of_le {t : Float} (hlow : 0 ≤ t) (hhigh : ¬ 1 ≤ t) : IsFraction t := by
  have hzero : IsExactly 0 0 := by rfl
  have hbelow : t < 1 :=
    floatLT_of_not_le (floatLE_iff.1 hlow).2.1 isExactly_one.isNaN_eq_false hhigh
  obtain ⟨v, ht, hv, -⟩ := hzero.exists_between isExactly_one hlow (floatLE_of_lt hbelow)
  exact ⟨v, ht, hv, (ht.lt_iff isExactly_one).1 hbelow⟩

theorem isFraction_along (segment : Nat) (fraction : Float) :
    IsFraction (Location.along segment fraction).fraction := by
  unfold Location.along
  split
  · exact isFraction_zero
  · next hhigh =>
    split
    · next hlow => exact isFraction_of_le (floatLE_of_lt hlow) hhigh
    · exact isFraction_zero

/-- A difference of bounded numbers is rounded by no more than half of the spacing of doubles
between `2 ^ 10` and `2 ^ 11`. -/
theorem abs_le_of_rounded_sub {x r : ℚ} (h : RoundsTo x r) (hx : |x| ≤ 2 ^ 11) :
    |r| ≤ |x| + 2 ^ (-43 : ℤ) := by
  rcases hx.lt_or_eq with hx | hx
  · have hadd : |r| ≤ |x| + 2 ^ ((-42 : ℤ) - 1) := by
      refine h.abs_le_add (-42) (by decide) (hx.trans_eq ?_)
      norm_num
    refine hadd.trans_eq ?_
    norm_num
  · have hpow : |r| ≤ 2 ^ ((-41 : ℤ) + 52) := by
      refine h.abs_le_pow (-41) (by decide) (hx.trans_le ?_)
      norm_num
    rw [hx]
    refine hpow.trans ?_
    norm_num

/-- A part of the way from one bounded number to another goes the same way, and no farther than the
rounding of their difference. -/
theorem exists_way {a b t : Float} {u v : ℚ} (ha : IsExactly a u) (hb : IsExactly b v)
    (ht : IsFraction t) (hspan : |v - u| ≤ 2 ^ 11) :
    ∃ p, IsExactly ((b - a) * t) p ∧ (0 ≤ v - u → 0 ≤ p) ∧ (v - u ≤ 0 → p ≤ 0) ∧
      |p| ≤ |v - u| + 2 ^ (-43 : ℤ) := by
  obtain ⟨w, ht, hlow, hhigh⟩ := ht
  obtain ⟨d, hd, hdifference⟩ := hb.exists_sub ha (lt_of_le_of_lt hspan (by norm_num))
  have hreach := abs_le_of_rounded_sub hd hspan
  have hpart : |d * w| ≤ |d| := by
    rw [abs_mul, abs_of_nonneg hlow]
    exact mul_le_of_le_one_right (abs_nonneg d) hhigh.le
  have hmoderate : |d * w| < 2 ^ 200 :=
    calc |d * w| ≤ |v - u| + 2 ^ (-43 : ℤ) := hpart.trans hreach
      _ ≤ 2 ^ 11 + 2 ^ (-43 : ℤ) := by gcongr
      _ < 2 ^ 200 := by norm_num
  obtain ⟨p, hp, hproduct⟩ := hdifference.exists_mul ht hmoderate
  refine ⟨p, hproduct, fun hforth => ?_, fun hback => ?_,
    (hdifference.abs_le_of_rounded hp hpart).trans hreach⟩
  · exact hp.nonneg (mul_nonneg (hd.nonneg hforth) hlow)
  · exact hp.nonpos (mul_nonpos_of_nonpos_of_nonneg (hd.nonpos hback) hlow)

theorem isBounded_between {a b t : Float} (ha : IsBounded a) (hb : IsBounded b)
    (ht : IsFraction t) : IsBounded (a + (b - a) * t) := by
  obtain ⟨u, ha, hu⟩ := ha
  obtain ⟨v, hb, hv⟩ := hb
  rw [abs_le] at hu hv
  have hspan : |v - u| ≤ 2 ^ 11 := abs_le.2 ⟨by linarith, by linarith⟩
  obtain ⟨p, hway, hforth, hback, hshort⟩ := exists_way ha hb ht hspan
  have hhalf : (0 : ℚ) < 2 ^ (-43 : ℤ) := by positivity
  have hsum : |u + p| ≤ 2 ^ ((-42 : ℤ) + 52) + 2 ^ ((-42 : ℤ) - 1) := by
    have hbound : |u + p| ≤ 2 ^ 10 + 2 ^ (-43 : ℤ) := by
      rcases le_total 0 (v - u) with hup | hdown
      · -- the way from `a` towards `b` goes up, and not past `b` by more than the rounding
        have hp := hforth hup
        rw [abs_of_nonneg hp, abs_of_nonneg hup] at hshort
        exact abs_le.2 ⟨by linarith, by linarith⟩
      · have hp := hback hdown
        rw [abs_of_nonpos hp, abs_of_nonpos hdown] at hshort
        exact abs_le.2 ⟨by linarith, by linarith⟩
    refine hbound.trans_eq ?_
    norm_num
  obtain ⟨s, hs, hresult⟩ := ha.exists_add hway (hsum.trans_lt (by norm_num))
  refine ⟨s, hresult, (hs.abs_le_pow (-42) (by decide) hsum).trans_eq ?_⟩
  norm_num

/-! ## Points and lines -/

def Point.IsBounded (p : Point Float) : Prop :=
  Plane.IsBounded p.x ∧ Plane.IsBounded p.y

theorem beq_point_iff {p q : Point Float} :
    (p == q) = true ↔ (p.x == q.x) = true ∧ (p.y == q.y) = true := by
  show (p.x == q.x && p.y == q.y) = true ↔ _
  rw [Bool.and_eq_true]

theorem Point.IsBounded.beq_self {p : Point Float} (h : p.IsBounded) : (p == p) = true := by
  obtain ⟨⟨u, hx, -⟩, ⟨v, hy, -⟩⟩ := h
  exact beq_point_iff.2 ⟨hx.beq_self, hy.beq_self⟩

def IsBoundedLine (line : Line Float) : Prop :=
  ∀ p ∈ line, p.IsBounded

theorem isFraction_locate (frame : Frame Float) (p : Point Float) (line : Line Float) :
    IsFraction (frame.locate p line).fraction :=
  isFraction_along _ _

theorem IsBoundedLine.point? {l : Location Float} {line : Line Float} {p : Point Float}
    (h : IsBoundedLine line) (hl : IsFraction l.fraction) (hp : l.point? line = some p) :
    p.IsBounded := by
  unfold Location.point? at hp
  split at hp
  · next a b rest hdrop =>
    obtain rfl := Option.some.inj hp
    have ha : a ∈ line := List.mem_of_mem_drop (hdrop ▸ List.mem_cons_self)
    have hb : b ∈ line := List.mem_of_mem_drop (hdrop ▸ List.mem_cons_of_mem _ List.mem_cons_self)
    exact ⟨isBounded_between (h a ha).1 (h b hb).1 hl, isBounded_between (h a ha).2 (h b hb).2 hl⟩
  · exact h p (List.mem_of_getLast? hp)

theorem IsBoundedLine.parts {p : Point Float} {first second whole : Line Float}
    (h : IsBoundedLine whole) (hp : p.IsBounded) (hjoins : Joins p first second whole) :
    IsBoundedLine first ∧ IsBoundedLine second := by
  obtain ⟨before, after, rfl, rfl, -, hfirst⟩ := hjoins
  have hbefore : IsBoundedLine before := fun q hq => h q (List.mem_append_left _ hq)
  have hafter : IsBoundedLine after := fun q hq => h q (List.mem_append_right _ hq)
  refine ⟨?_, List.forall_mem_cons.2 ⟨hp, hafter⟩⟩
  rcases hfirst with rfl | ⟨rfl, -⟩
  · exact fun q hq => (List.mem_append.1 hq).elim (hbefore q) fun hq => List.mem_singleton.1 hq ▸ hp
  · exact hbefore

end StreetLinking.Plane
