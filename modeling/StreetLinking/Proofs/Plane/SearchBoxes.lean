import Mathlib.Order.Interval.Set.Defs
import StreetLinking.Proofs.Plane.Reversal
/-!
# Search boxes hide nothing

A search box is measured in degrees of longitude and latitude, a distance in the plane of the frame,
where longitudes are scaled. Main statement: over exact numbers the box around a line meets the
search box around every point that lies no farther from the line than the radius.
-/

namespace StreetLinking.Plane

open Number

variable {K : Type} [Field K] [LinearOrder K] [ExactNumbers K]

/-! ## Boxes and the points in them -/

namespace Box

def Holds (b : Box K) (q : Point K) : Prop :=
  q.x ∈ Set.Icc b.left b.right ∧ q.y ∈ Set.Icc b.bottom b.top

theorem Holds.meets {a b : Box K} {q : Point K} (ha : a.Holds q) (hb : b.Holds q) :
    a.meets b = true := by
  obtain ⟨⟨hal, har⟩, hab, hat⟩ := ha
  obtain ⟨⟨hbl, hbr⟩, hbb, hbt⟩ := hb
  simp only [Box.meets, Bool.and_eq_true, decide_eq_true_eq]
  exact ⟨⟨⟨hal.trans hbr, hab.trans hbt⟩, hbl.trans har⟩, hbb.trans hat⟩

theorem isDefined_exact (b : Box K) : b.isDefined = true := by
  simp [isDefined, Scalar.isUndefined]

theorem mem_widen {range : K × K} (a : K) {b : K} (hb : b ∈ Set.Icc range.1 range.2) :
    b ∈ Set.Icc (widen range a).1 (widen range a).2 ∧
      a ∈ Set.Icc (widen range a).1 (widen range a).2 := by
  obtain ⟨hlow, hhigh⟩ := hb
  unfold widen
  split
  · next habove => exact ⟨⟨hlow, hhigh.trans habove.le⟩, (hlow.trans hhigh).trans habove.le, le_rfl⟩
  · next habove =>
    split
    · next hbelow =>
      exact ⟨⟨hbelow.le.trans hlow, hhigh⟩, le_rfl, hbelow.le.trans (hlow.trans hhigh)⟩
    · next hbelow => exact ⟨⟨hlow, hhigh⟩, not_lt.1 hbelow, not_lt.1 habove⟩

theorem mem_foldl_widen {β : Type} (size : β → K) (items : List β) (range : K × K) {b : K}
    (hb : b ∈ Set.Icc range.1 range.2) :
    let widened := items.foldl (fun range item => widen range (size item)) range
    b ∈ Set.Icc widened.1 widened.2 ∧ ∀ item ∈ items, size item ∈ Set.Icc widened.1 widened.2 := by
  induction items generalizing range b with
  | nil => exact ⟨hb, by simp⟩
  | cons item rest ih =>
    obtain ⟨hold, hnew⟩ := mem_widen (size item) hb
    exact ⟨(ih _ hold).1, List.forall_mem_cons.2 ⟨(ih _ hnew).1, (ih _ hold).2⟩⟩

theorem holds_of_around? {line : Line K} {box : Box K} (h : around? line = some box) :
    ∀ p ∈ line, box.Holds p := by
  cases line with
  | nil => cases h
  | cons p rest =>
    obtain ⟨hx, hxs⟩ := mem_foldl_widen (fun q : Point K => q.x) rest (p.x, p.x)
      ⟨le_refl p.x, le_refl p.x⟩
    obtain ⟨hy, hys⟩ := mem_foldl_widen (fun q : Point K => q.y) rest (p.y, p.y)
      ⟨le_refl p.y, le_refl p.y⟩
    obtain rfl := Option.some.inj h
    intro q hq
    rcases List.mem_cons.1 hq with rfl | hq
    · exact ⟨hx, hy⟩
    · exact ⟨hxs q hq, hys q hq⟩

end Box

variable [IsStrictOrderedRing K]

theorem mem_Icc_between {low high a b t : K} (ha : a ∈ Set.Icc low high) (hb : b ∈ Set.Icc low high)
    (ht : 0 ≤ t ∧ t ≤ 1) : a + (b - a) * t ∈ Set.Icc low high := by
  have hrest : 0 ≤ 1 - t := sub_nonneg.2 ht.2
  have hsum : a + (b - a) * t = (1 - t) * a + t * b := by ring
  have hsplit (c : K) : c = (1 - t) * c + t * c := by ring
  rw [hsum, Set.mem_Icc, hsplit low, hsplit high]
  constructor
  · exact add_le_add (mul_le_mul_of_nonneg_left ha.1 hrest) (mul_le_mul_of_nonneg_left hb.1 ht.1)
  · exact add_le_add (mul_le_mul_of_nonneg_left ha.2 hrest) (mul_le_mul_of_nonneg_left hb.2 ht.1)

theorem Box.Holds.between {box : Box K} {a b : Point K} {t : K} (ha : box.Holds a)
    (hb : box.Holds b) (ht : 0 ≤ t ∧ t ≤ 1) : box.Holds (Location.between a b t) :=
  ⟨mem_Icc_between ha.1 hb.1 ht, mem_Icc_between ha.2 hb.2 ht⟩

/-! ## Search boxes -/

namespace Frame

/-- Distances up to the limit belong to ways that are no longer than the radius. Where distances are
lengths the radius is such a limit itself, where they are squares of lengths its square is. -/
def Limits (limit radius : K) : Prop :=
  ∀ x y : K, ExactNumbers.hypot x y ≤ limit → x * x + y * y ≤ radius * radius

variable {f : Frame K} {p q : Point K} {limit radius : K}

/-- The corners of a search box stand on both sides, whatever the sign of their distance. -/
theorem mem_Icc_corners {center way x : K} (h : |center - x| ≤ |way|) :
    x ∈ Set.Icc (if center - way < center + way then center - way else center + way)
      (if center + way < center - way then center - way else center + way) := by
  rw [abs_le] at h
  rcases abs_cases way with ⟨habs, hsign⟩ | ⟨habs, hsign⟩ <;> rw [habs] at h <;> constructor <;>
    split <;> linarith

theorem searchBox_holds (hf : 0 < f.xScale) (hlimit : Limits limit radius)
    (hnear : f.distance p q ≤ limit) : (f.searchBox p radius).Holds q := by
  have hsquares := hlimit _ _ hnear
  have hx : |p.x - q.x| ≤ |radius / f.xScale| := by
    have hscaled : |(p.x - q.x) * f.xScale| ≤ |radius| := by
      rw [abs_le_iff_mul_self_le]
      have hy := mul_self_nonneg ((f.project p).y - (f.project q).y)
      have hway : (f.project p).x - (f.project q).x = (p.x - q.x) * f.xScale := by
        simp only [project]
        ring
      rw [hway] at hsquares
      linarith
    rw [abs_div, abs_of_pos hf, le_div_iff₀ hf]
    rwa [abs_mul, abs_of_pos hf] at hscaled
  have hy : |p.y - q.y| ≤ |radius| := by
    rw [abs_le_iff_mul_self_le]
    have hx := mul_self_nonneg ((f.project p).x - (f.project q).x)
    simp only [project] at hsquares hx
    linarith
  exact ⟨mem_Icc_corners hx, mem_Icc_corners hy⟩

/-- A line within a limit has a point within it, in every box around the line. -/
theorem exists_point_of_distanceToLine_le {line : Line K} (hfar : limit < Scalar.far)
    (hnear : f.distanceToLine p line ≤ limit) :
    ∃ q, f.distance p q ≤ limit ∧ ∀ box, Box.around? line = some box → box.Holds q := by
  unfold distanceToLine at hnear
  split at hnear
  · exact absurd (hfar.trans_le hnear) (lt_irrefl _)
  · next q => exact ⟨q, hnear, fun box hbox => Box.holds_of_around? hbox q List.mem_cons_self⟩
  · rcases foldl_least_mem (Scalar.far : K) (f.segmentDistances p line) with heq | hmem
    · rw [heq] at hnear
      exact absurd (hfar.trans_le hnear) (lt_irrefl _)
    · obtain ⟨⟨a, b⟩, hs, hreach⟩ := List.mem_map.1 hmem
      rw [← hreach] at hnear
      -- the foot of the point on the segment is the point
      refine ⟨Location.between a b (f.foot p a b), (f.reach_eq p a b).symm.trans_le hnear, ?_⟩
      intro box hbox
      obtain ⟨i, hi⟩ := List.mem_iff_getElem?.1 hs
      obtain ⟨ha, hb⟩ := (getElem?_segments line i a b).1 hi
      exact (Box.holds_of_around? hbox a (List.mem_of_getElem? ha)).between
        (Box.holds_of_around? hbox b (List.mem_of_getElem? hb)) (f.foot_mem p a b)

theorem meets_searchBox {line : Line K} {box : Box K} (hf : 0 < f.xScale)
    (hlimit : Limits limit radius) (hfar : limit < Scalar.far)
    (hbox : Box.around? line = some box) (hnear : f.distanceToLine p line ≤ limit) :
    box.meets (f.searchBox p radius) = true := by
  obtain ⟨q, hq, hholds⟩ := exists_point_of_distanceToLine_le hfar hnear
  exact (hholds box hbox).meets (searchBox_holds hf hlimit hq)

theorem meets_searchBox_of_distance (hf : 0 < f.xScale) (hlimit : Limits limit radius)
    (hnear : f.distance p q ≤ limit) : (Box.ofPoint q).meets (f.searchBox p radius) = true := by
  have hpoint : (Box.ofPoint q).Holds q := ⟨⟨le_rfl, le_rfl⟩, le_rfl, le_rfl⟩
  exact hpoint.meets (searchBox_holds hf hlimit hnear)

end Frame

end StreetLinking.Plane
