import StreetLinking.Plane.Earth
/-!
# The scale of longitudes

The scale comes from a cosine, of which nothing is known but that the scale is kept away from zero
and from above one. So it is a positive number, and scaling a longitude of zero changes nothing.
-/

namespace StreetLinking.Plane

open Float.Model

theorem compare_of_lt {a b : Float} (h : a < b) :
    (a.toModel.unpack.compare b.toModel.unpack == some .lt) = true :=
  of_decide_eq_true (p := a.toModel < b.toModel) h

def IsPositive (x : Float) : Prop :=
  ∃ m e h, x.toModel.unpack = .finite .positive m e h

theorem isPositive_smallestScale : IsPositive smallestScale :=
  ⟨4722366482869645, -72, by decide, by rfl⟩

theorem isPositive_one : IsPositive 1.0 :=
  ⟨4503599627370496, -52, by decide, by rfl⟩

theorem isPositive_of_between {a b x : Float} (ha : IsPositive a) (hb : IsPositive b)
    (hax : a < x) (hxb : x < b) : IsPositive x := by
  obtain ⟨m, e, h, ha⟩ := ha
  obtain ⟨n, f, k, hb⟩ := hb
  have hlow := compare_of_lt hax
  have hhigh := compare_of_lt hxb
  rw [ha] at hlow
  rw [hb] at hhigh
  unfold IsPositive
  generalize x.toModel.unpack = u at hlow hhigh
  cases u with
  | infinity sign =>
    cases sign with
    | negative => exact absurd hlow Bool.false_ne_true
    | positive => exact absurd hhigh Bool.false_ne_true
  | notANumber => exact absurd hlow Bool.false_ne_true
  | zero sign => exact absurd hlow Bool.false_ne_true
  | finite sign m' e' h' =>
    cases sign with
    | negative => exact absurd hlow Bool.false_ne_true
    | positive => exact ⟨m', e', h', rfl⟩

theorem isPositive_scaleAtLatitude (latitude : Float) :
    IsPositive (scaleAtLatitude latitude) := by
  unfold scaleAtLatitude
  dsimp only
  split
  · next hsmall =>
    split
    · next hone => exact isPositive_of_between isPositive_smallestScale isPositive_one hsmall hone
    · exact isPositive_one
  · exact isPositive_smallestScale

theorem zero_mul_scale (latitude : Float) : 0.0 * scaleAtLatitude latitude = 0.0 := by
  obtain ⟨m, e, h, hscale⟩ := isPositive_scaleAtLatitude latitude
  change Float.ofModel (.pack (UnpackedFloat.mul _ (0.0 : Float).toModel.unpack _)) = _
  rw [hscale]
  rfl

theorem zero_div_scale (latitude : Float) : 0.0 / scaleAtLatitude latitude = 0.0 := by
  obtain ⟨m, e, h, hscale⟩ := isPositive_scaleAtLatitude latitude
  change Float.ofModel (.pack (UnpackedFloat.div _ (0.0 : Float).toModel.unpack _)) = _
  rw [hscale]
  rfl

theorem project_around_of_meridian (center : Point Float) {q : Point Float} (hq : q.x = 0.0) :
    (Frame.around center).project q = q := by
  obtain ⟨x, y⟩ := q
  obtain rfl : x = 0.0 := hq
  have hx : (0.0 : Float) * (Frame.around center).xScale = 0.0 := zero_mul_scale center.y
  simp only [Frame.project, hx]

end StreetLinking.Plane
