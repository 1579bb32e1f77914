import StreetLinking.Plane.Frame
import StreetLinking.Proofs.Number.Ordering
/-!
# The nearest segment and the distance to a line

The distance from a point to a line is the least of the distances to its segments, and the location
of the point on the line comes from a search of its own. Main statement: over doubles, the search
ends at the first segment whose distance is that of the line, and its location is one of the line;
where no distance is below infinity, it ends at the start.
-/

namespace StreetLinking.Plane

open Number

/-! ## The least of several doubles -/

theorem least_of_defined {a : Float} (ha : a.isNaN = false) (b : Float) :
    Scalar.least a b = if b < a then b else a := by
  rw [Scalar.least, isUndefined_eq, isUndefined_eq, ha, if_neg Bool.false_ne_true]
  split
  · next hb =>
    rw [if_neg fun hlt : b < a => ?_]
    rw [(floatLT_iff.1 hlt).1] at hb
    cases hb
  · rfl

namespace Frame

/-! ## The search along a line -/

theorem nearestFrom_cons {α : Type} [Scalar α] (p : Point α) (next : Nat) (best : Candidate α)
    (s : Point α × Point α) (rest : List (Point α × Point α)) :
    nearestFrom p next best (s :: rest) =
      nearestFrom p (next + 1)
        (if segmentDistance p s.1 s.2 < best.distance then
          ⟨next, footFraction p s.1 s.2, segmentDistance p s.1 s.2⟩
        else best) rest :=
  rfl

theorem distance_nearestFrom (p : Point Float) (ss : List (Point Float × Point Float)) (next : Nat)
    (best : Candidate Float) (hbest : best.distance.isNaN = false) :
    (nearestFrom p next best ss).distance =
      (ss.map fun s => segmentDistance p s.1 s.2).foldl Scalar.least best.distance := by
  induction ss generalizing next best with
  | nil => rfl
  | cons s rest ih =>
    rw [nearestFrom_cons, List.map_cons, List.foldl_cons, least_of_defined hbest]
    by_cases hless : segmentDistance p s.1 s.2 < best.distance
    · rw [if_pos hless, if_pos hless]
      exact ih (next + 1) ⟨next, _, _⟩ (floatLT_iff.1 hless).1
    · rw [if_neg hless, if_neg hless]
      exact ih (next + 1) best hbest

/-- A search that begins with `best` at the segment number `next` keeps `best` if no distance is
less, or it ends at the first of the segments at some lesser distance. -/
theorem nearestFrom_cases (p : Point Float) (ss : List (Point Float × Point Float)) (next : Nat)
    (best : Candidate Float) :
    let ds := ss.map fun s => segmentDistance p s.1 s.2
    (∀ d ∈ ds, ¬ d < best.distance) ∧ nearestFrom p next best ss = best ∨
    ∃ i s, ss[i]? = some s ∧ segmentDistance p s.1 s.2 < best.distance ∧
      ds.findIdx? (· == segmentDistance p s.1 s.2) = some i ∧
      nearestFrom p next best ss =
        ⟨next + i, footFraction p s.1 s.2, segmentDistance p s.1 s.2⟩ := by
  induction ss generalizing next best with
  | nil => exact Or.inl ⟨by simp, rfl⟩
  | cons s rest ih =>
    simp only [nearestFrom_cons, List.map_cons, List.findIdx?_cons, List.forall_mem_cons]
    generalize hd : segmentDistance p s.1 s.2 = d
    have hnumber (i : Nat) : next + 1 + i = next + (i + 1) := by omega
    by_cases hless : d < best.distance
    · rw [if_pos hless]
      obtain ⟨-, hkept⟩ | ⟨i, r, hr, hlt, hfirst, hfound⟩ :=
        ih (next + 1) ⟨next, footFraction p s.1 s.2, d⟩
      · have hself : (d == d) = true := beq_self_of_defined (floatLT_iff.1 hless).1
        refine Or.inr ⟨0, s, rfl, ?_⟩
        rw [hd, hself, if_pos rfl]
        exact ⟨hless, rfl, hkept⟩
      · have hother : ¬ (d == segmentDistance p r.1 r.2) = true := fun hsame =>
          floatLT_irrefl d (floatLT_of_beq_of_lt hsame hlt)
        refine Or.inr ⟨i + 1, r, hr, floatLT_trans hlt hless, ?_, hfound.trans ?_⟩
        · rw [if_neg hother, hfirst]
          rfl
        · rw [hnumber]
    · rw [if_neg hless]
      obtain ⟨hnone, hkept⟩ | ⟨i, r, hr, hlt, hfirst, hfound⟩ := ih (next + 1) best
      · exact Or.inl ⟨⟨hless, hnone⟩, hkept⟩
      · have hother : ¬ (d == segmentDistance p r.1 r.2) = true := fun hsame =>
          hless (floatLT_of_beq_of_lt hsame hlt)
        refine Or.inr ⟨i + 1, r, hr, hlt, ?_, hfound.trans ?_⟩
        · rw [if_neg hother, hfirst]
          rfl
        · rw [hnumber]

end Frame

/-! ## The location found -/

theorem Location.along_fits {i points : Nat} (hi : i + 2 ≤ points) (fraction : Float) :
    let l := Location.along i fraction
    l.segment ≤ points - 1 ∧ 0 ≤ l.fraction ∧ l.fraction < 1 ∧
      (l.segment = points - 1 → l.fraction = 0) := by
  have hzero : (0 : Float) ≤ 0 ∧ (0 : Float) < 1 := by decide
  intro l
  by_cases hone : 1 ≤ fraction
  · have hl : l = ⟨i + 1, 0⟩ := if_pos hone
    rw [hl]
    refine ⟨?_, hzero.1, hzero.2, fun _ => rfl⟩
    show i + 1 ≤ points - 1
    omega
  · have hl : l = ⟨i, if 0 < fraction then fraction else 0⟩ := if_neg hone
    have hfraction : 0 ≤ l.fraction ∧ l.fraction < 1 := by
      rw [hl]
      simp only
      split
      · next hpos =>
        obtain ⟨-, hdefined, -⟩ := floatLT_iff.1 hpos
        exact ⟨floatLE_of_lt hpos, floatLT_of_not_le hdefined (by decide) hone⟩
      · exact hzero
    have hsegment : l.segment = i := by rw [hl]
    exact ⟨by omega, hfraction.1, hfraction.2, fun hlast => by omega⟩

namespace Frame

theorem locate_eq_along {α : Type} [Scalar α] (f : Frame α) {p : Point α} {points : Line α}
    {best : Candidate α}
    (hbest : nearestFrom (f.project p) 0 ⟨0, 0, Scalar.far⟩
      ((segments points).map fun s => (f.project s.1, f.project s.2)) = best) :
    f.locate p points = .along best.segment best.fraction := by
  rw [← hbest]
  rfl

theorem mem_segmentDistances {α : Type} [Scalar α] (f : Frame α) (p : Point α) {points : Line α}
    {i : Nat} {a b : Point α} (hab : (segments points)[i]? = some (a, b)) :
    segmentDistance (f.project p) (f.project a) (f.project b) ∈ f.segmentDistances p points :=
  List.mem_map.2 ⟨(a, b), List.mem_of_getElem? hab, rfl⟩

/-- Either no distance is below infinity and the search ends where it began, or it ends at the foot
of the point on the first segment at the distance of the line. -/
theorem locate_cases (f : Frame Float) (p : Point Float) {points : Line Float}
    (hpoints : 2 ≤ points.length) :
    let distances := f.segmentDistances p points
    let least := f.distanceToLine p points
    (∀ d ∈ distances, ¬ d < Scalar.far) ∧ least = Scalar.far ∧ f.locate p points = ⟨0, 0⟩ ∨
    (∃ d ∈ distances, d < Scalar.far) ∧
      ∃ i a b, points[i]? = some a ∧ points[i + 1]? = some b ∧
        distances.findIdx? (· == least) = some i ∧
        f.locate p points =
          .along i (footFraction (f.project p) (f.project a) (f.project b)) := by
  intro distances least
  have hfar : (Scalar.far : Float).isNaN = false := by decide
  let ss := (segments points).map fun s => (f.project s.1, f.project s.2)
  have hdistances : ss.map (fun s => segmentDistance (f.project p) s.1 s.2) = distances :=
    List.map_map
  have hleast := distance_nearestFrom (f.project p) ss 0 ⟨0, 0, Scalar.far⟩ hfar
  have hcases := nearestFrom_cases (f.project p) ss 0 ⟨0, 0, Scalar.far⟩
  rw [hdistances, ← f.distanceToLine_eq_foldl p hpoints] at hleast
  simp only [hdistances, Nat.zero_add] at hcases
  rcases hcases with ⟨hnone, hkept⟩ | ⟨i, s, hs, hlt, hfirst, hbest⟩
  · rw [hkept] at hleast
    refine Or.inl ⟨hnone, hleast.symm, ?_⟩
    rw [f.locate_eq_along hkept]
    decide
  · right
    rw [hbest] at hleast
    have hnear : segmentDistance (f.project p) s.1 s.2 = least := hleast
    rw [hnear] at hfirst
    obtain ⟨⟨a, b⟩, hab, hs⟩ := Option.map_eq_some_iff.1 ((List.getElem?_map).symm.trans hs)
    obtain rfl : s = (f.project a, f.project b) := hs.symm
    obtain ⟨ha, hb⟩ := (getElem?_segments points i a b).1 hab
    have hl := f.locate_eq_along hbest
    exact ⟨⟨_, f.mem_segmentDistances p hab, hlt⟩, i, a, b, ha, hb, hfirst, hl⟩

/-- The location found on a line is one of the line. It is on the first segment whose distance from
the point is that of the line, at the foot of the point, where the end of a segment counts as the
start of the next one; if no distance is below infinity, the distance of the line is infinite and
the location is the start. -/
theorem locate_agrees_with_distance (f : Frame Float) (p : Point Float) {points : Line Float}
    (hpoints : 2 ≤ points.length) :
    let l := f.locate p points
    let distances := f.segmentDistances p points
    let least := f.distanceToLine p points
    (l.segment ≤ points.length - 1 ∧ 0 ≤ l.fraction ∧ l.fraction < 1 ∧
      (l.segment = points.length - 1 → l.fraction = 0)) ∧
    ((∃ d ∈ distances, d < Scalar.far) →
      ∃ i a b, points[i]? = some a ∧ points[i + 1]? = some b ∧
        distances.findIdx? (· == least) = some i ∧
        l = .along i (footFraction (f.project p) (f.project a) (f.project b))) ∧
    ((∀ d ∈ distances, ¬ d < Scalar.far) → least = Scalar.far ∧ l = ⟨0, 0⟩) := by
  intro l distances least
  rcases f.locate_cases p hpoints with
    ⟨hnone, hleast, hl⟩ | ⟨⟨d, hd, hlt⟩, i, a, b, ha, hb, hfirst, hl⟩
  · refine ⟨?_, ?_, fun _ => ⟨hleast, hl⟩⟩
    · rw [show l = ⟨0, 0⟩ from hl]
      exact ⟨Nat.zero_le _, by decide, by decide, fun _ => rfl⟩
    · rintro ⟨d, hd, hlt⟩
      exact absurd hlt (hnone d hd)
  · refine ⟨?_, fun _ => ⟨i, a, b, ha, hb, hfirst, hl⟩, fun hnone => absurd hlt (hnone d hd)⟩
    have hi := (List.getElem?_eq_some_iff.1 hb).1
    rw [show l = .along i _ from hl]
    exact Location.along_fits hi _

/-- The first segment is at no defined distance and the last one is as near as the one before it:
this one is found, and as the point is past its end, the location is the start of the last one. -/
theorem locate_agrees_at_corner :
    let points : Line Float := [⟨0 / 0, 0⟩, ⟨0, 0⟩, ⟨1, 0⟩, ⟨1, 1⟩]
    let distances := segmentDistances ⟨1⟩ ⟨2, 0⟩ points
    2 ≤ points.length ∧ (∃ d ∈ distances, d < Scalar.far) ∧
      distances.findIdx? (· == distanceToLine ⟨1⟩ ⟨2, 0⟩ points) = some 1 ∧
      locate ⟨1⟩ ⟨2, 0⟩ points = ⟨2, 0⟩ := by
  intro points distances
  have hpoints : 2 ≤ points.length := by decide
  have hnear : ∃ d ∈ distances, d < Scalar.far := by decide +kernel
  have hone : distances.findIdx? (· == distanceToLine ⟨1⟩ ⟨2, 0⟩ points) = some 1 := by
    decide +kernel
  obtain ⟨i, a, b, ha, hb, hi, hl⟩ :=
    (locate_agrees_with_distance ⟨1⟩ ⟨2, 0⟩ hpoints).2.1 hnear
  obtain rfl : i = 1 := Option.some.inj (hi.symm.trans hone)
  obtain rfl : ⟨0, 0⟩ = a := Option.some.inj ha
  obtain rfl : ⟨1, 0⟩ = b := Option.some.inj hb
  refine ⟨hpoints, hnear, hone, ?_⟩
  rw [hl]
  decide +kernel

end Frame

end StreetLinking.Plane
