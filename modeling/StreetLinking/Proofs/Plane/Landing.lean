import StreetLinking.Proofs.Plane.Reversal
import StreetLinking.Proofs.Plane.Cutting
/-!
# Cuts that leave a single point

A line may stay at one point for several of its points. Over exact numbers, the location of a point
on a line is where the line first comes as near to it as it ever does. Main statements: a cut there
leaves a first part that is a single point only at the start of the line, and a second part that is
a single point just if the line stays where it is from the location on.
-/

namespace StreetLinking.Plane

open Number

def IsOnePoint {α : Type} (line : Line α) : Prop :=
  ∃ q, ∀ r ∈ line, r = q

theorem isOnePoint_cons_iff {α : Type} {q : Point α} {line : Line α} :
    IsOnePoint (q :: line) ↔ ∀ r ∈ line, r = q := by
  constructor
  · rintro ⟨p, hp⟩ r hr
    rw [hp r (List.mem_cons_of_mem q hr), hp q List.mem_cons_self]
  · intro h
    exact ⟨q, List.forall_mem_cons.2 ⟨rfl, h⟩⟩

variable {K : Type} [Field K] [LinearOrder K] [ExactNumbers K]

/-! ## Parts of a line -/

theorem exists_parts (l : Location K) (line : Line K) (hline : 2 ≤ line.length) :
    ∃ q first second, l.point? line = some q ∧ l.cut? line = some (first, second) ∧
      (∀ r, r ∈ first ↔ r ∈ line.take (min l.segment (line.length - 2) + 1) ∨ r = q) ∧
      second = q :: line.drop (min l.segment (line.length - 2) + 1) := by
  have hne : line ≠ [] := List.ne_nil_of_length_pos (by omega)
  obtain ⟨q, hq⟩ := l.exists_point? hne
  refine ⟨q, _, _, hq, Location.cut?_of_le hline rfl hq, fun r => ?_, rfl⟩
  split
  · next hkeep =>
    -- the last point before the cut is the point of the cut
    have hq : q ∈ line.take (min l.segment (line.length - 2) + 1) := by
      refine List.mem_of_getLast? ?_
      rw [Location.getLast?_take_succ (by omega)]
      exact eq_of_beq hkeep.2
    constructor
    · exact Or.inl
    · rintro (hr | rfl)
      · exact hr
      · exact hq
  · simp

/-! ## Places where a line gets to a point -/

/-- The line goes from `a` to `b` on the segment with number `i`, and gets to the point a fraction
along this segment for the first time there. -/
structure Lands (points : Line K) (i : Nat) (a b : Point K) (t : K) : Prop where
  start : points[i]? = some a
  stop : points[i + 1]? = some b
  low : 0 ≤ t
  high : t ≤ 1
  still : a = b → t = 0
  new : 0 < i → Location.between a b t ≠ a

namespace Lands

variable {points : Line K} {i : Nat} {a b : Point K} {t : K}

theorem lt_length (h : Lands points i a b t) : i + 2 ≤ points.length := by
  have hlt := (List.getElem?_eq_some_iff.1 h.stop).1
  omega

theorem drop_eq (h : Lands points i a b t) : points.drop i = a :: b :: points.drop (i + 2) := by
  rw [drop_eq_cons h.start, drop_eq_cons h.stop]

theorem point?_of_lt (h : Lands points i a b t) (ht : t < 1) :
    (Location.along i t).point? points = some (Location.between a b t) ∧
      min (Location.along i t).segment (points.length - 2) + 1 = i + 1 := by
  have hlength := h.lt_length
  rw [Location.along_of_lt i h.low ht]
  constructor
  · rw [Location.point?, h.drop_eq]
  · simp only
    omega

theorem point?_of_one (h : Lands points i a b 1) :
    (Location.along i (1 : K)).point? points = some b := by
  rw [Location.along_one, Location.point?]
  cases hrest : points.drop (i + 2) with
  | nil =>
    rw [drop_eq_cons h.stop, hrest]
    have hlast : points.drop i = [a, b] := by rw [h.drop_eq, hrest]
    have hends : points.getLast? = (points.drop i).getLast? := by
      rw [List.getLast?_drop, if_neg]
      have hlength := h.lt_length
      omega
    rw [hends, hlast]
    rfl
  | cons c rest =>
    rw [drop_eq_cons h.stop, hrest]
    exact congrArg some (between_zero b c)

theorem ne_of_one (h : Lands points i a b 1) : a ≠ b :=
  fun hab => one_ne_zero (h.still hab)

theorem isOnePoint_first_iff (h : Lands points i a b t) {first second : Line K}
    (hcut : (Location.along i t).cut? points = some (first, second)) :
    IsOnePoint first ↔ Location.along i t = ⟨0, 0⟩ := by
  have hlength := h.lt_length
  obtain ⟨q, first', second', hq, hcut', hfirst, -⟩ :=
    exists_parts (Location.along i t) points (by omega)
  obtain ⟨rfl, rfl⟩ : first' = first ∧ second' = second := by
    simpa using hcut'.symm.trans hcut
  have ha (n : Nat) (hn : i < n) : a ∈ points.take n :=
    List.mem_of_getElem? ((List.getElem?_take_of_lt hn).trans h.start)
  rcases h.high.lt_or_eq with ht | rfl
  · obtain ⟨hpoint, hwhole⟩ := h.point?_of_lt ht
    obtain rfl := Option.some.inj (hpoint.symm.trans hq)
    rw [hwhole] at hfirst
    rw [Location.along_of_lt i h.low ht, Location.mk.injEq]
    constructor
    · rintro ⟨p, hp⟩
      have hstart := hp a ((hfirst a).2 (Or.inl (ha _ (by omega))))
      have hsame : Location.between a b t = a :=
        (hp _ ((hfirst _).2 (Or.inr rfl))).trans hstart.symm
      refine ⟨by_contra fun hi => h.new (Nat.pos_of_ne_zero hi) hsame, ?_⟩
      by_cases hab : a = b
      · exact h.still hab
      · exact between_inj hab (hsame.trans (between_zero a b).symm)
    · rintro ⟨rfl, rfl⟩
      refine ⟨a, fun r hr => ?_⟩
      rcases (hfirst r).1 hr with hr | rfl
      · obtain ⟨rest, hrest⟩ : ∃ rest, points = a :: rest := ⟨_, h.drop_eq⟩
        rw [hrest] at hr
        simpa using hr
      · exact between_zero a b
  · obtain rfl := Option.some.inj (h.point?_of_one.symm.trans hq)
    rw [Location.along_one] at hfirst ⊢
    refine iff_of_false ?_ (by simp)
    rintro ⟨p, hp⟩
    -- both ends of the segment belong to the first part
    refine h.ne_of_one ((hp a ((hfirst a).2 (Or.inl (ha _ ?_)))).trans
      (hp b ((hfirst b).2 (Or.inr rfl))).symm)
    simp only
    omega

theorem isOnePoint_second_iff (h : Lands points i a b t) {first second : Line K}
    (hcut : (Location.along i t).cut? points = some (first, second)) :
    IsOnePoint second ↔ (Location.along i t).fraction = 0 ∧
      IsOnePoint (points.drop (Location.along i t).segment) := by
  have hlength := h.lt_length
  obtain ⟨q, first', second', hq, hcut', -, hsecond⟩ :=
    exists_parts (Location.along i t) points (by omega)
  obtain ⟨rfl, rfl⟩ : first' = first ∧ second' = second := by
    simpa using hcut'.symm.trans hcut
  rw [hsecond, isOnePoint_cons_iff]
  rcases h.high.lt_or_eq with ht | rfl
  · obtain ⟨hpoint, hwhole⟩ := h.point?_of_lt ht
    obtain rfl := Option.some.inj (hpoint.symm.trans hq)
    rw [hwhole, Location.along_of_lt i h.low ht, drop_eq_cons h.start, isOnePoint_cons_iff]
    constructor
    · intro hall
      have hb : b = Location.between a b t :=
        hall b (by rw [drop_eq_cons h.stop]; exact List.mem_cons_self)
      have hab : a = b := by
        by_contra hne
        exact ht.ne (between_inj hne (hb.symm.trans (between_one a b).symm))
      obtain rfl := h.still hab
      rw [between_zero] at hall
      exact ⟨rfl, hall⟩
    · rintro ⟨rfl, hall⟩
      rwa [between_zero]
  · obtain rfl := Option.some.inj (h.point?_of_one.symm.trans hq)
    rw [Location.along_one, drop_eq_cons h.stop, isOnePoint_cons_iff]
    simp only [true_and]
    by_cases hend : i + 2 = points.length
    · have hwhole : min (i + 1) (points.length - 2) + 1 = i + 1 := by omega
      have hnone : points.drop (i + 2) = [] := List.drop_eq_nil_iff.2 hend.ge
      rw [hwhole, drop_eq_cons h.stop, hnone]
      simp
    · have hwhole : min (i + 1) (points.length - 2) + 1 = i + 2 := by omega
      rw [hwhole]

end Lands

/-! ## Where a point is located -/

variable [IsStrictOrderedRing K]

theorem Frame.FirstNearest.lands {f : Frame K} {p : Point K} {points : Line K} {i : Nat}
    {a b : Point K} (h : f.FirstNearest p points i a b) : Lands points i a b (f.foot p a b) where
  start := h.ends.1
  stop := h.ends.2
  low := (f.foot_mem p a b).1
  high := (f.foot_mem p a b).2
  still := by
    rintro rfl
    exact footFraction_self
  new := by
    intro hi hsame
    have hlt := h.lt_start hi
    rw [f.reach_eq, hsame] at hlt
    exact lt_irrefl _ hlt

/-- A point is located where a line first gets to the place, and at the start of a line that is far
away. -/
theorem Frame.exists_lands (f : Frame K) (p : Point K) {points : Line K}
    (hpoints : 2 ≤ points.length) :
    ∃ i a b t, Lands points i a b t ∧ f.locate p points = Location.along i t := by
  obtain ⟨i, a, b, hfirst⟩ := f.exists_firstNearest p hpoints
  by_cases hfar : f.reach p a b < Scalar.far
  · exact ⟨i, a, b, f.foot p a b, hfirst.lands, hfirst.locate_eq hfar⟩
  · obtain ⟨c, d, rest, rfl⟩ : ∃ c d rest, points = c :: d :: rest := by
      match points, hpoints with
      | c :: d :: rest, _ => exact ⟨c, d, rest, rfl⟩
    have hnone : nearestFrom (f.project p) 0 ⟨0, 0, Scalar.far⟩
        ((segments (c :: d :: rest)).map fun s => (f.project s.1, f.project s.2)) =
        ⟨0, 0, Scalar.far⟩ := by
      apply nearestFrom_of_le
      intro s hs
      obtain ⟨r, hr, rfl⟩ := List.mem_map.1 hs
      exact (not_lt.1 hfar).trans (hfirst.least r hr)
    refine ⟨0, c, d, 0, ⟨rfl, rfl, le_rfl, zero_le_one, fun _ => rfl, ?_⟩, ?_⟩
    · exact fun hi => absurd hi (lt_irrefl 0)
    · rw [locate, hnone]

end StreetLinking.Plane
