import StreetLinking.Proofs.Plane.ExactNumbers
import StreetLinking.Proofs.Plane.Cutting
/-!
# Lines from their other end

A point is located on a line and on the same line from its other end, and each time the first of
equally near segments wins. In exact numbers both find the same place, as long as the line comes
nearest to the point only once. Main statements: how the two places correspond, which ends they are
near to, and how the parts of the two cuts correspond.
-/

namespace StreetLinking.Plane

open Number

/-! ## Points by their numbers -/

instance lawfulPoint {α : Type} [BEq α] [LawfulBEq α] : LawfulBEq (Point α) where
  eq_of_beq := by
    intro a b h
    have hsides : (a.x == b.x && a.y == b.y) = true := h
    rw [Bool.and_eq_true, beq_iff_eq, beq_iff_eq] at hsides
    cases a
    cases b
    exact Point.mk.injEq _ _ _ _ ▸ hsides
  rfl := by
    intro a
    have hsides : (a.x == a.x && a.y == a.y) = true := by simp
    exact hsides

theorem drop_eq_cons {α : Type} {points : List α} {i : Nat} {a : α} (h : points[i]? = some a) :
    points.drop i = a :: points.drop (i + 1) := by
  obtain ⟨hlt, rfl⟩ := List.getElem?_eq_some_iff.1 h
  exact List.drop_eq_getElem_cons hlt

theorem drop_eq_replicate_append {α : Type} {points : List α} {q : α} (n i : Nat)
    (h : ∀ k, i ≤ k → k < i + n → points[k]? = some q) :
    points.drop i = List.replicate n q ++ points.drop (i + n) := by
  induction n generalizing i with
  | zero => rfl
  | succ n ih =>
    have hfirst := drop_eq_cons (h i (le_refl i) (by omega))
    have hrest := ih (i + 1) fun k hlow hhigh => h k (by omega) (by omega)
    have hend : i + 1 + n = i + (n + 1) := by omega
    rw [hfirst, hrest, hend]
    rfl

theorem getElem?_reverse_sub {α : Type} {points : Line α} {i k : Nat}
    (h : i + k + 1 = points.length) : points.reverse[i]? = points[k]? := by
  rw [List.getElem?_reverse (by omega)]
  congr 1
  omega

/-! ## The first of the least items -/

section FirstLeast

variable {L β : Type} [LinearOrder L] {size : β → L}

/-- No item is smaller than the one with this number, and all earlier ones are larger. -/
structure FirstLeast (size : β → L) (items : List β) (i : Nat) (x : β) : Prop where
  get : items[i]? = some x
  least : ∀ y ∈ items, size x ≤ size y
  first : ∀ j y, j < i → items[j]? = some y → size x < size y

theorem FirstLeast.tail {y x : β} {rest : List β} {i : Nat}
    (h : FirstLeast size (y :: rest) (i + 1) x) : FirstLeast size rest i x where
  get := h.get
  least := fun z hz => h.least z (List.mem_cons_of_mem y hz)
  first := fun j z hj hz => h.first (j + 1) z (by omega) hz

theorem exists_firstLeast (size : β → L) {items : List β} (h : items ≠ []) :
    ∃ i x, FirstLeast size items i x := by
  induction items with
  | nil => exact absurd rfl h
  | cons y rest ih =>
    by_cases hrest : rest = []
    · subst hrest
      exact ⟨0, y, rfl, by simp, by simp⟩
    · obtain ⟨i, x, hx⟩ := ih hrest
      by_cases hy : size y ≤ size x
      · refine ⟨0, y, rfl, ?_, by simp⟩
        intro z hz
        rcases List.mem_cons.1 hz with rfl | hz
        · exact le_refl _
        · exact hy.trans (hx.least z hz)
      · refine ⟨i + 1, x, hx.get, ?_, ?_⟩
        · intro z hz
          rcases List.mem_cons.1 hz with rfl | hz
          · exact (not_le.1 hy).le
          · exact hx.least z hz
        · intro j z hj hz
          cases j with
          | zero =>
            obtain rfl : y = z := Option.some.inj hz
            exact not_le.1 hy
          | succ j => exact hx.first j z (by omega) hz

theorem FirstLeast.map {γ : Type} (size : β → L) (g : γ → β) {items : List γ} {i : Nat} {x : γ}
    (h : FirstLeast (fun y => size (g y)) items i x) : FirstLeast size (items.map g) i (g x) where
  get := by rw [List.getElem?_map, h.get, Option.map_some]
  least := List.forall_mem_map.2 h.least
  first := by
    intro j y hj hy
    rw [List.getElem?_map] at hy
    obtain ⟨z, hz, rfl⟩ := Option.map_eq_some_iff.1 hy
    exact h.first j z hj hz

end FirstLeast

variable {K : Type} [Field K] [LinearOrder K] [ExactNumbers K]

/-! ## Points on segments -/

def OnSegment (points : Line K) (i : Nat) (q : Point K) : Prop :=
  ∃ a b t, points[i]? = some a ∧ points[i + 1]? = some b ∧ 0 ≤ t ∧ t ≤ 1 ∧
    q = Location.between a b t

theorem OnSegment.lt_length {points : Line K} {i : Nat} {q : Point K} (h : OnSegment points i q) :
    i + 2 ≤ points.length := by
  obtain ⟨a, b, t, -, hb, -⟩ := h
  have hlt := (List.getElem?_eq_some_iff.1 hb).1
  omega

theorem OnSegment.eq_zero_of_pair {a b q : Point K} {i : Nat} (h : OnSegment [a, b] i q) :
    i = 0 := by
  have hlength := h.lt_length
  simp only [List.length_cons, List.length_nil] at hlength
  omega

theorem between_zero (a b : Point K) : Location.between a b 0 = a := by
  simp [Location.between]

theorem between_one (a b : Point K) : Location.between a b 1 = b := by
  simp [Location.between]

theorem between_swap (a b : Point K) (t : K) :
    Location.between b a t = Location.between a b (1 - t) := by
  unfold Location.between
  rw [Point.mk.injEq]
  constructor <;> ring

theorem between_inj {a b : Point K} (hab : a ≠ b) {t u : K}
    (h : Location.between a b t = Location.between a b u) : t = u := by
  unfold Location.between at h
  rw [Point.mk.injEq] at h
  by_contra hne
  have hx : (t - u) * (b.x - a.x) = 0 := by linear_combination h.1
  have hy : (t - u) * (b.y - a.y) = 0 := by linear_combination h.2
  apply hab
  cases a
  cases b
  rw [Point.mk.injEq]
  rw [mul_eq_zero, or_iff_right (sub_ne_zero.2 hne), sub_eq_zero] at hx hy
  exact ⟨hx.symm, hy.symm⟩

variable [IsStrictOrderedRing K]

theorem onSegment_reverse {points : Line K} {i j : Nat} (hij : i + j + 2 = points.length)
    {q : Point K} (h : OnSegment points i q) : OnSegment points.reverse j q := by
  obtain ⟨a, b, t, ha, hb, hlow, hhigh, rfl⟩ := h
  refine ⟨b, a, 1 - t, ?_, ?_, sub_nonneg.2 hhigh, sub_le_self 1 hlow, ?_⟩
  · rw [getElem?_reverse_sub (k := i + 1) (by omega), hb]
  · rw [getElem?_reverse_sub (k := i) (by omega), ha]
  · exact between_swap b a t

namespace Frame

def reach (f : Frame K) (p a b : Point K) : K :=
  segmentDistance (f.project p) (f.project a) (f.project b)

def foot (f : Frame K) (p a b : Point K) : K :=
  footFraction (f.project p) (f.project a) (f.project b)

omit [IsStrictOrderedRing K] in
theorem distance_between (f : Frame K) (p a b : Point K) (t : K) :
    f.distance p (Location.between a b t) =
      distanceAt (f.project p) (f.project a) (f.project b) t := by
  have hx : (a.x + (b.x - a.x) * t) * f.xScale =
      a.x * f.xScale + t * (b.x * f.xScale - a.x * f.xScale) := by ring
  have hy : a.y + (b.y - a.y) * t = a.y + t * (b.y - a.y) := by ring
  unfold distance distanceAt project Location.between
  dsimp only
  rw [hx, hy]

omit [IsStrictOrderedRing K] in
theorem reach_eq (f : Frame K) (p a b : Point K) :
    f.reach p a b = f.distance p (Location.between a b (f.foot p a b)) :=
  (f.distance_between p a b _).symm

theorem reach_le (f : Frame K) (p a b : Point K) {t : K} (hlow : 0 ≤ t) (hhigh : t ≤ 1) :
    f.reach p a b ≤ f.distance p (Location.between a b t) := by
  rw [distance_between]
  exact segmentDistance_le _ _ _ hlow hhigh

omit [IsStrictOrderedRing K] in
theorem project_inj {f : Frame K} (hf : 0 < f.xScale) {a b : Point K}
    (h : f.project a = f.project b) : a = b := by
  unfold project at h
  rw [Point.mk.injEq] at h
  cases a
  cases b
  rw [Point.mk.injEq]
  exact ⟨mul_right_cancel₀ hf.ne' h.1, h.2⟩

theorem foot_mem (f : Frame K) (p a b : Point K) : 0 ≤ f.foot p a b ∧ f.foot p a b ≤ 1 :=
  footFraction_mem _ _ _

omit [IsStrictOrderedRing K] in
theorem nearestFrom_of_le {p : Point K} {best : Candidate K} {ss : List (Point K × Point K)}
    (next : Nat) (h : ∀ s ∈ ss, best.distance ≤ segmentDistance p s.1 s.2) :
    nearestFrom p next best ss = best := by
  induction ss generalizing next with
  | nil => rfl
  | cons s rest ih =>
    have hkeep : ¬ distanceAt p s.1 s.2 (footFraction p s.1 s.2) < best.distance :=
      not_lt.2 (h s List.mem_cons_self)
    rw [nearestFrom, if_neg hkeep]
    exact ih (next + 1) fun s hs => h s (List.mem_cons_of_mem _ hs)

omit [IsStrictOrderedRing K] in
theorem nearestFrom_eq {p : Point K} {ss : List (Point K × Point K)} {i : Nat}
    {s : Point K × Point K} (h : FirstLeast (fun s => segmentDistance p s.1 s.2) ss i s)
    (next : Nat) (best : Candidate K) (hbest : segmentDistance p s.1 s.2 < best.distance) :
    nearestFrom p next best ss =
      ⟨next + i, footFraction p s.1 s.2, segmentDistance p s.1 s.2⟩ := by
  induction ss generalizing i next best with
  | nil =>
    have hget := h.get
    simp at hget
  | cons r rest ih =>
    rw [nearestFrom]
    cases i with
    | zero =>
      obtain rfl : r = s := Option.some.inj h.get
      have hwins : distanceAt p r.1 r.2 (footFraction p r.1 r.2) < best.distance := hbest
      rw [if_pos hwins]
      exact nearestFrom_of_le (next + 1) fun s hs => h.least s (List.mem_cons_of_mem _ hs)
    | succ i =>
      have hnumber : next + (i + 1) = next + 1 + i := by omega
      rw [hnumber]
      apply ih h.tail
      split
      · exact h.first 0 r (Nat.succ_pos i) rfl
      · exact hbest

def FirstNearest (f : Frame K) (p : Point K) (points : Line K) (i : Nat) (a b : Point K) : Prop :=
  FirstLeast (fun s => f.reach p s.1 s.2) (segments points) i (a, b)

namespace FirstNearest

variable {f : Frame K} {p : Point K} {points : Line K} {i : Nat} {a b : Point K}

omit [IsStrictOrderedRing K] in
theorem ends (h : f.FirstNearest p points i a b) : points[i]? = some a ∧ points[i + 1]? = some b :=
  (getElem?_segments points i a b).1 h.get

omit [IsStrictOrderedRing K] in
theorem lt_length (h : f.FirstNearest p points i a b) : i + 2 ≤ points.length := by
  have hlt := (List.getElem?_eq_some_iff.1 h.ends.2).1
  omega

omit [IsStrictOrderedRing K] in
theorem locate_eq (h : f.FirstNearest p points i a b) (hfar : f.reach p a b < Scalar.far) :
    f.locate p points = Location.along i (f.foot p a b) := by
  have hfirst := FirstLeast.map
    (fun s : Point K × Point K => segmentDistance (f.project p) s.1 s.2)
    (fun s : Point K × Point K => (f.project s.1, f.project s.2)) h
  have hbest := nearestFrom_eq hfirst 0 ⟨0, 0, Scalar.far⟩ hfar
  unfold locate
  simp only [hbest, Nat.zero_add]
  rfl

theorem reach_le (h : f.FirstNearest p points i a b) {j : Nat} {q : Point K}
    (hq : OnSegment points j q) : f.reach p a b ≤ f.distance p q := by
  obtain ⟨c, d, t, hc, hd, hlow, hhigh, rfl⟩ := hq
  have hmem := List.mem_of_getElem? ((getElem?_segments points j c d).2 ⟨hc, hd⟩)
  exact (h.least _ hmem).trans (f.reach_le p c d hlow hhigh)

theorem lt_of_lt (h : f.FirstNearest p points i a b) {j : Nat} (hj : j < i) {q : Point K}
    (hq : OnSegment points j q) : f.reach p a b < f.distance p q := by
  obtain ⟨c, d, t, hc, hd, hlow, hhigh, rfl⟩ := hq
  have hfarther := h.first j _ hj ((getElem?_segments points j c d).2 ⟨hc, hd⟩)
  exact hfarther.trans_le (f.reach_le p c d hlow hhigh)

/-- The start of the first nearest segment ends the segment before it, so it is farther away. -/
theorem lt_start (h : f.FirstNearest p points i a b) (hi : 0 < i) :
    f.reach p a b < f.distance p a := by
  obtain ⟨ha, hb⟩ := h.ends
  have hlength := h.lt_length
  apply h.lt_of_lt (j := i - 1) (by omega)
  refine ⟨points[i - 1], a, 1, List.getElem?_eq_getElem (by omega), ?_, zero_le_one, le_refl 1,
    (between_one _ a).symm⟩
  rw [Nat.sub_add_cancel hi, ha]

end FirstNearest

omit [IsStrictOrderedRing K] in
theorem exists_firstNearest (f : Frame K) (p : Point K) {points : Line K}
    (hpoints : 2 ≤ points.length) : ∃ i a b, f.FirstNearest p points i a b := by
  have hsegments : segments points ≠ [] := by
    intro hnone
    have hlength := length_segments points
    rw [hnone, List.length_nil] at hlength
    omega
  obtain ⟨i, s, hs⟩ := exists_firstLeast (fun s => f.reach p s.1 s.2) hsegments
  exact ⟨i, s.1, s.2, hs⟩

/-! ## Lines that are within sight -/

omit [IsStrictOrderedRing K] in
theorem foldl_least_mem (x : K) (sizes : List K) :
    sizes.foldl Scalar.least x = x ∨ sizes.foldl Scalar.least x ∈ sizes := by
  induction sizes generalizing x with
  | nil => exact Or.inl rfl
  | cons z rest ih =>
    rw [List.foldl_cons]
    rcases ih (Scalar.least x z) with hfirst | hrest
    · have hdefined (a : K) : Scalar.isUndefined a = false := by simp [Scalar.isUndefined]
      rw [hfirst, Scalar.least, hdefined, hdefined]
      simp only [Bool.false_eq_true, if_false]
      split
      · exact Or.inr List.mem_cons_self
      · exact Or.inl rfl
    · exact Or.inr (List.mem_cons_of_mem z hrest)

omit [IsStrictOrderedRing K] in
theorem exists_lt_of_foldl_least {sizes : List K} {x y : K}
    (h : sizes.foldl Scalar.least x < y) : x < y ∨ ∃ z ∈ sizes, z < y := by
  rcases foldl_least_mem x sizes with heq | hmem
  · exact Or.inl (heq ▸ h)
  · exact Or.inr ⟨_, hmem, h⟩

omit [IsStrictOrderedRing K] in
theorem FirstNearest.lt_far {f : Frame K} {p : Point K} {points : Line K} {i : Nat} {a b : Point K}
    (h : f.FirstNearest p points i a b) (hfar : f.distanceToLine p points < Scalar.far) :
    f.reach p a b < Scalar.far := by
  have hlength := h.lt_length
  rw [f.distanceToLine_eq_foldl p (by omega)] at hfar
  rcases exists_lt_of_foldl_least hfar with habsurd | ⟨d, hd, hlt⟩
  · exact absurd habsurd (lt_irrefl _)
  · obtain ⟨s, hs, rfl⟩ := List.mem_map.1 hd
    exact (h.least s hs).trans_lt hlt

/-! ## Lines that come nearest only once -/

structure IsNearest (f : Frame K) (p : Point K) (points : Line K) (i : Nat) (q : Point K) :
    Prop where
  on : OnSegment points i q
  least : ∀ j r, OnSegment points j r → f.distance p q ≤ f.distance p r

/-- The line comes nearest to a point at `q`, and there only once: it may rest at `q`, but not
leave it and come back, and it does not rest at its own ends. -/
structure PassesOnce (f : Frame K) (p : Point K) (points : Line K) (q : Point K) : Prop where
  point : ∀ i r, f.IsNearest p points i r → r = q
  rests : ∀ i j k r s, f.IsNearest p points i r → f.IsNearest p points j s → i < k → k ≤ j →
    points[k]? = some q
  ends : ∀ i r, f.IsNearest p points i r → i = 0 ∨ i + 2 = points.length →
    points[i]? ≠ points[i + 1]?

theorem IsNearest.of_reverse {f : Frame K} {p : Point K} {points : Line K} {i j : Nat}
    (hij : i + j + 2 = points.length) {q : Point K} (h : f.IsNearest p points.reverse i q) :
    f.IsNearest p points j q where
  on := by
    have hon := onSegment_reverse (j := j) (by rwa [List.length_reverse]) h.on
    rwa [List.reverse_reverse] at hon
  least := by
    intro k r hr
    have hlength := hr.lt_length
    exact h.least (points.length - 2 - k) r (onSegment_reverse (by omega) hr)

theorem PassesOnce.reverse {f : Frame K} {p : Point K} {points : Line K} {q : Point K}
    (h : f.PassesOnce p points q) : f.PassesOnce p points.reverse q where
  point := by
    intro i r hr
    have hlength := hr.on.lt_length
    rw [List.length_reverse] at hlength
    exact h.point (points.length - 2 - i) r (hr.of_reverse (by omega))
  rests := by
    intro i j k r s hr hs hik hkj
    have hlength := hs.on.lt_length
    rw [List.length_reverse] at hlength
    rw [getElem?_reverse_sub (k := points.length - 1 - k) (by omega)]
    exact h.rests (points.length - 2 - j) (points.length - 2 - i) _ s r (hs.of_reverse (by omega))
      (hr.of_reverse (by omega)) (by omega) (by omega)
  ends := by
    intro i r hr hend
    have hlength := hr.on.lt_length
    rw [List.length_reverse] at hlength hend
    rw [getElem?_reverse_sub (k := points.length - 2 - i + 1) (by omega),
      getElem?_reverse_sub (k := points.length - 2 - i) (by omega)]
    exact (h.ends (points.length - 2 - i) r (hr.of_reverse (by omega)) (by omega)).symm

/-! ## One place from both ends -/

theorem FirstNearest.isNearest {f : Frame K} {p : Point K} {points : Line K} {i : Nat}
    {a b : Point K} (h : f.FirstNearest p points i a b) :
    f.IsNearest p points i (Location.between a b (f.foot p a b)) where
  on := ⟨a, b, f.foot p a b, h.ends.1, h.ends.2, (f.foot_mem p a b).1, (f.foot_mem p a b).2, rfl⟩
  least := by
    intro j r hr
    rw [← reach_eq]
    exact h.reach_le hr

theorem passesOnce_pair {f : Frame K} (hf : 0 < f.xScale) (p : Point K) {a b : Point K}
    (hab : a ≠ b) : f.PassesOnce p [a, b] (Location.between a b (f.foot p a b)) where
  point := by
    intro i r hr
    obtain ⟨c, d, t, hc, hd, hlow, hhigh, rfl⟩ := hr.on
    obtain rfl : i = 0 := hr.on.eq_zero_of_pair
    obtain rfl : a = c := Option.some.inj hc
    obtain rfl : b = d := Option.some.inj hd
    have hnear := hr.least 0 _ ⟨a, b, f.foot p a b, rfl, rfl, (f.foot_mem p a b).1,
      (f.foot_mem p a b).2, rfl⟩
    rw [distance_between, distance_between] at hnear
    have hfoot : t = f.foot p a b :=
      eq_footFraction (fun hsame => hab (project_inj hf hsame)) hlow hhigh hnear
    rw [hfoot]
  rests := by
    intro i j k r s hr hs hik hkj
    have hj : j = 0 := hs.on.eq_zero_of_pair
    omega
  ends := by
    intro i r hr _
    obtain rfl : i = 0 := hr.on.eq_zero_of_pair
    intro hsame
    exact hab (Option.some.inj hsame)

end Frame

/-- The place of a point on a line: a fraction of a segment that has a length. The start of a
segment counts as the end of the one before it. -/
structure Place (points : Line K) (q : Point K) (i : Nat) (t : K) : Prop where
  exists_ends : ∃ a b, points[i]? = some a ∧ points[i + 1]? = some b ∧ a ≠ b ∧
    q = Location.between a b t
  low : 0 ≤ t
  high : t ≤ 1
  first : 0 < i → 0 < t

/-- Two places of a point, one from each end of a line. Either they are the same, or the line rests
at the point from the end of one segment to the end of the other. -/
structure Opposite (points : Line K) (q : Point K) (i : Nat) (t : K) (j : Nat) (u : K) : Prop where
  front : Place points q i t
  back : Place points.reverse q j u
  same : i + j + 2 = points.length ∧ t + u = 1 ∨
    i + j + 2 < points.length ∧ t = 1 ∧ u = 1 ∧
      ∀ k, i < k → k + j + 2 ≤ points.length → points[k]? = some q

omit [IsStrictOrderedRing K] in
theorem Place.eq_one {points : Line K} {q : Point K} {i : Nat} {t : K} (h : Place points q i t)
    (hq : points[i + 1]? = some q) : t = 1 := by
  obtain ⟨a, b, -, hb, hab, hplace⟩ := h.exists_ends
  obtain rfl : b = q := Option.some.inj (hb.symm.trans hq)
  apply between_inj hab
  rw [← hplace, between_one]

omit [IsStrictOrderedRing K] in
theorem Place.add_eq_one {points : Line K} {q : Point K} {i j : Nat} {t u : K}
    (h : Place points q i t) (h' : Place points.reverse q j u) (hij : i + j + 2 = points.length) :
    t + u = 1 := by
  obtain ⟨a, b, ha, hb, hab, hplace⟩ := h.exists_ends
  obtain ⟨d, c, hd, hc, -, hplace'⟩ := h'.exists_ends
  rw [getElem?_reverse_sub (k := i + 1) (by omega)] at hd
  rw [getElem?_reverse_sub (k := i) (by omega)] at hc
  obtain rfl : b = d := Option.some.inj (hb.symm.trans hd)
  obtain rfl : a = c := Option.some.inj (ha.symm.trans hc)
  have hmirrored : t = 1 - u := by
    apply between_inj hab
    rw [← hplace, ← between_swap, ← hplace']
  rw [hmirrored, sub_add_cancel]

namespace Frame

variable {f : Frame K} {p q : Point K} {points : Line K}

theorem FirstNearest.reach_eq_distance {i : Nat} {a b : Point K}
    (h : f.FirstNearest p points i a b) (hq : f.PassesOnce p points q) :
    f.reach p a b = f.distance p q := by
  rw [reach_eq, hq.point i _ h.isNearest]

theorem FirstNearest.place {i : Nat} {a b : Point K} (h : f.FirstNearest p points i a b)
    (hq : f.PassesOnce p points q) : Place points q i (f.foot p a b) := by
  obtain ⟨ha, hb⟩ := h.ends
  have hplace := hq.point i _ h.isNearest
  have hstart (hi : 0 < i) : Location.between a b (f.foot p a b) ≠ a := by
    intro hsame
    have hlt := h.lt_start hi
    rw [reach_eq, hsame] at hlt
    exact lt_irrefl _ hlt
  refine ⟨⟨a, b, ha, hb, ?_, hplace.symm⟩, (f.foot_mem p a b).1, (f.foot_mem p a b).2, ?_⟩
  · rintro rfl
    rcases Nat.eq_zero_or_pos i with hi | hi
    · exact hq.ends i _ h.isNearest (Or.inl hi) (ha.trans hb.symm)
    · apply hstart hi
      simp [Location.between]
  · intro hi
    apply lt_of_le_of_ne (f.foot_mem p a b).1
    intro hzero
    apply hstart hi
    rw [← hzero, between_zero]

/-- A point that the line passes only once is located there from both ends. -/
theorem PassesOnce.exists_opposite (hpoints : 2 ≤ points.length)
    (hfar : f.distanceToLine p points < Scalar.far) (hq : f.PassesOnce p points q) :
    ∃ i t j u, f.locate p points = Location.along i t ∧
      f.locate p points.reverse = Location.along j u ∧ Opposite points q i t j u := by
  have hlength : 2 ≤ points.reverse.length := by rwa [List.length_reverse]
  obtain ⟨i, a, b, hfront⟩ := f.exists_firstNearest p hpoints
  obtain ⟨j, d, c, hback⟩ := f.exists_firstNearest p hlength
  have hplace := hfront.place hq
  have hplace' := hback.place hq.reverse
  have hnear : f.reach p a b < Scalar.far := hfront.lt_far hfar
  have hnear' : f.reach p d c < Scalar.far := by
    rwa [hback.reach_eq_distance hq.reverse, ← hfront.reach_eq_distance hq]
  refine ⟨i, f.foot p a b, j, f.foot p d c, hfront.locate_eq hnear, hback.locate_eq hnear', hplace,
    hplace', ?_⟩
  -- `l` is the number, from the front, of the segment that was found from the back
  have hlt := hback.lt_length
  rw [List.length_reverse] at hlt
  obtain ⟨l, hl⟩ : ∃ l, l + j + 2 = points.length := ⟨points.length - 2 - j, by omega⟩
  have hnearest := hback.isNearest.of_reverse (j := l) (by omega)
  have hon : OnSegment points l q := by
    rw [← hq.point l _ hnearest]
    exact hnearest.on
  have hle : i ≤ l := by
    by_contra hlater
    have hcloser := hfront.lt_of_lt (not_le.1 hlater) hon
    rw [hfront.reach_eq_distance hq] at hcloser
    exact lt_irrefl _ hcloser
  rcases hle.eq_or_lt with rfl | hlater
  · left
    exact ⟨hl, hplace.add_eq_one hplace' hl⟩
  · right
    have hrests := fun k => hq.rests i l k _ _ hfront.isNearest hnearest
    refine ⟨by omega, hplace.eq_one (hrests (i + 1) (by omega) (by omega)), ?_,
      fun k hik hkj => hrests k hik (by omega)⟩
    apply hplace'.eq_one
    rw [getElem?_reverse_sub (k := l) (by omega)]
    exact hrests l hlater (le_refl l)

end Frame

/-! ## The ends that a place is near to, and the cut there -/

namespace Location

variable {points : Line K} {i : Nat} {t snap : K}

omit [IsStrictOrderedRing K] in
theorem along_of_lt (i : Nat) (hlow : 0 ≤ t) (ht : t < 1) : along i t = ⟨i, t⟩ := by
  have hfraction : (if 0 < t then t else 0) = t := by
    split
    · rfl
    · next hzero => exact le_antisymm hlow (not_lt.1 hzero)
  unfold along
  rw [if_neg (not_le.2 ht), hfraction]

omit [IsStrictOrderedRing K] in
theorem along_one (i : Nat) : along i (1 : K) = ⟨i + 1, 0⟩ :=
  if_pos (le_refl 1)

omit [IsStrictOrderedRing K] in
theorem nearStart_along (hlow : 0 ≤ t) (hhigh : t ≤ 1) (hsnap : snap < 1) :
    (along i t).nearStart snap = true ↔ i = 0 ∧ t < snap := by
  rcases hhigh.lt_or_eq with ht | rfl
  · rw [along_of_lt i hlow ht]
    simp [nearStart]
  · rw [along_one]
    simp [nearStart, hsnap.le]

omit [IsStrictOrderedRing K] in
theorem nearEnd_iff (l : Location K) (n : Nat) (snap : K) :
    l.nearEnd n snap = true ↔
      n ≤ l.segment + 1 ∨ n = l.segment + 2 ∧ 1 - snap < l.fraction := by
  simp only [nearEnd, Bool.or_eq_true, Bool.and_eq_true, beq_iff_eq, decide_eq_true_eq]
  constructor
  · rintro ((hnone | hpast) | ⟨⟨htwo, hlast⟩, hnear⟩)
    · exact Or.inl (by omega)
    · exact Or.inl (by omega)
    · exact Or.inr ⟨by omega, hnear⟩
  · rintro (hpast | ⟨hlast, hnear⟩)
    · exact Or.inl (Or.inr (by omega))
    · exact Or.inr ⟨⟨by omega, by omega⟩, hnear⟩

theorem nearEnd_along (hi : i + 2 ≤ points.length) (hlow : 0 ≤ t) (hhigh : t ≤ 1)
    (hpositive : 0 < snap) (hsnap : snap < 1) :
    (along i t).nearEnd points.length snap = true ↔ i + 2 = points.length ∧ 1 - snap < t := by
  rw [nearEnd_iff]
  rcases hhigh.lt_or_eq with ht | rfl
  · rw [along_of_lt i hlow ht]
    dsimp only
    constructor
    · rintro (hpast | ⟨hlast, hnear⟩)
      · omega
      · exact ⟨hlast.symm, hnear⟩
    · rintro ⟨hlast, hnear⟩
      exact Or.inr ⟨hlast.symm, hnear⟩
  · rw [along_one]
    dsimp only
    constructor
    · rintro (hpast | ⟨-, hnear⟩)
      · exact ⟨by omega, sub_lt_self 1 hpositive⟩
      · exact absurd hnear (not_lt.2 (sub_nonneg.2 hsnap.le))
    · rintro ⟨hlast, -⟩
      exact Or.inl (by omega)

end Location

namespace Place

variable {points : Line K} {q : Point K} {i : Nat} {t : K}

omit [IsStrictOrderedRing K] in
theorem lt_length (h : Place points q i t) : i + 2 ≤ points.length := by
  obtain ⟨a, b, -, hb, -⟩ := h.exists_ends
  have hlt := (List.getElem?_eq_some_iff.1 hb).1
  omega

omit [IsStrictOrderedRing K] in
theorem point? (h : Place points q i t) : (Location.along i t).point? points = some q := by
  obtain ⟨a, b, ha, hb, -, rfl⟩ := h.exists_ends
  have hrest := drop_eq_cons hb
  rcases h.high.lt_or_eq with ht | rfl
  · rw [Location.along_of_lt i h.low ht, Location.point?, drop_eq_cons ha, hrest]
  · have hlast := List.getLast?_drop (l := points) (i := i + 1)
    rw [if_neg (by have := h.lt_length; omega), hrest] at hlast
    rw [Location.along_one, Location.point?, between_one, hrest]
    cases hnext : points.drop (i + 2) with
    | nil =>
      rw [hnext] at hlast
      exact hlast.symm
    | cons c rest => exact congrArg some (between_zero b c)

omit [IsStrictOrderedRing K] in
theorem cut? (h : Place points q i t) (hstart : 0 < t) (hend : i + 2 = points.length → t < 1) :
    (Location.along i t).cut? points =
      some (points.take (i + 1) ++ [q],
        if t < 1 then q :: points.drop (i + 1) else points.drop (i + 1)) := by
  have hlength := h.lt_length
  have hlong : 2 ≤ points.length := by omega
  have hpoint := h.point?
  obtain ⟨a, b, ha, hb, hab, hplace⟩ := h.exists_ends
  rcases h.high.lt_or_eq with ht | rfl
  · rw [Location.along_of_lt i h.low ht] at hpoint ⊢
    have hwhole : min i (points.length - 2) = i := by omega
    have hadds : ¬ (0 < i ∧ (points[i]? == some q) = true) := by
      rintro ⟨-, hsame⟩
      rw [ha, beq_iff_eq, Option.some.injEq] at hsame
      apply hstart.ne'
      apply between_inj hab
      rw [← hplace, between_zero, hsame]
    rw [Location.cut?_of_le hlong hwhole hpoint, if_neg hadds, if_pos ht]
  · rw [Location.along_one] at hpoint ⊢
    have hwhole : min (i + 1) (points.length - 2) = i + 1 := by
      have hbefore : i + 2 ≠ points.length := fun hlast => lt_irrefl _ (hend hlast)
      omega
    have hq : points[i + 1]? = some q := by rw [hb, hplace, between_one]
    have hkeeps : 0 < i + 1 ∧ (points[i + 1]? == some q) = true :=
      ⟨Nat.succ_pos i, by rw [hq, beq_self_eq_true]⟩
    have hends : points.take (i + 2) = points.take (i + 1) ++ [q] := by
      rw [List.take_add_one, hq]
      rfl
    rw [Location.cut?_of_le hlong hwhole hpoint, if_pos hkeeps, hends, if_neg (lt_irrefl _),
      drop_eq_cons hq]

end Place

namespace Opposite

variable {points : Line K} {q : Point K} {i j : Nat} {t u snap : K}

omit [IsStrictOrderedRing K] in
theorem reverse (h : Opposite points q i t j u) : Opposite points.reverse q j u i t where
  front := h.back
  back := by
    rw [List.reverse_reverse]
    exact h.front
  same := by
    rw [List.length_reverse]
    rcases h.same with ⟨hnumbers, hsum⟩ | ⟨hnumbers, ht, hu, hrests⟩
    · exact Or.inl ⟨by omega, by rwa [add_comm]⟩
    · refine Or.inr ⟨by omega, hu, ht, ?_⟩
      intro k hjk hki
      rw [getElem?_reverse_sub (k := points.length - 1 - k) (by omega)]
      exact hrests _ (by omega) (by omega)

theorem nearStart_iff (h : Opposite points q i t j u) (hsnap : snap < 1) :
    i = 0 ∧ t < snap ↔ j + 2 = points.length ∧ 1 - snap < u := by
  rcases h.same with ⟨hnumbers, hsum⟩ | ⟨hnumbers, ht, -, -⟩
  · have hfraction : t < snap ↔ 1 - snap < u := by
      rw [← hsum]
      constructor
      · intro hlt
        linarith
      · intro hlt
        linarith
    rw [hfraction]
    exact and_congr_left fun _ => by omega
  · constructor
    · rintro ⟨-, hlt⟩
      rw [ht] at hlt
      exact absurd hlt (not_lt.2 hsnap.le)
    · rintro ⟨hlast, -⟩
      omega

/-- What a cut leaves behind the place is what the opposite cut leaves before it, read backwards,
with the place repeated as often as the line rests there. -/
theorem rest_eq (h : Opposite points q i t j u) (hu : 0 < u) :
    (if t < 1 then q :: points.drop (i + 1) else points.drop (i + 1)) =
      List.replicate (points.length - i - j - 3) q ++
        (points.reverse.take (j + 1) ++ [q]).reverse := by
  rw [List.take_reverse, List.reverse_append, List.reverse_reverse]
  rcases h.same with ⟨hnumbers, hsum⟩ | ⟨hnumbers, rfl, -, hrests⟩
  · have ht : t < 1 := by linarith
    have hcount : points.length - i - j - 3 = 0 := by omega
    have hbehind : points.length - (j + 1) = i + 1 := by omega
    rw [if_pos ht, hcount, hbehind]
    rfl
  · have hstretch := drop_eq_replicate_append (points.length - i - j - 3 + 1) (i + 1)
      fun k hik hkj => hrests k (by omega) (by omega)
    have hbehind : i + 1 + (points.length - i - j - 3 + 1) = points.length - (j + 1) := by omega
    rw [if_neg (lt_irrefl 1), hstretch, List.replicate_succ', List.append_assoc, hbehind]
    rfl

end Opposite

end StreetLinking.Plane
