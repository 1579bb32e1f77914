import Mathlib.Data.List.Basic
import StreetLinking.Plane.Location
/-!
# Cutting lines and joining them again

A cut of a line gives two lines that share the point of the cut. What two lines that meet are
together is a relation, because a cut does not repeat a point of the line that equals its own, and
numbers that are equal need not be the same. Main statements: every line of two points can be cut,
the parts have two points each, and joining is associative.
-/

namespace StreetLinking.Plane

open Number

variable {α : Type} [Scalar α]

/-- The line `first` ends and the line `second` begins at `p`, and `whole` is both of them without
the point: where `first` has a point equal to `p` already, nothing was added to it. -/
def Joins (p : Point α) (first second whole : Line α) : Prop :=
  ∃ before after, whole = before ++ after ∧ second = p :: after ∧ after ≠ [] ∧
    (first = before ++ [p] ∨
      first = before ∧ ∃ q, before.getLast? = some q ∧ (q == p) = true)

theorem Joins.head? {p : Point α} {first second whole : Line α}
    (h : Joins p first second whole) : second.head? = some p := by
  obtain ⟨before, after, -, rfl, -, -⟩ := h
  rfl

theorem Joins.getLast? {p : Point α} {first second whole : Line α}
    (h : Joins p first second whole) :
    ∃ q, first.getLast? = some q ∧ (q = p ∨ (q == p) = true) := by
  obtain ⟨before, after, -, -, -, rfl | ⟨rfl, q, hq, heq⟩⟩ := h
  · exact ⟨p, by simp, Or.inl rfl⟩
  · exact ⟨q, hq, Or.inr heq⟩

theorem Joins.head?_whole {p : Point α} {first second whole : Line α}
    (h : Joins p first second whole) (hfirst : 2 ≤ first.length) : whole.head? = first.head? := by
  obtain ⟨before, after, rfl, -, -, rfl | ⟨rfl, q, hq, -⟩⟩ := h
  · cases before with
    | nil => simp at hfirst
    | cons b before => rfl
  · cases first with
    | nil => simp at hq
    | cons b before => rfl

theorem Joins.getLast?_whole {p : Point α} {first second whole : Line α}
    (h : Joins p first second whole) : whole.getLast? = second.getLast? := by
  obtain ⟨before, after, rfl, rfl, hafter, -⟩ := h
  rw [List.getLast?_append_of_ne_nil _ hafter, List.getLast?_cons_of_ne_nil hafter]

theorem Joins.length_le {p : Point α} {first second whole : Line α}
    (h : Joins p first second whole) (hfirst : 2 ≤ first.length) :
    first.length ≤ whole.length ∧ second.length ≤ whole.length := by
  obtain ⟨before, after, rfl, rfl, hafter, hends⟩ := h
  have hrest : 0 < after.length := List.length_pos_of_ne_nil hafter
  rcases hends with rfl | ⟨rfl, -⟩
  · simp only [List.length_append, List.length_cons, List.length_nil] at hfirst ⊢
    omega
  · simp only [List.length_append, List.length_cons]
    omega

theorem Joins.assoc {p q : Point α} {first second line rest whole : Line α}
    (hparts : Joins p first second line) (hrest : Joins q line rest whole) :
    ∃ tail, Joins q second rest tail ∧ Joins p first tail whole := by
  obtain ⟨before, after, hline, rfl, hafter, hfirst⟩ := hparts
  obtain ⟨body, last, rfl, rfl, hlast, hend⟩ := hrest
  rcases hend with hend | ⟨rfl, x, hx, heq⟩
  · -- the end of `line` was added by the later cut, so it is the end of `after`
    have hends : before ++ after.dropLast ++ [after.getLast hafter] = body ++ [q] := by
      rw [List.append_assoc, List.dropLast_append_getLast hafter, ← hline, hend]
    obtain ⟨hbody, hq⟩ := List.append_inj' hends rfl
    rw [List.cons.injEq] at hq
    refine ⟨p :: (after.dropLast ++ last), ⟨p :: after.dropLast, last, rfl, rfl, hlast, Or.inl ?_⟩,
      ⟨before, after.dropLast ++ last, ?_, rfl, ?_, hfirst⟩⟩
    · rw [List.cons_append, ← hq.1, List.dropLast_append_getLast hafter]
    · rw [← hbody, List.append_assoc]
    · simp [hlast]
  · refine ⟨p :: (after ++ last), ⟨p :: after, last, rfl, rfl, hlast, Or.inr ⟨rfl, x, ?_, heq⟩⟩,
      ⟨before, after ++ last, ?_, rfl, ?_, hfirst⟩⟩
    · rw [hline, List.getLast?_append_of_ne_nil _ hafter] at hx
      rw [List.getLast?_cons_of_ne_nil hafter, hx]
    · rw [hline, List.append_assoc]
    · simp [hafter]

namespace Location

theorem exists_point? (l : Location α) {line : Line α} (hline : line ≠ []) :
    ∃ p, l.point? line = some p := by
  unfold point?
  split
  · exact ⟨_, rfl⟩
  · exact ⟨_, List.getLast?_eq_some_getLast hline⟩

omit [Scalar α] in
theorem getLast?_take_succ {points : Line α} {k : Nat} (hk : k < points.length) :
    (points.take (k + 1)).getLast? = points[k]? := by
  rw [List.take_add_one, List.getElem?_eq_getElem hk]
  exact List.getLast?_concat

theorem cut?_of_lt (l : Location α) {points : Line α} (hpoints : points.length < 2) :
    l.cut? points = none := by
  rw [cut?, if_pos hpoints]

/-- The cut is on segment `k`, the last one if the location is past it. Point `k` ends the first
part if it equals the point of the cut and is not the start of the line. -/
theorem cut?_of_le {l : Location α} {points : Line α} {p : Point α} {k : Nat}
    (hpoints : 2 ≤ points.length) (hk : min l.segment (points.length - 2) = k)
    (hp : l.point? points = some p) :
    l.cut? points = some
      (if 0 < k ∧ (points[k]? == some p) = true then points.take (k + 1)
        else points.take (k + 1) ++ [p],
        p :: points.drop (k + 1)) := by
  rw [cut?, if_neg (by omega), hp, Option.map_some, hk]
  simp only [getLast?_take_succ (show k < points.length by omega)]
  by_cases hkeep : 0 < k ∧ (points[k]? == some p) = true
  · have hkeep' : (decide (k + 1 < 2) || !(points[k]? == some p)) = false := by
      rw [hkeep.2, Bool.not_true, Bool.or_false, decide_eq_false_iff_not]
      omega
    rw [if_pos hkeep, hkeep', if_neg Bool.false_ne_true]
  · have hadd : (decide (k + 1 < 2) || !(points[k]? == some p)) = true := by
      rw [Bool.or_eq_true, decide_eq_true_iff, Bool.not_eq_true', ← Bool.not_eq_true]
      by_cases hzero : 0 < k
      · exact Or.inr fun hsame => hkeep ⟨hzero, hsame⟩
      · exact Or.inl (by omega)
    rw [if_neg hkeep, if_pos hadd]

theorem exists_cut? (l : Location α) {points : Line α} (hpoints : 2 ≤ points.length) :
    ∃ p first second, l.point? points = some p ∧ l.cut? points = some (first, second) := by
  have hne : points ≠ [] := List.ne_nil_of_length_pos (by omega)
  obtain ⟨p, hp⟩ := l.exists_point? hne
  exact ⟨p, _, _, hp, cut?_of_le hpoints rfl hp⟩

theorem le_length_of_cut? {l : Location α} {points : Line α} {parts : Line α × Line α}
    (hcut : l.cut? points = some parts) : 2 ≤ points.length := by
  by_contra hshort
  rw [l.cut?_of_lt (by omega)] at hcut
  cases hcut

theorem joins_of_cut? {l : Location α} {points first second : Line α} {p : Point α}
    (hcut : l.cut? points = some (first, second)) (hp : l.point? points = some p) :
    2 ≤ first.length ∧ 2 ≤ second.length ∧ Joins p first second points := by
  have hpoints := le_length_of_cut? hcut
  generalize hk : min l.segment (points.length - 2) = k
  have hlt : k + 1 < points.length := by omega
  rw [cut?_of_le hpoints hk hp, Option.some_inj, Prod.mk.injEq] at hcut
  obtain ⟨rfl, rfl⟩ := hcut
  have htake : (points.take (k + 1)).length = k + 1 := List.length_take_of_le (by omega)
  have hafter : points.drop (k + 1) ≠ [] := by
    rw [ne_eq, List.drop_eq_nil_iff]
    omega
  have hsecond : 2 ≤ (p :: points.drop (k + 1)).length := by
    rw [List.length_cons, List.length_drop]
    omega
  have hwhole : points = points.take (k + 1) ++ points.drop (k + 1) :=
    (List.take_append_drop (k + 1) points).symm
  split
  · next hkeep =>
    obtain ⟨hpos, hsame⟩ := hkeep
    refine ⟨by omega, hsecond, _, _, hwhole, rfl, hafter, Or.inr ⟨rfl, ?_⟩⟩
    rw [getLast?_take_succ (by omega)]
    cases hq : points[k]? with
    | none => simp [hq] at hsame
    | some q => exact ⟨q, rfl, by simpa [hq] using hsame⟩
  · refine ⟨?_, hsecond, _, _, hwhole, rfl, hafter, Or.inl rfl⟩
    rw [List.length_append, htake, List.length_singleton]
    omega

/-- A line can be cut just if it has two points. The parts have two points each; the first one is
the points up to the segment of the cut and the point of the cut, which is left out only where a
point that equals it is there already, and the second one is the point of the cut and the remaining
points. So they meet there, begin and end as the line does, and give it back without the cut. -/
theorem cut_keeps_line (l : Location α) (points : Line α) :
    (l.cut? points = none ↔ points.length < 2) ∧
    (2 ≤ points.length →
      let k := min l.segment (points.length - 2)
      ∃ s first second, l.point? points = some s ∧ l.cut? points = some (first, second) ∧
        2 ≤ first.length ∧ 2 ≤ second.length ∧
        first = (if 0 < k ∧ (points[k]? == some s) = true then points.take (k + 1)
          else points.take (k + 1) ++ [s]) ∧
        second = s :: points.drop (k + 1) ∧
        (∃ q, first.getLast? = some q ∧ (q = s ∨ (q == s) = true)) ∧ second.head? = some s ∧
        first.head? = points.head? ∧ second.getLast? = points.getLast? ∧
        first.take (k + 1) ++ second.drop 1 = points) := by
  refine ⟨⟨fun hnone => ?_, l.cut?_of_lt⟩, ?_⟩
  · by_contra hlong
    obtain ⟨p, first, second, -, hcut⟩ := l.exists_cut? (Nat.not_lt.1 hlong)
    rw [hnone] at hcut
    cases hcut
  · intro hpoints k
    obtain ⟨p, first, second, hp, hcut⟩ := l.exists_cut? hpoints
    obtain ⟨hfirst, hsecond, hjoins⟩ := joins_of_cut? hcut hp
    refine ⟨p, first, second, hp, hcut, hfirst, hsecond, ?_⟩
    have hparts := Option.some.inj (hcut.symm.trans (cut?_of_le hpoints rfl hp))
    rw [Prod.mk.injEq] at hparts
    have htake : (points.take (k + 1)).length = k + 1 := List.length_take_of_le (by omega)
    have hbefore : first.take (k + 1) = points.take (k + 1) := by
      rw [hparts.1]
      split
      · exact List.take_of_length_le (Nat.le_of_eq htake)
      · exact List.take_left' htake
    refine ⟨hparts.1, hparts.2, hjoins.getLast?, hjoins.head?,
      (hjoins.head?_whole hfirst).symm, hjoins.getLast?_whole.symm, ?_⟩
    rw [hbefore, hparts.2]
    exact List.take_append_drop (k + 1) points

/-- A cut at the middle point of a line of doubles does not repeat this point. -/
theorem cut_keeps_middle_point :
    let points : Line Float := [⟨0, 0⟩, ⟨1, 0⟩, ⟨2, 0⟩]
    2 ≤ points.length ∧
      (⟨1, 0⟩ : Location Float).cut? points = some ([⟨0, 0⟩, ⟨1, 0⟩], [⟨1, 0⟩, ⟨2, 0⟩]) := by
  intro points
  have hpoints : 2 ≤ points.length := by decide
  obtain ⟨s, first, second, hs, hcut, -, -, hfirst, hsecond, -⟩ :=
    (cut_keeps_line (⟨1, 0⟩ : Location Float) points).2 hpoints
  obtain rfl : s = ⟨1, 0⟩ := by
    have hs' : (⟨1, 0⟩ : Location Float).point? points = some ⟨1, 0⟩ := by decide
    exact Option.some.inj (hs.symm.trans hs')
  refine ⟨hpoints, ?_⟩
  rw [hcut, hfirst, hsecond]
  decide

end Location

end StreetLinking.Plane
