import StreetLinking.Proofs.Linking.BothWays
import StreetLinking.Proofs.Plane.Landing
/-!
# Cuts at the ends of an edge

A point snaps to the first point of an edge if it lies less than the snapping fraction from it, and
to the last one if it lies on it or less than that from it. Main statement: over exact numbers, a
cut leaves a half that is a single point in two cases only. One is a cut at the start of an edge if
nothing snaps at all, the other is a cut where an edge that ends in a repeated point gets to that
point. Both happen.
-/

namespace StreetLinking.Linking

open Number Plane Street Streets

theorem exists_suffix_of_isOnePoint_drop {α : Type} {line : Line α} {n : Nat}
    (hn : n + 2 ≤ line.length) (h : IsOnePoint (line.drop n)) : ∃ q, [q, q] <:+ line := by
  obtain ⟨q, hq⟩ := h
  refine ⟨q, ?_⟩
  have hlength : (line.drop (line.length - 2)).length = 2 := by
    rw [List.length_drop]
    omega
  obtain ⟨a, b, hends⟩ := List.length_eq_two.1 hlength
  have hsub : line.drop (line.length - 2) <:+ line.drop n := by
    have hnumber : line.length - 2 = n + (line.length - 2 - n) := by omega
    rw [hnumber, ← List.drop_drop]
    exact List.drop_suffix _ _
  obtain rfl := hq a (hsub.subset (by simp [hends]))
  obtain rfl := hq b (hsub.subset (by simp [hends]))
  rw [← hends]
  exact List.drop_suffix _ _

section Exact

variable {K : Type} [Field K] [LinearOrder K] [IsStrictOrderedRing K] [ExactNumbers K]

/-- Where a point is located on an edge, a first half that would be a single point is never cut off
as long as anything snaps, and a second half that would be one is not cut off from an edge that does
not end in a repeated point: the point attaches to the end of the edge instead. If it cuts the edge
nevertheless, nothing snaps and the cut is at the start, or the edge does not move from the cut
on. -/
theorem cut_off_at_ends (events : List (Event K)) {number : Nat} {e : Edge K}
    (hedge : (run .empty events).edge? number = some e) (frame : Frame K) (p : Point K) (snap : K) :
    let l := frame.locate p e.line
    let attachment := plan (run .empty events) number p frame snap
    ∃ first second, l.cut? e.line = some (first, second) ∧
      (IsOnePoint first → 0 < snap → attachment = .ok (.endpoint e.source)) ∧
      (IsOnePoint second → (¬ ∃ q, [q, q] <:+ e.line) → attachment = .ok (.endpoint e.target)) ∧
      (attachment = .ok (.cut l) →
        (IsOnePoint first ↔ l = ⟨0, 0⟩ ∧ ¬ 0 < snap) ∧
        (IsOnePoint second ↔ l.fraction = 0 ∧ l.segment + 2 ≤ e.line.length ∧
          IsOnePoint (e.line.drop l.segment))) := by
  intro l attachment
  have hsound : Sound (run .empty events) := (reached_run events).sound
  have hlong := hsound.lines e (hsound.edge?_eq_some_iff.1 hedge).1
  obtain ⟨i, a, b, t, hlands, hl⟩ := frame.exists_lands p hlong
  obtain ⟨-, first, second, -, hcut⟩ := l.exists_cut? hlong
  have hcut' : (Location.along i t).cut? e.line = some (first, second) := hl ▸ hcut
  have hfirst := hlands.isOnePoint_first_iff hcut'
  have hsecond := hlands.isOnePoint_second_iff hcut'
  rw [← show l = Location.along i t from hl] at hfirst hsecond
  have hplan : attachment = if l.nearStart snap then .ok (.endpoint e.source)
      else if l.nearEnd e.line.length snap then .ok (.endpoint e.target) else .ok (.cut l) := by
    simp only [attachment, plan, hedge, l]
  have hstart : l = ⟨0, 0⟩ → (l.nearStart snap = true ↔ 0 < snap) := by
    intro h
    simp [h, Location.nearStart]
  have hsnaps : IsOnePoint first → 0 < snap → attachment = .ok (.endpoint e.source) := by
    intro hone hpositive
    rw [hplan, if_pos ((hstart (hfirst.1 hone)).2 hpositive)]
  have hend : attachment = .ok (.cut l) → l.segment + 2 ≤ e.line.length := by
    intro hcuts
    by_contra hlast
    have hnear : l.nearEnd e.line.length snap = true :=
      (Location.nearEnd_iff l e.line.length snap).2 (Or.inl (by omega))
    rw [hplan, hnear] at hcuts
    split at hcuts
    · cases hcuts
    · cases hcuts
  refine ⟨first, second, hcut, hsnaps, fun hone hmoves => ?_, fun hcuts => ⟨?_, ?_⟩⟩
  · obtain ⟨-, hrest⟩ := hsecond.1 hone
    have hlast : e.line.length ≤ l.segment + 1 := by
      by_contra hinner
      exact hmoves (exists_suffix_of_isOnePoint_drop (by omega) hrest)
    have hfar : l.nearStart snap = false := by
      have hsegment : l.segment ≠ 0 := by omega
      simp [Location.nearStart, hsegment]
    have hnear : l.nearEnd e.line.length snap = true :=
      (Location.nearEnd_iff l e.line.length snap).2 (Or.inl hlast)
    rw [hplan, hfar, hnear]
    rfl
  · rw [hfirst]
    refine ⟨fun hzero => ⟨hzero, fun hpositive => ?_⟩, And.left⟩
    cases hcuts.symm.trans (hsnaps (hfirst.2 hzero) hpositive)
  · rw [hsecond]
    exact ⟨fun h => ⟨h.1, hend hcuts, h.2⟩, fun h => ⟨h.1, h.2.2⟩⟩

end Exact

/-! ## Ends that are cut off -/

theorem validate_endpointSnap {snap : Float} (hlow : 0.0 ≤ snap) (hhigh : snap < 0.5) :
    ({ endpointSnap := snap } : Settings).validate = .ok () := by
  have hradius : ((1000.0 : Float).isFinite && decide ((0.0 : Float) < 1000.0)) = true := by
    decide +kernel
  have hway : ((0.001 : Float).isFinite && decide ((0.0 : Float) < 0.001)) = true := by
    decide +kernel
  have hwarning : ((20.0 : Float).isNaN || decide ((20.0 : Float) < 0.0)) = false := by
    decide +kernel
  simp only [Settings.validate, hradius, hway, hwarning, hlow, hhigh, decide_true, Bool.and_self,
    Bool.not_true, Bool.false_eq_true, if_false]

def northward {α : Type} (south north : Point α) (line : Line α) : List (Event α) :=
  [.add (.intersection south none), .add (.intersection north none),
    .add (.street 0 1 (some line) .all "Meridian")]

theorem cut_off_at_ends_on_the_meridian :
    let street : List (Event ℚ) := northward ⟨0, 0⟩ ⟨0, 1⟩ [⟨0, 0⟩, ⟨0, 1⟩, ⟨0, 1⟩]
    ∃ e, (run .empty street).edge? 0 = some e ∧
      plan (run .empty street) 0 ⟨0, 0⟩ ⟨1⟩ (1 / 100) = .ok (.endpoint e.source) := by
  intro street
  obtain ⟨e, hedge, hline⟩ : ∃ e, (run .empty street).edge? 0 = some e ∧
      e.line = [⟨0, 0⟩, ⟨0, 1⟩, ⟨0, 1⟩] := ⟨_, rfl, rfl⟩
  obtain ⟨first, second, hcut, hsnaps, -⟩ :=
    cut_off_at_ends street hedge ⟨1⟩ ⟨0, 0⟩ (1 / 100)
  have hparts : (Frame.locate ⟨1⟩ ⟨0, 0⟩ e.line).cut? e.line =
      some ([⟨0, 0⟩, ⟨0, 0⟩], [⟨0, 0⟩, ⟨0, 1⟩, ⟨0, 1⟩]) := by
    rw [hline]
    decide +kernel
  obtain ⟨rfl, rfl⟩ : [⟨0, 0⟩, ⟨0, 0⟩] = first ∧ [⟨0, 0⟩, ⟨0, 1⟩, ⟨0, 1⟩] = second := by
    simpa using hparts.symm.trans hcut
  exact ⟨e, hedge, hsnaps ⟨⟨0, 0⟩, by simp⟩ (by decide +kernel)⟩

/-- Two settings that are in order and two streets that are cut at an end. One street has its last
point twice, and a point on it cuts off a half from there to there. The other is a plain street from
which a point on its first point cuts off such a half, as nothing snaps. -/
theorem end_is_cut_off :
    let snapping : Settings := {}
    let exact : Settings := { endpointSnap := 0.0 }
    let doubled : Line Float := [⟨0.0, 0.0⟩, ⟨0.0, 1.0⟩, ⟨0.0, 1.0⟩]
    let straight : Line Float := [⟨0.0, 0.0⟩, ⟨0.0, 1.0⟩]
    let cutsOff (settings : Settings) (line : Line Float) (p : Point Float)
        (isCutOff : Line Float × Line Float → Prop) : Prop :=
      let g := run .empty (northward ⟨0.0, 0.0⟩ ⟨0.0, 1.0⟩ line)
      settings.validate = .ok () ∧ ∃ e l parts, g.edge? 0 = some e ∧ e.line = line ∧
        plan g 0 p (Frame.around p) (Scalar.ofDouble settings.endpointSnap) = .ok (.cut l) ∧
        l.cut? line = some parts ∧ isCutOff parts
    cutsOff snapping doubled ⟨0.0, 1.0⟩ (fun parts => IsOnePoint parts.2) ∧
      cutsOff exact straight ⟨0.0, 0.0⟩ (fun parts => IsOnePoint parts.1) := by
  intro snapping exact doubled straight cutsOff
  constructor
  · refine ⟨validate_endpointSnap (by decide) (by decide), _, ⟨1, 0.0⟩,
      (_, [⟨0.0, 1.0⟩, ⟨0.0, 1.0⟩]), rfl, rfl, ?_, rfl, ⟨0.0, 1.0⟩, by simp⟩
    rw [plan_on_meridian (l := ⟨1, 0.0⟩) rfl rfl (by decide) (by decide +kernel)]
    exact (if_neg (by decide)).trans (if_neg (by decide))
  · refine ⟨validate_endpointSnap (by decide) (by decide), _, ⟨0, 0.0⟩,
      ([⟨0.0, 0.0⟩, ⟨0.0, 0.0⟩], _), rfl, rfl, ?_, rfl, ⟨0.0, 0.0⟩, by simp⟩
    rw [plan_on_meridian (l := ⟨0, 0.0⟩) rfl rfl (by decide) (by decide +kernel)]
    exact (if_neg (by decide)).trans (if_neg (by decide))

end StreetLinking.Linking
