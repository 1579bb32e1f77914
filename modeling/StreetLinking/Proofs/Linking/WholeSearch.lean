import StreetLinking.Proofs.Linking.BothWays
import StreetLinking.Proofs.Linking.StopIndex
import StreetLinking.Proofs.Nearest.Chains
import StreetLinking.Proofs.Plane.SearchBoxes
/-!
# Searching without an index

A search looks only at what has a box that meets the search box. Main statement: over exact numbers
and within the radius, it finds what a search of the whole graph would find, in the same order. It
finds nothing just if there is nothing within the radius.
-/

namespace StreetLinking.Linking

open Number Plane Street Streets Nearest

def usableEdges {α : Type} (g : Streets α) (mode : Mode) : List (Edge α) :=
  g.edges.filter fun e => e.kind.isLinkable && e.allows (ModeSet.forLinking mode) &&
    g.edgeIndex.items.any fun entry => entry.number == e.number && entry.serial == e.serial

theorem mem_usableEdges {α : Type} {g : Streets α} {mode : Mode} {e : Edge α} :
    e ∈ usableEdges g mode ↔ e ∈ g.edges ∧ e.kind.isLinkable = true ∧
      e.allows (ModeSet.forLinking mode) = true ∧
      ∃ entry ∈ g.edgeIndex.items, entry.number = e.number ∧ entry.serial = e.serial := by
  simp only [usableEdges, List.mem_filter, Bool.and_eq_true, List.any_eq_true, beq_iff_eq,
    and_assoc]

variable {K : Type} [Field K] [LinearOrder K] [IsStrictOrderedRing K] [ExactNumbers K]

/-- A search box around a point in a frame whose longitudes have some width, and a limit of distance
that is below the one of lines without points and reaches no farther than the box. -/
structure Covers (search : Search K) (radius : K) : Prop where
  scale : 0 < search.frame.xScale
  limits : Frame.Limits search.radius radius
  near : search.radius < Scalar.far
  box : search.box = search.frame.searchBox search.point radius

variable {g : Streets K} {search : Search K} {radius : K}

theorem Covers.meets (h : Covers search radius) (hindexed : Indexed g) {e : Edge K}
    (he : e ∈ g.edges) {entry : EdgeEntry K} (hentry : entry ∈ g.edgeIndex.items)
    (hserial : entry.serial = e.serial)
    (hnear : search.frame.distanceToLine search.point e.line ≤ search.radius) :
    Box.around? e.line = some entry.box ∧ entry.box.meets search.box = true := by
  obtain ⟨hbox, -, -⟩ := entry?_eq_some_iff.1 (hindexed.agrees entry hentry e he hserial)
  rw [h.box]
  exact ⟨hbox, Frame.meets_searchBox h.scale h.limits h.near hbox hnear⟩

theorem Covers.perm_candidates (h : Covers search radius) (hsound : Sound g)
    (hindexed : Indexed g) (mode : Mode) :
    candidates g search mode ⊆ usableEdges g mode ∧
    ((candidates g search mode).filter fun e =>
        decide (search.frame.distanceToLine search.point e.line ≤ search.radius)).Perm
      ((usableEdges g mode).filter fun e =>
        decide (search.frame.distanceToLine search.point e.line ≤ search.radius)) := by
  obtain ⟨hnodup, hcandidates⟩ := candidates_spec hsound hindexed mode
    (.of_eq (BoxIndex.search_of_isDefined search.box fun entry _ => entry.box.isDefined_exact))
  have hsub : candidates g search mode ⊆ usableEdges g mode := by
    intro e he
    obtain ⟨hlive, hlinkable, hallows, entry, hentry, hnumber, hserial, -⟩ := (hcandidates e).1 he
    exact mem_usableEdges.2 ⟨hlive, hlinkable, hallows, entry, hentry, hnumber, hserial⟩
  have hedges : g.edges.Nodup := hsound.nodup_serials.of_map _
  have husable : (usableEdges g mode).Nodup := hedges.filter _
  refine ⟨hsub, (List.perm_ext_iff_of_nodup (hnodup.filter _) (husable.filter _)).2 fun e => ?_⟩
  simp only [List.mem_filter, decide_eq_true_eq]
  refine and_congr_left fun hnear => ⟨fun he => hsub he, fun he => ?_⟩
  obtain ⟨hlive, hlinkable, hallows, entry, hentry, hnumber, hserial⟩ := mem_usableEdges.1 he
  exact (hcandidates e).2 ⟨hlive, hlinkable, hallows, entry, hentry, hnumber, hserial,
    (h.meets hindexed hlive hentry hserial hnear).2⟩

theorem Covers.perm_stops (h : Covers search radius) (hstops : StopsIndexed g) :
    g.stopsIn search.box ⊆ stopEntries g ∧
    ((g.stopsIn search.box).filter fun s =>
        decide (search.frame.distance search.point s.position ≤ search.radius)).Perm
      ((stopEntries g).filter fun s =>
        decide (search.frame.distance search.point s.position ≤ search.radius)) := by
  have hfound : g.stopsIn search.box =
      (stopEntries g).reverse.filter fun s => s.box.meets search.box := by
    rw [stopsIn, BoxIndex.search_of_isDefined search.box fun s _ => s.box.isDefined_exact, hstops]
  rw [hfound]
  constructor
  · intro s hs
    exact List.mem_reverse.1 (List.mem_filter.1 hs).1
  · rw [List.filter_filter]
    have hmeets : ((stopEntries g).reverse.filter fun s =>
        decide (search.frame.distance search.point s.position ≤ search.radius) &&
          s.box.meets search.box) =
        (stopEntries g).reverse.filter fun s =>
          decide (search.frame.distance search.point s.position ≤ search.radius) := by
      apply List.filter_congr
      intro s _
      rw [Bool.and_eq_left_iff_imp, decide_eq_true_eq, h.box]
      exact Frame.meets_searchBox_of_distance h.scale h.limits
    rw [hmeets]
    exact (List.reverse_perm _).filter _

/-- Over exact numbers the index hides nothing that lies within the radius of a search. Every edge
of a graph that is in the index and no farther from the point than the radius has a box that meets
the search box. So the nearest edges within the radius are those that are found by ranking all
usable edges of the graph, in the same order, and none are found just if none lies within the
radius; and so it is with the stops. -/
theorem search_hides_nothing (events : List (Event K)) (point : Point K) (frame : Frame K)
    (radius limit gap : K) (mode : Mode) (hscale : 0 < frame.xScale)
    (hlimits : Frame.Limits limit radius) (hfar : limit < Scalar.far) :
    let g := run .empty events
    let search : Search K := ⟨point, frame, limit, frame.searchBox point radius⟩
    let toEdge (e : Edge K) : K := frame.distanceToLine point e.line
    let toStop (s : StopEntry K) : K := frame.distance point s.position
    (∀ e ∈ g.edges, e.kind.isLinkable = true → e.allows (ModeSet.forLinking mode) = true →
      ∀ entry ∈ g.edgeIndex.items, entry.number = e.number → entry.serial = e.serial →
      toEdge e ≤ limit →
        Box.around? e.line = some entry.box ∧ entry.box.meets search.box = true) ∧
    ((nearestEdges g search mode gap).filter (fun r => decide (r.distance ≤ limit)) =
        (nearest toEdge (·.serial) gap (usableEdges g mode)).filter
          (fun r => decide (r.distance ≤ limit)) ∧
      (nearestEdges g search mode gap = [] ↔ ∀ e ∈ usableEdges g mode, limit < toEdge e)) ∧
    (nearestStops g search gap).filter (fun r => decide (r.distance ≤ limit)) =
        (nearest toStop (·.vertex) gap (stopEntries g)).filter
          (fun r => decide (r.distance ≤ limit)) ∧
      (nearestStops g search gap = [] ↔ ∀ s ∈ stopEntries g, limit < toStop s) := by
  intro g search toEdge toStop
  obtain ⟨hsound, hindexed, -⟩ := reached_run events
  have hcovers : Covers search radius := ⟨hscale, hlimits, hfar, rfl⟩
  refine ⟨fun e he _ _ entry hentry _ hserial hnear => ?_, ?_, ?_⟩
  · exact hcovers.meets hindexed he hentry hserial hnear
  · obtain ⟨hsub, hperm⟩ := hcovers.perm_candidates hsound hindexed mode
    refine withinRadius_nearest (fun d hd e he hserial => ?_) hsub hperm
    exact hsound.serial_inj (mem_usableEdges.1 hd).1 (mem_usableEdges.1 he).1 hserial
  · obtain ⟨hsub, hperm⟩ := hcovers.perm_stops (stopsIndexed_run events)
    refine withinRadius_nearest (fun s hs t ht hvertex => ?_) hsub hperm
    exact List.inj_on_of_nodup_map (nodup_stopEntries g) hs ht hvertex

def diagonalStreet : List (Event ℚ) :=
  [.add (.intersection ⟨0, 0⟩ none), .add (.intersection ⟨4, 4⟩ none),
    .add (.twoWayStreet 0 1 none .all "Diagonal Road"),
    .add (.stop "S" "Diagonal Stop" ⟨3, 1⟩ false)]

theorem search_hides_nothing_beside_diagonalStreet :
    let g := run .empty diagonalStreet
    let search : Search ℚ := ⟨⟨3, 1⟩, ⟨1 / 2⟩, 1, Frame.searchBox ⟨1 / 2⟩ ⟨3, 1⟩ 1⟩
    (0 : ℚ) < 1 / 2 ∧ Frame.Limits (1 : ℚ) 1 ∧ (1 : ℚ) < Scalar.far ∧
    nearestEdges g search .walk (1 / 1000) ≠ [] ∧ nearestStops g search (1 / 1000) ≠ [] ∧
    (nearestEdges g search .walk (1 / 1000)).filter (fun r => decide (r.distance ≤ 1)) =
      (nearest (fun e => Frame.distanceToLine ⟨1 / 2⟩ ⟨3, 1⟩ e.line) (·.serial) (1 / 1000)
        (usableEdges g .walk)).filter fun r => decide (r.distance ≤ 1) := by
  intro g search
  have hscale : (0 : ℚ) < 1 / 2 := by decide +kernel
  have hlimits : Frame.Limits (1 : ℚ) 1 := fun x y hnear => hnear.trans_eq (mul_one 1).symm
  have hfar : (1 : ℚ) < Scalar.far := by decide +kernel
  obtain ⟨-, ⟨hsame, hnone⟩, -, hnoStop⟩ := search_hides_nothing diagonalStreet ⟨3, 1⟩ ⟨1 / 2⟩ 1 1
    (1 / 1000) .walk hscale hlimits hfar
  have hedge : ∃ e ∈ usableEdges g .walk,
      ¬ 1 < Frame.distanceToLine (⟨1 / 2⟩ : Frame ℚ) ⟨3, 1⟩ e.line := by decide +kernel
  have hstop : ∃ s ∈ stopEntries g,
      ¬ 1 < Frame.distance (⟨1 / 2⟩ : Frame ℚ) ⟨3, 1⟩ s.position := by decide +kernel
  refine ⟨hscale, hlimits, hfar, fun hempty => ?_, fun hempty => ?_, hsame⟩
  · obtain ⟨e, he, hnear⟩ := hedge
    exact hnear (hnone.1 hempty e he)
  · obtain ⟨s, hs, hnear⟩ := hstop
    exact hnear (hnoStop.1 hempty s hs)

end StreetLinking.Linking
