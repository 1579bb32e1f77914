import StreetLinking.Proofs.Plane.Reversal
import StreetLinking.Proofs.Linking.TrivialPaths
import StreetLinking.Proofs.Linking.Twins
/-!
# Both directions of a street

The two edges of a two-way street have one line, each from its own end, and a point attaches to each
of them on its own. Main statement: in exact numbers a point that the street passes only once
attaches to both edges at one place, and the halves of both have the same lengths. In doubles, or
where a street passes a point twice, the two places may differ.
-/

namespace StreetLinking.Linking

open Number Plane Street Streets Nearest

/-! ## Attaching to both edges -/

section Exact

variable {K : Type} [Field K] [LinearOrder K] [ExactNumbers K]

/-- The halves of the two edges of a street that are cut at one point. What lies behind the cut on
one edge is what lies before it on the other, from the other end. Only where the line rests at the
point, the part behind the cut keeps the repetitions. -/
structure Matching (q : Point K) (forward back : Halves K) : Prop where
  forwardPoint : forward.point = q
  backPoint : back.point = q
  lines : ∃ k, forward.second.line = List.replicate k q ++ back.first.line.reverse ∧
    back.second.line = List.replicate k q ++ forward.first.line.reverse
  lengths : Measured forward → LengthsAlike forward back

variable [IsStrictOrderedRing K] {g : Streets K} {number : Nat} {e : Edge K} {p q : Point K}
  {frame : Frame K} {i : Nat} {t snap : K}

theorem plan_of_place (hedge : g.edge? number = some e)
    (hlocate : frame.locate p e.line = Location.along i t) (hplace : Place e.line q i t)
    (hpositive : 0 < snap) (hsnap : snap < 1) :
    plan g number p frame snap =
      if i = 0 ∧ t < snap then .ok (.endpoint e.source)
      else if i + 2 = e.line.length ∧ 1 - snap < t then .ok (.endpoint e.target)
      else .ok (.cut (Location.along i t)) := by
  unfold plan
  rw [hedge]
  simp only [hlocate, Location.nearStart_along hplace.low hplace.high hsnap,
    Location.nearEnd_along hplace.lt_length hplace.low hplace.high hpositive hsnap]

omit [IsStrictOrderedRing K] in
theorem halve_of_place (hedge : g.edge? number = some e) (hplace : Place e.line q i t)
    (hstart : 0 < t) (hend : i + 2 = e.line.length → t < 1) :
    ∃ h, halve g number (Location.along i t) = .ok h ∧ h.parent = e ∧ h.point = q ∧
      h.first.line = e.line.take (i + 1) ++ [q] ∧
      h.second.line =
        (if t < 1 then q :: e.line.drop (i + 1) else e.line.drop (i + 1)) := by
  unfold halve
  rw [hedge]
  simp only [hplace.point?, hplace.cut? hstart hend]
  exact ⟨_, rfl, rfl, rfl, rfl, rfl⟩

theorem inner_of_place {points : Line K} (hplace : Place points q i t) (hpositive : 0 < snap)
    (hstart : ¬ (i = 0 ∧ t < snap)) (hend : ¬ (i + 2 = points.length ∧ 1 - snap < t)) :
    0 < t ∧ (i + 2 = points.length → t < 1) := by
  constructor
  · by_cases hi : i = 0
    · exact hpositive.trans_le (not_lt.1 fun hlt => hstart ⟨hi, hlt⟩)
    · exact hplace.first (Nat.pos_of_ne_zero hi)
  · intro hlast
    have hle : t ≤ 1 - snap := not_lt.1 fun hlt => hend ⟨hlast, hlt⟩
    exact hle.trans_lt (sub_lt_self 1 hpositive)

namespace Twins

variable {forward back : Edge K} {g₁ g₂ : Streets K} {m n j : Nat} {u : K}

omit [IsStrictOrderedRing K] in
theorem place_back (htwins : Twins forward back) (hopposite : Opposite forward.line q i t j u) :
    Place back.line q j u := by
  rw [htwins.line]
  exact hopposite.back

theorem matching (htwins : Twins forward back) (hforward : g₁.edge? m = some forward)
    (hback : g₂.edge? n = some back) (hopposite : Opposite forward.line q i t j u)
    (hfront : 0 < t ∧ (i + 2 = forward.line.length → t < 1))
    (hrear : 0 < u ∧ (j + 2 = forward.line.length → u < 1)) :
    ∃ h₁ h₂, halve g₁ m (Location.along i t) = .ok h₁ ∧ halve g₂ n (Location.along j u) = .ok h₂ ∧
      Matching q h₁ h₂ := by
  have hplace := htwins.place_back hopposite
  obtain ⟨h₁, hhalve₁, rfl, hpoint₁, hfirst₁, hsecond₁⟩ :=
    halve_of_place hforward hopposite.front hfront.1 hfront.2
  obtain ⟨h₂, hhalve₂, rfl, hpoint₂, hfirst₂, hsecond₂⟩ :=
    halve_of_place hback hplace hrear.1 (by rw [htwins.length_back]; exact hrear.2)
  obtain ⟨k, hk⟩ : ∃ k, k = h₁.parent.line.length - i - j - 3 := ⟨_, rfl⟩
  have hsecond : h₁.second.line = List.replicate k q ++ h₂.first.line.reverse := by
    rw [hsecond₁, hfirst₂, htwins.line, hk]
    exact hopposite.rest_eq hrear.1
  have hsecond' : h₂.second.line = List.replicate k q ++ h₁.first.line.reverse := by
    have hrest := hopposite.reverse.rest_eq hfront.1
    have hcount : h₁.parent.line.length - j - i - 3 = k := by omega
    rw [List.reverse_reverse, List.length_reverse, hcount] at hrest
    rw [hsecond₂, hfirst₁, htwins.line]
    exact hrest
  have hopposed : Opposed h₁ h₂ := by
    constructor
    · rw [hsecond', hfirst₁]
      exact retraces_of_resting k q _
    · rw [hsecond, hfirst₂]
      exact retraces_of_resting k q _
  exact ⟨h₁, h₂, hhalve₁, hhalve₂, hpoint₁, hpoint₂, ⟨k, hsecond, hsecond'⟩,
    htwins.lengthsAlike (cuts_of_halve hhalve₁) (cuts_of_halve hhalve₂) hopposed⟩

/-- A point that is located at opposite places of both edges snaps to one vertex or cuts both. -/
theorem attach (htwins : Twins forward back) (hforward : g₁.edge? m = some forward)
    (hback : g₂.edge? n = some back)
    (hlocate₁ : frame.locate p forward.line = Location.along i t)
    (hlocate₂ : frame.locate p forward.line.reverse = Location.along j u)
    (hopposite : Opposite forward.line q i t j u) (hpositive : 0 < snap) (hsnap : snap < 1 / 2) :
    (∃ v, (v = forward.source ∨ v = forward.target) ∧
      plan g₁ m p frame snap = .ok (.endpoint v) ∧ plan g₂ n p frame snap = .ok (.endpoint v)) ∨
    ∃ l₁ l₂ h₁ h₂, plan g₁ m p frame snap = .ok (.cut l₁) ∧
      plan g₂ n p frame snap = .ok (.cut l₂) ∧
      halve g₁ m l₁ = .ok h₁ ∧ halve g₂ n l₂ = .ok h₂ ∧ Matching q h₁ h₂ := by
  have hone : snap < 1 := by linarith
  rw [← htwins.line] at hlocate₂
  have hplace := htwins.place_back hopposite
  have hstart := hopposite.nearStart_iff hone
  have hend := hopposite.reverse.nearStart_iff hone
  rw [List.length_reverse] at hend
  rw [plan_of_place hforward hlocate₁ hopposite.front hpositive hone,
    plan_of_place hback hlocate₂ hplace hpositive hone, htwins.length_back, htwins.source,
    htwins.target]
  by_cases hs : i = 0 ∧ t < snap
  · have hnot : ¬ (j = 0 ∧ u < snap) := by
      intro hboth
      have hfar := (hend.1 hboth).2
      linarith [hs.2]
    exact Or.inl ⟨forward.source, Or.inl rfl, if_pos hs,
      (if_neg hnot).trans (if_pos (hstart.1 hs))⟩
  · by_cases he : i + 2 = forward.line.length ∧ 1 - snap < t
    · exact Or.inl ⟨forward.target, Or.inr rfl, (if_neg hs).trans (if_pos he), if_pos (hend.2 he)⟩
    · have hs' : ¬ (j = 0 ∧ u < snap) := fun h => he (hend.1 h)
      have he' : ¬ (j + 2 = forward.line.length ∧ 1 - snap < u) := fun h => hs (hstart.2 h)
      have hrear := inner_of_place hplace hpositive hs' (by rwa [htwins.length_back])
      rw [htwins.length_back] at hrear
      obtain ⟨h₁, h₂, hhalve₁, hhalve₂, hmatching⟩ := htwins.matching hforward hback hopposite
        (inner_of_place hopposite.front hpositive hs he) hrear
      exact Or.inr ⟨_, _, h₁, h₂, (if_neg hs).trans (if_neg he), (if_neg hs').trans (if_neg he'),
        hhalve₁, hhalve₂, hmatching⟩

end Twins

/-- A point attaches to both edges of a street at one place: it snaps to one end vertex, or it cuts
both edges at one point, whatever else has become of the graph by then. -/
def AttachesOnce (forward back : Edge K) (frame : Frame K) (p q : Point K) (snap : K) : Prop :=
  ∀ (g₁ g₂ : Streets K) (m n : Nat), g₁.edge? m = some forward → g₂.edge? n = some back →
    (∃ v, (v = forward.source ∨ v = forward.target) ∧
      plan g₁ m p frame snap = .ok (.endpoint v) ∧ plan g₂ n p frame snap = .ok (.endpoint v)) ∨
    ∃ l₁ l₂ h₁ h₂, plan g₁ m p frame snap = .ok (.cut l₁) ∧
      plan g₂ n p frame snap = .ok (.cut l₂) ∧
      halve g₁ m l₁ = .ok h₁ ∧ halve g₂ n l₂ = .ok h₂ ∧ Matching q h₁ h₂

theorem Twins.attachesOnce {forward back : Edge K} (h : Twins forward back) (hpositive : 0 < snap)
    (hsnap : snap < 1 / 2) (hnear : frame.distanceToLine p forward.line < Scalar.far)
    (hpasses : frame.PassesOnce p forward.line q) : AttachesOnce forward back frame p q snap := by
  intro g₁ g₂ m n hlive₁ hlive₂
  obtain ⟨i, t, j, u, hlocate₁, hlocate₂, hopposite⟩ := hpasses.exists_opposite h.long hnear
  exact h.attach hlive₁ hlive₂ hlocate₁ hlocate₂ hopposite hpositive hsnap

end Exact

/-- The two edges of a two-way street are equally long, but for a millimetre, and where both are cut
at one place, so are the halves over the same part of the street. In exact numbers a point that the
street passes only once attaches to both edges at one place. -/
theorem attached_at_one_place :
    (∀ {α : Type} [Scalar α] (events : List (Event α)) (source target : Nat)
      (given : Option (Line α)) (permission : ModeSet) (name : String) (m n : Nat) (g : Streets α),
      (run .empty events).addTwoWayStreet source target given permission name = .ok (m, n) g →
      ∃ forward back, g.edge? m = some forward ∧ g.edge? n = some back ∧
        (run .empty events).streetLine source target given = .ok forward.line ∧
        CutAlike forward back) ∧
    ∀ {K : Type} [Field K] [LinearOrder K] [ExactNumbers K] [IsStrictOrderedRing K]
      (events : List (Event K)) (source target : Nat) (given : Option (Line K))
      (permission : ModeSet) (name : String) (m n : Nat) (g : Streets K),
      (run .empty events).addTwoWayStreet source target given permission name = .ok (m, n) g →
      ∃ forward back, g.edge? m = some forward ∧ g.edge? n = some back ∧
        forward.source = source ∧ forward.target = target ∧
        (run .empty events).streetLine source target given = .ok forward.line ∧
        ∀ (frame : Frame K) (p q : Point K) (snap : K), 0 < snap → snap < 1 / 2 →
          frame.distanceToLine p forward.line < Scalar.far → frame.PassesOnce p forward.line q →
          AttachesOnce forward back frame p q snap := by
  constructor
  · intro α _ events source target given permission name m n g hadded
    obtain ⟨forward, back, hforward, hback, -, -, hline, htwins⟩ :=
      exists_twins (reached_run events).sound hadded
    exact ⟨forward, back, hforward, hback, hline, htwins.cutAlike⟩
  · intro K _ _ _ _ events source target given permission name m n g hadded
    obtain ⟨forward, back, hforward, hback, hsource, htarget, hline, htwins⟩ :=
      exists_twins (reached_run events).sound hadded
    refine ⟨forward, back, hforward, hback, hsource, htarget, hline, ?_⟩
    intro frame p q snap hpositive hsnap hnear hpasses
    exact htwins.attachesOnce hpositive hsnap hnear hpasses

/-! ## Streets in doubles -/

/-- A street along the meridian of zero that leads from the equator to a latitude. -/
def meridianStreet (latitude : Float) (line : Line Float) : Outcome (Streets Float) (Nat × Nat) :=
  let corners : List (Addition Float) :=
    [.intersection ⟨0.0, 0.0⟩ none, .intersection ⟨0.0, latitude⟩ none]
  (build corners).addTwoWayStreet 0 1 (some line) .all "Meridian"

def meridianStreetEdge (line : Line Float) (back : Bool) : Edge Float :=
  { EdgeData.measured .street line .all "Meridian" back with
      number := back.toNat, serial := back.toNat + 1
      source := back.toNat, target := (!back).toNat }

/-- To the north, back to the equator, and on to the south. -/
def foldedLine : Line Float :=
  [⟨0.0, 0.0⟩, ⟨0.0, 1.0⟩, ⟨0.0, 0.0⟩, ⟨0.0, -1.0⟩]

def foldedStreet : Streets Float :=
  (meridianStreet (-1.0) foldedLine).state

def straightLine : Line Float :=
  [⟨0.0, 0.0⟩, ⟨0.0, 1.0⟩]

def straightStreet : Streets Float :=
  (meridianStreet 1.0 straightLine).state

/-- The last point to the north of the equator that snaps to it on the way north. -/
def lastToSnap : Point Float :=
  ⟨0.0, .ofBits 0x3E45798EE2308C39⟩

theorem project_on_meridian (center : Point Float) {q : Point Float} (hq : q.x = 0.0) :
    (Frame.around center).project q = Frame.project ⟨1.0⟩ q := by
  obtain ⟨x, y⟩ := q
  obtain rfl : x = 0.0 := hq
  have hscaled : (0.0 : Float) * 1.0 = 0.0 := by decide
  rw [project_around_of_meridian center rfl]
  simp only [Frame.project, hscaled]

def Meridional (line : Line Float) : Prop :=
  2 ≤ line.length ∧ ∀ s ∈ segments line, s.1.x = 0.0 ∧ s.2.x = 0.0

instance (line : Line Float) : Decidable (Meridional line) :=
  inferInstanceAs (Decidable (_ ∧ _))

theorem locate_on_meridian {p : Point Float} {line : Line Float} (hp : p.x = 0.0)
    (hline : Meridional line) : (Frame.around p).locate p line = Frame.locate ⟨1.0⟩ p line := by
  have hsegments : (segments line).map (fun s => ((Frame.around p).project s.1,
      (Frame.around p).project s.2)) =
      (segments line).map fun s => (Frame.project ⟨1.0⟩ s.1, Frame.project ⟨1.0⟩ s.2) := by
    apply List.map_congr_left
    intro s hs
    obtain ⟨hfirst, hsecond⟩ := hline.2 s hs
    rw [project_on_meridian p hfirst, project_on_meridian p hsecond]
  unfold Frame.locate
  rw [hsegments, project_on_meridian p hp]

theorem distanceToLine_on_meridian {p : Point Float} {line : Line Float} (hp : p.x = 0.0)
    (hline : Meridional line) :
    (Frame.around p).distanceToLine p line = Frame.distanceToLine ⟨1.0⟩ p line := by
  have hdistances : (Frame.around p).segmentDistances p line =
      Frame.segmentDistances ⟨1.0⟩ p line := by
    apply List.map_congr_left
    intro s hs
    obtain ⟨hfirst, hsecond⟩ := hline.2 s hs
    rw [project_on_meridian p hfirst, project_on_meridian p hsecond, project_on_meridian p hp]
  have hlong := hline.1
  unfold Frame.distanceToLine
  split
  · rfl
  · simp at hlong
  · rw [hdistances]

theorem plan_on_meridian {g : Streets Float} {number : Nat} {e : Edge Float} {p : Point Float}
    {l : Location Float} (hedge : g.edge? number = some e) (hp : p.x = 0.0)
    (hline : Meridional e.line) (hlocate : Frame.locate ⟨1.0⟩ p e.line = l) (snap : Float) :
    plan g number p (Frame.around p) snap =
      if l.nearStart snap then .ok (.endpoint e.source)
      else if l.nearEnd e.line.length snap then .ok (.endpoint e.target)
      else .ok (.cut l) := by
  simp only [plan, hedge, locate_on_meridian hp hline, hlocate]

theorem mergeSort_swapped {β : Type} {le : β → β → Bool} {a b : β} (h : le b a = false) :
    [b, a].mergeSort le = [a, b] := by
  simp [List.mergeSort, List.MergeSort.Internal.splitInTwo, h]

theorem targets_of_pair {g : Streets Float} {p : Point Float} {first second : Edge Float}
    {d : Float} (hp : p.x = 0.0) (hline : Meridional first.line ∧ Meridional second.line)
    (hcandidates : ∀ frame, candidates g { Search.within p ⟨1.0⟩ 0.0 with frame := frame } .walk =
      [second, first])
    (hnear : Frame.distanceToLine ⟨1.0⟩ p first.line = 0.0)
    (hback : Frame.distanceToLine ⟨1.0⟩ p second.line = d)
    (hdefined : Scalar.isUndefined d = false)
    (horder : ((Scalar.order d 0.0).then (compare second.serial first.serial)).isLE = false)
    (hgap : ¬ Scalar.ofDouble onTheSpot.duplicateWayDegrees ≤ d - 0.0) :
    targets onTheSpot g p .walk = [⟨first, 0.0⟩, ⟨second, d⟩] := by
  have ha := distanceToLine_on_meridian hp hline.1
  have hb := distanceToLine_on_meridian hp hline.2
  have hzero : Scalar.isUndefined (0.0 : Float) = false := by decide
  have hwithin : (0.0 : Float) ≤ 0.0 := by decide
  have hlater : notAfter (·.serial) (⟨second, d⟩ : Ranked Float (Edge Float)) ⟨first, 0.0⟩ =
      false := horder
  rw [targets, nearestEdges, search_onTheSpot, hcandidates]
  simp only [Search.within, nearest, rank, measured, List.map_cons, List.map_nil, ha, hb, hnear,
    hback]
  simp [hzero, hdefined, mergeSort_swapped hlater, chain, chainAfter, hgap, withinRadius, hwithin]

theorem targets_on_meridian {g : Streets Float} {p : Point Float} {line : Line Float} {d : Float}
    (hp : p.x = 0.0) (hline : Meridional line ∧ Meridional line.reverse)
    (hcandidates : ∀ frame, candidates g { Search.within p ⟨1.0⟩ 0.0 with frame := frame } .walk =
      [meridianStreetEdge line.reverse true, meridianStreetEdge line false])
    (hnear : Frame.distanceToLine ⟨1.0⟩ p line = 0.0)
    (hback : Frame.distanceToLine ⟨1.0⟩ p line.reverse = d)
    (hdefined : Scalar.isUndefined d = false)
    (horder : ((Scalar.order d 0.0).then (compare 2 1)).isLE = false)
    (hgap : ¬ Scalar.ofDouble onTheSpot.duplicateWayDegrees ≤ d - 0.0) :
    targets onTheSpot g p .walk =
      [⟨meridianStreetEdge line false, 0.0⟩, ⟨meridianStreetEdge line.reverse true, d⟩] :=
  targets_of_pair hp hline hcandidates hnear hback hdefined horder hgap

theorem candidates_foldedStreet (frame : Frame Float) :
    candidates foldedStreet { Search.within ⟨0.0, 0.0⟩ ⟨1.0⟩ 0.0 with frame := frame } .walk =
      [meridianStreetEdge foldedLine.reverse true, meridianStreetEdge foldedLine false] := by
  have hentries : foldedStreet.entriesIn (Search.within ⟨0.0, 0.0⟩ ⟨1.0⟩ 0.0).box =
      [⟨1, 2, ⟨0.0, -1.0, 0.0, 1.0⟩⟩, ⟨0, 1, ⟨0.0, -1.0, 0.0, 1.0⟩⟩] := by decide
  rw [candidates, hentries, attachedTo_eq]
  rfl

theorem candidates_straightStreet (frame : Frame Float) :
    candidates straightStreet { Search.within lastToSnap ⟨1.0⟩ 0.0 with frame := frame } .walk =
      [meridianStreetEdge straightLine.reverse true, meridianStreetEdge straightLine false] := by
  have hentries : straightStreet.entriesIn (Search.within lastToSnap ⟨1.0⟩ 0.0).box =
      [⟨1, 2, ⟨0.0, 0.0, 0.0, 1.0⟩⟩, ⟨0, 1, ⟨0.0, 0.0, 0.0, 1.0⟩⟩] := by decide
  rw [candidates, hentries, attachedTo_eq]
  rfl

theorem plan_foldedStreet :
    plan foldedStreet 0 ⟨0.0, 0.0⟩ (Frame.around ⟨0.0, 0.0⟩) 1e-8 = .ok (.endpoint 0) ∧
      plan foldedStreet 1 ⟨0.0, 0.0⟩ (Frame.around ⟨0.0, 0.0⟩) 1e-8 = .ok (.cut ⟨1, 0.0⟩) := by
  constructor
  · rw [plan_on_meridian (l := ⟨0, 0.0⟩) rfl rfl (by decide) (by decide +kernel)]
    exact if_pos (by decide)
  · rw [plan_on_meridian (l := ⟨1, 0.0⟩) rfl rfl (by decide) (by decide +kernel)]
    exact (if_neg (by decide)).trans (if_neg (by decide))

/-- Seen from the north, the fraction is rounded to where snapping begins. -/
theorem plan_straightStreet :
    plan straightStreet 0 lastToSnap (Frame.around lastToSnap) 1e-8 = .ok (.endpoint 0) ∧
      plan straightStreet 1 lastToSnap (Frame.around lastToSnap) 1e-8 =
        .ok (.cut ⟨0, 1.0 - 1e-8⟩) := by
  constructor
  · rw [plan_on_meridian (l := ⟨0, lastToSnap.y⟩) rfl rfl (by decide) (by decide +kernel)]
    exact if_pos (by decide)
  · rw [plan_on_meridian (l := ⟨0, 1.0 - 1e-8⟩) rfl rfl (by decide) (by decide +kernel)]
    exact (if_neg (by decide)).trans (if_neg (by decide))

/-- A point attaches to one end of both edges, or it cuts both of them. -/
def AttachesAlike (settings : Settings) (g : Streets Float) (m n : Nat) (p : Point Float) : Prop :=
  let plan (number : Nat) :=
    Linking.plan g number p (Frame.around p) (Scalar.ofDouble settings.endpointSnap)
  (∃ v, plan m = .ok (.endpoint v) ∧ plan n = .ok (.endpoint v)) ∨
    ∃ l₁ l₂, plan m = .ok (.cut l₁) ∧ plan n = .ok (.cut l₂)

theorem not_attachesAlike {settings : Settings} {g : Streets Float} {m n v : Nat} {p : Point Float}
    {l : Location Float} {snap : Float} (hsnap : settings.endpointSnap = snap)
    (hplans : plan g m p (Frame.around p) snap = .ok (.endpoint v) ∧
      plan g n p (Frame.around p) snap = .ok (.cut l)) : ¬ AttachesAlike settings g m n p := by
  obtain ⟨hforward, hback⟩ := hplans
  subst hsnap
  rintro (⟨w, -, hw⟩ | ⟨l₁, l₂, hl, -⟩)
  · cases hback.symm.trans hw
  · cases hforward.symm.trans hl

/-- A street that comes back to a point, and a point at the edge of what snaps: both are linked to
both edges of a street and attach to them at two places. -/
theorem attached_at_two_places :
    onTheSpot.validate = .ok () ∧
    ((meridianStreet (-1.0) foldedLine).answer = .ok (0, 1) ∧
      (targets onTheSpot foldedStreet ⟨0.0, 0.0⟩ .walk).map (·.item.number) = [0, 1] ∧
      ¬ AttachesAlike onTheSpot foldedStreet 0 1 ⟨0.0, 0.0⟩) ∧
    (meridianStreet 1.0 straightLine).answer = .ok (0, 1) ∧
      (targets onTheSpot straightStreet lastToSnap .walk).map (·.item.number) = [0, 1] ∧
      ¬ AttachesAlike onTheSpot straightStreet 0 1 lastToSnap := by
  refine ⟨rfl, ⟨rfl, ?_, not_attachesAlike rfl plan_foldedStreet⟩, rfl, ?_,
    not_attachesAlike rfl plan_straightStreet⟩
  · rw [targets_on_meridian (d := 0.0) rfl (by decide) candidates_foldedStreet (by decide +kernel)
      (by decide +kernel) (by decide) (by decide) (by decide)]
    rfl
  · rw [targets_on_meridian (d := .ofBits 4363133977964314624) rfl (by decide)
      candidates_straightStreet (by decide +kernel) (by decide +kernel) (by decide) (by decide)
      (by decide)]
    rfl

/-! ## Streets of two points -/

/-- Fractions, with distances ranked by their squares. -/
instance fractions : ExactNumbers ℚ where
  hypot x y := x * x + y * y
  far := 10 ^ 400
  toDouble q := Float.ofInt q.num / Float.ofNat q.den
  ofDouble x :=
    match content x with
    | .finite negative significand exponent =>
      (if negative then -1 else 1) * (significand * 2 ^ exponent : Nat) / (2 ^ 1074 : Nat)
    | _ => 0
  hypot_lt_iff _ _ _ _ := Iff.rfl

def shortCorners : List (Event ℚ) :=
  [.add (.intersection ⟨0, 0⟩ none), .add (.intersection ⟨0, 1⟩ none)]

def shortStreet : Streets ℚ :=
  ((run .empty shortCorners).addTwoWayStreet 0 1 none .all "Short").state

theorem addTwoWayStreet_shortCorners :
    (run .empty shortCorners).addTwoWayStreet 0 1 none .all "Short" = .ok (0, 1) shortStreet :=
  rfl

def besideTheStreet : Point ℚ :=
  ⟨1 / 4, 1 / 2⟩

theorem passesOnce_shortStreet :
    Frame.PassesOnce ⟨1⟩ besideTheStreet [⟨0, 0⟩, ⟨0, 1⟩] ⟨0, 1 / 2⟩ := by
  have hfoot : Location.between ⟨0, 0⟩ ⟨0, 1⟩
      (Frame.foot ⟨1⟩ besideTheStreet ⟨0, 0⟩ ⟨0, 1⟩) = (⟨0, 1 / 2⟩ : Point ℚ) := by decide +kernel
  rw [← hfoot]
  exact Frame.passesOnce_pair (by decide) besideTheStreet (by decide)

theorem plan_shortStreet {e : Edge ℚ} (hedge : shortStreet.edge? 0 = some e)
    (hline : e.line = [⟨0, 0⟩, ⟨0, 1⟩]) :
    plan shortStreet 0 besideTheStreet ⟨1⟩ (1 / 100) = .ok (.cut ⟨0, 1 / 2⟩) := by
  have hlocate : Frame.locate ⟨1⟩ besideTheStreet e.line = ⟨0, 1 / 2⟩ := by
    rw [hline]
    decide +kernel
  have hlength : e.line.length = 2 := by
    rw [hline]
    rfl
  have hstart : (⟨0, 1 / 2⟩ : Location ℚ).nearStart (1 / 100) = false := by decide +kernel
  have hend : (⟨0, 1 / 2⟩ : Location ℚ).nearEnd 2 (1 / 100) = false := by decide +kernel
  unfold plan
  rw [hedge]
  simp only [hlocate, hlength, hstart, hend, Bool.false_eq_true, if_false]

def sameCorners : List (Event Float) :=
  [.add (.intersection ⟨0.0, 0.0⟩ none), .add (.intersection ⟨0.0, 0.0⟩ none)]

/-- The street between them, which has no length. -/
def turningStreet : Streets Float :=
  ((run .empty sameCorners).addTwoWayStreet 0 1 none .all "Turn").state

theorem addTwoWayStreet_sameCorners :
    (run .empty sameCorners).addTwoWayStreet 0 1 none .all "Turn" = .ok (0, 1) turningStreet :=
  rfl

theorem halves_turningStreet :
    ∃ h₁ h₂, halve turningStreet 0 ⟨0, 0.5⟩ = .ok h₁ ∧ halve turningStreet 1 ⟨0, 0.5⟩ = .ok h₂ ∧
      turningStreet.edge? 0 = some h₁.parent ∧ turningStreet.edge? 1 = some h₂.parent ∧
      Opposed h₁ h₂ ∧ Measured h₁ :=
  ⟨_, _, rfl, rfl, rfl, rfl, ⟨⟨0, ⟨0.0, 0.0⟩, [⟨0.0, 0.0⟩], rfl, rfl⟩,
    ⟨0, ⟨0.0, 0.0⟩, [⟨0.0, 0.0⟩], rfl, rfl⟩⟩, Or.inl rfl⟩

theorem attached_at_one_place_halfway :
    (∃ h₁ h₂, halve turningStreet 0 ⟨0, 0.5⟩ = .ok h₁ ∧ halve turningStreet 1 ⟨0, 0.5⟩ = .ok h₂ ∧
      Opposed h₁ h₂ ∧ Measured h₁ ∧ LengthsAlike h₁ h₂) ∧
    (run .empty shortCorners).addTwoWayStreet 0 1 none .all "Short" = .ok (0, 1) shortStreet ∧
    Frame.distanceToLine ⟨1⟩ besideTheStreet [⟨0, 0⟩, ⟨0, 1⟩] < Scalar.far ∧
    Frame.PassesOnce ⟨1⟩ besideTheStreet [⟨0, 0⟩, ⟨0, 1⟩] ⟨0, 1 / 2⟩ ∧
    ∃ l₁ l₂ h₁ h₂, plan shortStreet 0 besideTheStreet ⟨1⟩ (1 / 100) = .ok (.cut l₁) ∧
      plan shortStreet 1 besideTheStreet ⟨1⟩ (1 / 100) = .ok (.cut l₂) ∧
      halve shortStreet 0 l₁ = .ok h₁ ∧ halve shortStreet 1 l₂ = .ok h₂ ∧
      Matching ⟨0, 1 / 2⟩ h₁ h₂ := by
  constructor
  · -- nothing can be computed of a distance between two places, so the street turns on the spot
    obtain ⟨h₁, h₂, hhalve₁, hhalve₂, hparent₁, hparent₂, hopposed, hmeasured⟩ :=
      halves_turningStreet
    obtain ⟨forward, back, hforward, hback, -, halike⟩ := attached_at_one_place.1 sameCorners 0 1
      none .all "Turn" 0 1 turningStreet addTwoWayStreet_sameCorners
    obtain rfl : h₁.parent = forward := Option.some.inj (hparent₁.symm.trans hforward)
    obtain rfl : h₂.parent = back := Option.some.inj (hparent₂.symm.trans hback)
    exact ⟨h₁, h₂, hhalve₁, hhalve₂, hopposed, hmeasured,
      halike.halves _ _ _ _ _ _ h₁ h₂ hhalve₁ hhalve₂ rfl rfl hopposed hmeasured⟩
  · have hnear : Frame.distanceToLine ⟨1⟩ besideTheStreet [⟨0, 0⟩, ⟨0, 1⟩] < Scalar.far := by
      decide +kernel
    obtain ⟨forward, back, hforward, hback, -, -, hgiven, hattach⟩ :=
      attached_at_one_place.2 shortCorners 0 1 none .all "Short" 0 1 shortStreet
        addTwoWayStreet_shortCorners
    have hline : forward.line = [⟨0, 0⟩, ⟨0, 1⟩] := by
      rw [← Except.ok.inj hgiven]
      rfl
    refine ⟨addTwoWayStreet_shortCorners, hnear, passesOnce_shortStreet, ?_⟩
    rw [← hline] at hnear
    have hpasses := passesOnce_shortStreet
    rw [← hline] at hpasses
    rcases hattach ⟨1⟩ besideTheStreet ⟨0, 1 / 2⟩ (1 / 100) (by decide +kernel) (by decide +kernel)
      hnear hpasses _ _ 0 1 hforward hback with ⟨v, -, hsnaps, -⟩ | hcuts
    · cases (plan_shortStreet hforward hline).symm.trans hsnaps
    · exact hcuts

end StreetLinking.Linking
