import StreetLinking.Proofs.Linking.BothWays
import StreetLinking.Proofs.Linking.LinkSteps
/-!
# Areas around stops

A stop may split several edges of an area in one call, and each vertex that this makes is listed by
the area before the next one crosses it. Main statement: once a stop has been linked, every vertex
that this has made on an edge of an area has an edge to and from each other vertex that the area
then lists.
-/

namespace StreetLinking.Linking

open Number Plane Street Streets Nearest

variable {α : Type} [Scalar α]

/-! ## What areas list -/

def Lists (g : Streets α) : Prop :=
  ∀ (id : Nat) (a : Area), g.areas[id]? = some a → ∀ w ∈ a.vertices, w < g.vertices.size

omit [Scalar α] in
theorem vertices_size_mono {g g' : Streets α} (h : g.vertices.toList <+: g'.vertices.toList) :
    g.vertices.size ≤ g'.vertices.size := by
  simpa using h.length_le

theorem lists_run (events : List (Event α)) : Lists (run (.empty : Streets α) events) := by
  intro id a ha w hw
  rw [← replay_changesOf] at ha ⊢
  obtain ⟨before, after, ring, permission, hchanges, hanswer, hvertices⟩ := exists_ring _ ha
  rw [hvertices] at hw
  rcases List.mem_append.1 hw with hw | hw
  · rcases addArea_cases (replay .empty before) a.name ring permission with
      ⟨fault, heq⟩ | ⟨corners, hcorners, -⟩
    · rw [heq] at hanswer
      cases hanswer
    · obtain ⟨c, hc, rfl⟩ := List.mem_map.1 (map_fst_corners hcorners ▸ hw)
      have hlt := lt_size_of_position? (position?_of_mem_corners hcorners c hc)
      have hsound := sound_replay (α := α) sound_empty before
      rw [hchanges, replay_append]
      exact Nat.lt_of_lt_of_le hlt (vertices_size_mono (vertices_replay hsound _))
  · obtain ⟨x, -, hx, -⟩ := split_of_mem_areaSplits sound_empty _ hw
    exact (Array.getElem?_eq_some_iff.1 hx).1

namespace Effects

variable {settings : Settings} {role : Role} {notes : List Annotation} {g g₁ : Streets α}
  {pieces : List (Piece α)} {joins crossings : List (Edge α)}
  (h : Effects settings role notes g pieces joins crossings g₁)

include h

theorem vertex_mem_area {p : Piece α} (hp : p ∈ pieces) {id : Nat}
    (hkind : p.halves.parent.kind = .area id) {a : Area} (ha : g₁.areas[id]? = some a) :
    p.vertex ∈ a.vertices := by
  rw [h.areas, Option.map_eq_some_iff] at ha
  obtain ⟨b, -, rfl⟩ := ha
  refine List.mem_append_right _ (List.mem_map_of_mem (List.mem_filter.2 ⟨hp, ?_⟩))
  exact beq_iff_eq.2 hkind

theorem lists (hlists : Lists g) : Lists g₁ := by
  intro id a ha w hw
  rw [h.areas, Option.map_eq_some_iff] at ha
  obtain ⟨b, hb, rfl⟩ := ha
  rcases List.mem_append.1 hw with hw | hw
  · exact Nat.lt_of_lt_of_le (hlists id b hb w hw) (vertices_size_mono h.vertices_prefix)
  · obtain ⟨p, hp, rfl⟩ := List.mem_map.1 hw
    exact (h.lt_of_mem_pieces (List.mem_filter.1 hp).1).2

end Effects

/-! ## Filling areas -/

/-- The vertices at which edges of areas have been split have edges to and from all others that the
area lists. -/
def Filled (pieces : List (Piece α)) (g : Streets α) : Prop :=
  ∀ p ∈ pieces, ∀ id, p.halves.parent.kind = .area id → ∀ a, g.areas[id]? = some a →
    ∀ w ∈ a.vertices, w ≠ p.vertex → HasEdge g p.vertex w ∧ HasEdge g w p.vertex

omit [Scalar α] in
theorem Filled.onTop {pieces : List (Piece α)} {new : List (Edge α)} {g g' : Streets α}
    (h : Filled pieces g) (htops : Tops new g g') : Filled pieces g' := by
  intro p hp id hkind a ha w hw hne
  rw [htops.areas_eq] at ha
  obtain ⟨hthere, hback⟩ := h p hp id hkind a ha w hw hne
  exact ⟨htops.hasEdge hthere, htops.hasEdge hback⟩

theorem HasEdge.cleaved {c : Change α} {h : Halves α} {first second : Edge α} {g g' : Streets α}
    (hsound : Sound g) (hcleaves : Cleaves c h first second g g') {source target : Nat}
    (hthere : HasEdge g source target)
    (helse : source ≠ h.parent.source ∨ target ≠ h.parent.target) : HasEdge g' source target := by
  obtain ⟨e, he, rfl, rfl⟩ := hthere
  refine ⟨e, ?_, rfl, rfl⟩
  rw [hcleaves.edges]
  refine List.mem_cons_of_mem _ (List.mem_cons_of_mem _ (List.mem_filter.2 ⟨he, ?_⟩))
  refine bne_iff_ne.2 fun hnumber => ?_
  obtain rfl := hsound.number_inj he hcleaves.parent_mem hnumber
  rcases helse with helse | helse
  · exact helse rfl
  · exact helse rfl

section Step

variable {settings : Settings} {role : Role} {notes : List Annotation} {g g₁ g₂ : Streets α}
  {pieces : List (Piece α)} {joins crossings : List (Edge α)}

theorem hasEdge_of_fills (hstop : role = .stop) (hoption : settings.crossAreas = true)
    {h : Halves α} {vertex : Nat} {new : List (Edge α)}
    (hfills : Fills settings role h vertex new g₁ g₂) {id : Nat} (hkind : h.parent.kind = .area id)
    (hvertex : vertex < g₂.vertices.size) (hlists : Lists g₂) {a : Area}
    (ha : g₂.areas[id]? = some a) {w : Nat} (hw : w ∈ a.vertices) (hne : w ≠ vertex) :
    HasEdge g₂ vertex w ∧ HasEdge g₂ w vertex := by
  have hlt := hlists id a ha w hw
  cases hfills with
  | skip hskip =>
    refine absurd ⟨hstop, hoption⟩ (hskip ?_)
    rw [hkind]
    rfl
  | @cross g₁ area new _ _ harea hcrosses =>
    obtain rfl : area = id := EdgeKind.area.inj (harea.symm.trans hkind)
    have hposition {n : Nat} (hn : n < (crossArea g₁ vertex area).1.vertices.size) :
        ∃ p, g₁.position? n = some p := by
      rw [hcrosses.tops.vertices_eq] at hn
      exact ⟨_, by rw [Streets.position?, Streets.vertex?, Array.getElem?_eq_getElem hn]; rfl⟩
    obtain ⟨p, hp⟩ := hposition hvertex
    obtain ⟨q, hq⟩ := hposition hlt
    exact hasEdge_crossArea (hcrosses.tops.areas_eq ▸ ha) hp hw hne hq

/-- Splitting a further edge and crossing its area keeps areas filled. -/
theorem Filled.split (hfilled : Filled pieces g₁)
    (heffects : Effects settings role notes g pieces joins crossings g₁) (hsound : Sound g)
    (hstop : role = .stop) (hoption : settings.crossAreas = true) {location : Location α}
    {h : Halves α} {first second : Edge α} {new : List (Edge α)} (hlive : h.parent ∈ g.edges)
    (hcleaves : Cleaves (.split h.parent.number location) h first second g₁
      (Linking.split g₁ h.parent.number location).state)
    (hfills : Fills settings role h g₁.vertices.size new
      (Linking.split g₁ h.parent.number location).state g₂)
    (hafter : Effects settings role notes g (pieces ++ [⟨h, g₁.vertices.size, first, second⟩])
      joins (crossings ++ new) g₂) (hlists : Lists g₂) :
    Filled (pieces ++ [⟨h, g₁.vertices.size, first, second⟩]) g₂ := by
  have hlast := List.mem_append_right pieces
    (List.mem_singleton_self (⟨h, g₁.vertices.size, first, second⟩ : Piece α))
  have hsize := (hafter.lt_of_mem_pieces hlast).2
  have hnew {id : Nat} (hkind : h.parent.kind = .area id) {a : Area}
      (ha : g₂.areas[id]? = some a) {w : Nat} (hw : w ∈ a.vertices) (hne : w ≠ g₁.vertices.size) :=
    hasEdge_of_fills hstop hoption hfills hkind hsize hlists ha hw hne
  intro p hp id hkind a ha w hw hne
  rcases List.mem_append.1 hp with hp | hp
  · -- an edge between earlier vertices has an end that the edge to be split does not have
    obtain ⟨hle, hlt⟩ := heffects.lt_of_mem_pieces hp
    obtain ⟨hsource, htarget⟩ := hsound.ends _ hlive
    have hkept {source target : Nat} (hthere : HasEdge g₁ source target)
        (hend : source = p.vertex ∨ target = p.vertex) : HasEdge g₂ source target := by
      have hsplit := hthere.cleaved heffects.sound hcleaves (by omega)
      cases hfills with
      | skip hskip => exact hsplit
      | cross _ _ _ hcrosses => exact hcrosses.tops.hasEdge hsplit
    have hareas : g₂.areas = (Linking.split g₁ h.parent.number location).state.areas := by
      cases hfills with
      | skip hskip => rfl
      | cross _ _ _ hcrosses => exact hcrosses.tops.areas_eq
    have hold := ha
    rw [hareas, hcleaves.getElem?_areas, Option.map_eq_some_iff] at hold
    obtain ⟨b, hb, hab⟩ := hold
    by_cases hbefore : w ∈ b.vertices
    · obtain ⟨hthere, hback⟩ := hfilled p hp id hkind b hb w hbefore hne
      exact ⟨hkept hthere (Or.inl rfl), hkept hback (Or.inr rfl)⟩
    · -- the vertex that is new to the list has crossed the area itself
      have hmem := hafter.vertex_mem_area (List.mem_append_left _ hp) hkind ha
      rw [← hab] at hw
      split at hw
      · next hparent =>
        obtain rfl : w = g₁.vertices.size := by
          rcases List.mem_append.1 hw with hw | hw
          · exact absurd hw hbefore
          · exact List.mem_singleton.1 hw
        exact (hnew hparent ha hmem (Nat.ne_of_lt hlt)).symm
      · exact absurd hw hbefore
  · rw [List.mem_singleton.1 hp] at hkind hne ⊢
    exact hnew hkind ha hw hne

end Step

theorem Links.filled {settings : Settings} {v : Nat} {x : Vertex α} {role : Role}
    {g start g₁ : Streets α} {done : List (Use α)} {pieces : List (Piece α)}
    {joins crossings : List (Edge α)}
    (h : Links settings v x role g start done pieces joins crossings g₁) (hsound : Sound g)
    {notes : List Annotation} (hstart : start = { g with annotations := g.annotations ++ notes })
    (hlists : Lists g) (hstop : role = .stop) (hoption : settings.crossAreas = true) :
    Filled pieces g₁ := by
  induction h with
  | start => exact fun p hp => absurd hp List.not_mem_nil
  | endpoint _ _ _ _ _ hconnects ih => exact ih.onTop hconnects.tops
  | cut hlinks hlive hopen hwhole hhalve hcleaves hfills hconnects ih =>
    have hbefore := hlinks.effects hsound hstart
    have hafter := hbefore.split hsound hlive hopen hwhole hhalve hcleaves hfills
    exact (ih.split hbefore hsound hstop hoption hlive hcleaves hfills hafter
      (hafter.lists hlists)).onTop hconnects.tops

theorem Effects.exists_piece {settings : Settings} {role : Role} {notes : List Annotation}
    {g g₁ : Streets α} {pieces : List (Piece α)} {joins crossings : List (Edge α)}
    (h : Effects settings role notes g pieces joins crossings g₁) {s : Nat} {y : Vertex α}
    (hnew : g.vertex? s = none) (hy : g₁.vertex? s = some y) :
    ∃ p ∈ pieces, p.vertex = s ∧ y = splitVertex p.halves := by
  have hle : g.vertices.size ≤ s := Array.getElem?_eq_none_iff.1 hnew
  have hlt := (Array.getElem?_eq_some_iff.1 hy).1
  rw [h.vertices_size] at hlt
  have hmem : s ∈ pieces.map (·.vertex) := by
    rw [h.numbers]
    exact List.mem_range'_1.2 ⟨hle, hlt⟩
  obtain ⟨p, hp, rfl⟩ := List.mem_map.1 hmem
  exact ⟨p, hp, rfl, Option.some.inj (hy.symm.trans (h.vertex?_of_mem hp))⟩

/-- Linking a stop never fails, and tells whether an edge is found. Every vertex that it makes
splits an edge of the graph before, and if this is an edge of an area, then in the end the vertex
has an edge to and from each other vertex that the area lists, those included that are made after
it, as long as the settings ask for it. Crossing an area in any graph adds edges on ways to and from
the vertex that were open, at most one for each, and nothing else happens to the graph; and crossing
the area once more adds nothing. -/
theorem stops_fill_areas (events : List (Event α)) (settings : Settings) (mode : Mode) {v : Nat}
    {x : Vertex α} (hx : (run (.empty : Streets α) events).vertex? v = some x)
    (hstop : x.kind.role? = some .stop) (hoption : settings.crossAreas = true) :
    let g := run (.empty : Streets α) events
    let linked := link settings g v mode
    linked.answer = .ok (!(targets settings g x.position mode).isEmpty) ∧
    (∀ s y, g.vertex? s = none → linked.state.vertex? s = some y →
      ∃ e ∈ g.edges, y.kind = .split e.serial ∧ ∀ id, e.kind = .area id →
        ∃ a, linked.state.areas[id]? = some a ∧ s ∈ a.vertices ∧
          ∀ w ∈ a.vertices, w ≠ s → HasEdge linked.state s w ∧ HasEdge linked.state w s) ∧
    ∀ (g : Streets α) (vertex area : Nat),
      (∃ new, Crosses vertex area new g (crossArea g vertex area).1 ∧
        (crossArea g vertex area).2 = new.length) ∧
      crossArea (crossArea g vertex area).1 vertex area = ((crossArea g vertex area).1, 0) := by
  intro g linked
  have hreached : Reached g := reached_run events
  have hregistered : Registered g := by
    have hreplay := registered_empty.replay (α := α) sound_empty (changesOf .empty events)
    rwa [replay_changesOf] at hreplay
  obtain ⟨pieces, joins, crossings, g', hlink, hlinks⟩ :=
    hreached.exists_links settings mode hx hstop
  have heffects := hlinks.effects hreached.sound rfl
  have hfilled := hlinks.filled hreached.sound rfl (lists_run events) rfl hoption
  have hlinked : linked = .ok _ g' := hlink
  rw [hlinked]
  refine ⟨rfl, fun s y hnew hy => ?_, fun g vertex area =>
    ⟨exists_crosses g vertex area, crossArea_crossArea g vertex area⟩⟩
  obtain ⟨p, hp, rfl, rfl⟩ := heffects.exists_piece hnew hy
  have hlive := (heffects.cuts p hp).parent_mem
  refine ⟨p.halves.parent, hlive, rfl, fun id hkind => ?_⟩
  obtain ⟨b, hb, -⟩ := hregistered.ends _ hlive id hkind
  have ha : g'.areas[id]? = some (settled pieces id b) := by
    rw [heffects.areas, hb, Option.map_some]
  exact ⟨_, ha, heffects.vertex_mem_area hp hkind ha, hfilled p hp id hkind _ ha⟩

/-! ## A stop beside a square -/

/-- A walkable square with a side on the meridian of zero, and a stop half way along this side. -/
def plaza : List (Event Float) :=
  [.add (.intersection ⟨0.0, 0.0⟩ none), .add (.intersection ⟨0.0, 1.0⟩ none),
    .add (.intersection ⟨1.0, 1.0⟩ none), .add (.intersection ⟨1.0, 0.0⟩ none),
    .add (.area "Plaza" [0, 1, 2, 3] .all), .add (.stop "A" "Stop" ⟨0.0, 0.5⟩ false)]

def plazaSide (back : Bool) : Edge Float :=
  { EdgeData.measured (.area 0)
      (if back then [⟨0.0, 1.0⟩, ⟨0.0, 0.0⟩] else [⟨0.0, 0.0⟩, ⟨0.0, 1.0⟩]) .all "Plaza" back with
      number := if back then 1 else 0
      serial := if back then 2 else 1
      source := if back then 1 else 0
      target := if back then 0 else 1 }

theorem edge?_plaza (back : Bool) :
    (run .empty plaza).edge? (plazaSide back).number = some (plazaSide back) := by
  cases back <;> rfl

theorem candidates_plaza (frame : Frame Float) :
    candidates (run .empty plaza) { Search.within ⟨0.0, 0.5⟩ ⟨1.0⟩ 0.0 with frame := frame } .walk =
      [plazaSide true, plazaSide false] := by
  have hentries : (run .empty plaza).entriesIn (Search.within ⟨0.0, 0.5⟩ ⟨1.0⟩ 0.0).box =
      [⟨1, 2, ⟨0.0, 0.0, 0.0, 1.0⟩⟩, ⟨0, 1, ⟨0.0, 0.0, 0.0, 1.0⟩⟩] := by decide
  rw [candidates, hentries, attachedTo_eq]
  rfl

theorem targets_plaza : targets onTheSpot (run .empty plaza) ⟨0.0, 0.5⟩ .walk =
    [⟨plazaSide false, 0.0⟩, ⟨plazaSide true, 0.0⟩] :=
  targets_of_pair rfl (by decide) candidates_plaza (by decide +kernel) (by decide +kernel)
    (by decide) (by decide) (by decide)

theorem usesOf_plaza : usesOf onTheSpot (run .empty plaza) ⟨0.0, 0.5⟩ .walk =
    [⟨plazaSide false, .cut ⟨0, 0.5⟩⟩, ⟨plazaSide true, .cut ⟨0, 0.5⟩⟩] := by
  have hplan (back : Bool) : plan (run .empty plaza) (plazaSide back).number ⟨0.0, 0.5⟩
      (Frame.around ⟨0.0, 0.5⟩) (Scalar.ofDouble onTheSpot.endpointSnap) =
        .ok (.cut ⟨0, 0.5⟩) := by
    have hline : Meridional (plazaSide back).line := by cases back <;> decide
    have hlocate : Frame.locate ⟨1.0⟩ ⟨0.0, 0.5⟩ (plazaSide back).line = ⟨0, 0.5⟩ := by
      cases back <;> decide +kernel
    have hlength : (plazaSide back).line.length = 2 := by cases back <;> rfl
    rw [plan_on_meridian (edge?_plaza back) rfl hline hlocate, hlength]
    exact (if_neg (by decide)).trans (if_neg (by decide))
  simp only [usesOf, targets_plaza, List.filterMap_cons, hplan, List.filterMap_nil]

/-- The vertices made on both edges are connected with all corners, and with each other. -/
theorem stops_fill_areas_beside_the_plaza :
    let g := run .empty plaza
    let linked := link onTheSpot g 4 .walk
    let x : Vertex Float := ⟨.stop "A" false, "Stop", ⟨0.0, 0.5⟩⟩
    (g.vertex? 4 = some x ∧ x.kind.role? = some .stop ∧ onTheSpot.crossAreas = true) ∧
      linked.answer = .ok true ∧
      ∃ a, linked.state.areas[0]? = some a ∧ a.vertices = [0, 1, 2, 3, 5, 6] ∧
        ∀ w ∈ a.vertices, w ≠ 5 → HasEdge linked.state 5 w ∧ HasEdge linked.state w 5 := by
  intro g linked x
  have hx : g.vertex? 4 = some x := rfl
  have hstop : x.kind.role? = some .stop := rfl
  obtain ⟨hanswer, hfill, -⟩ := stops_fill_areas plaza onTheSpot .walk hx hstop rfl
  have hreached : Reached g := reached_run plaza
  obtain ⟨pieces, joins, crossings, g', hlink, hlinks⟩ :=
    hreached.exists_links onTheSpot .walk hx hstop
  have hlinked : linked.state = g' := congrArg Outcome.state hlink
  have heffects := hlinks.effects hreached.sound rfl
  have hparents : pieces.map (·.halves.parent) = [plazaSide false, plazaSide true] := by
    have huses : usesOf onTheSpot g x.position .walk =
        [⟨plazaSide false, .cut ⟨0, 0.5⟩⟩, ⟨plazaSide true, .cut ⟨0, 0.5⟩⟩] := usesOf_plaza
    rw [hlinks.parents_eq, huses]
    rfl
  obtain ⟨p, q, rfl⟩ : ∃ p q, pieces = [p, q] := by
    have hlength := congrArg List.length hparents
    rw [List.length_map] at hlength
    exact List.length_eq_two.1 hlength
  obtain ⟨hp, hq⟩ : p.halves.parent = plazaSide false ∧ q.halves.parent = plazaSide true := by
    simpa using hparents
  obtain ⟨hfirst, hsecond⟩ : p.vertex = 5 ∧ q.vertex = 6 := by
    have hsize : g.vertices.size = 5 := rfl
    simpa [hsize, List.range'] using heffects.numbers
  have hy : linked.state.vertex? 5 = some (splitVertex p.halves) := by
    rw [hlinked, ← hfirst]
    exact heffects.vertex?_of_mem (by simp)
  obtain ⟨e, he, hserial, harea⟩ := hfill 5 _ rfl hy
  obtain rfl : e = plazaSide false := by
    have hlive : plazaSide false ∈ g.edges :=
      (hreached.sound.edge?_eq_some_iff.1 (edge?_plaza false)).1
    refine hreached.sound.serial_inj he hlive ?_
    rw [← hp]
    exact (VertexKind.split.inj hserial).symm
  obtain ⟨a, ha, -, hjoined⟩ := harea 0 rfl
  refine ⟨⟨hx, hstop, rfl⟩, ?_, a, ha, ?_, hjoined⟩
  · have htargets : targets onTheSpot g x.position .walk =
        [⟨plazaSide false, 0.0⟩, ⟨plazaSide true, 0.0⟩] := targets_plaza
    rw [hanswer, htargets]
    rfl
  · have hring : g.areas[0]? = some ⟨"Plaza", [0, 1, 2, 3], [0, 1, 2, 3, 4, 5, 6, 7]⟩ := rfl
    rw [hlinked, heffects.areas, hring, Option.map_some, Option.some.injEq] at ha
    rw [← ha]
    have hkind (back : Bool) : (plazaSide back).kind = .area 0 := rfl
    simp [settled, hp, hq, hkind, hfirst, hsecond]

end StreetLinking.Linking
