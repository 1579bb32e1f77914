import StreetLinking.Linking.Request
import StreetLinking.Proofs.Plane.Scale
import StreetLinking.Proofs.Temporary.Walks
import StreetLinking.Street.Construction
/-!
# A request opens no way through

The connectors of an origin lead away from it and the halves of the edges that it cuts lead on from
the cut, and with a destination it is the other way round. Main statement: whatever ends a request
links, in whatever order and whether or not linking fails, its overlay adds no walk between vertices
of the street graph, and from an origin to a destination one has to pass such a vertex.
-/

namespace StreetLinking.Linking

open Number Plane Street Nearest Temporary

variable {α : Type}

/-! ## Overlays that grow on one side -/

/-- The overlay keeps what it has, and each new edge serves the side. -/
structure Extends (side : Bool) (o o' : Overlay α) : Prop where
  id : o'.id = o.id
  vertices : o.vertices <+: o'.vertices
  edges : ∀ e ∈ o'.edges, e ∈ o.edges ∨ Serves o' side e

namespace Extends

variable {side : Bool} {o o' o'' : Overlay α}

theorem refl (side : Bool) (o : Overlay α) : Extends side o o :=
  ⟨rfl, List.prefix_refl _, fun _ he => Or.inl he⟩

theorem liesOn (h : Extends side o o') {s : Bool} {r : VertexRef} (hr : LiesOn o s r) :
    LiesOn o' s r := by
  obtain ⟨v, x, rfl, hx, hside⟩ := hr
  refine ⟨v, x, rfl, ?_, hside⟩
  unfold Overlay.vertex? at hx ⊢
  rw [h.id]
  split at hx
  · next hown =>
    obtain ⟨rest, hrest⟩ := h.vertices
    obtain ⟨hlt, -⟩ := List.getElem?_eq_some_iff.1 hx
    rw [if_pos hown, ← hrest, List.getElem?_append_left hlt, hx]
  · simp at hx

theorem borders (h : Extends side o o') {s : Bool} {r : VertexRef} (hr : Borders o s r) :
    Borders o' s r :=
  hr.imp_right h.liesOn

theorem serves (h : Extends side o o') {s : Bool} {e : TempEdge α} (he : Serves o s e) :
    Serves o' s e := by
  cases s with
  | false => exact ⟨h.liesOn he.1, h.borders he.2⟩
  | true => exact ⟨h.liesOn he.1, h.borders he.2⟩

theorem trans (h : Extends side o o') (h' : Extends side o' o'') : Extends side o o'' where
  id := h'.id.trans h.id
  vertices := h.vertices.trans h'.vertices
  edges := by
    intro e he
    rcases h'.edges e he with he | hserves
    · exact (h.edges e he).imp_right h'.serves
    · exact Or.inr hserves

theorem oneWay (h : Extends side o o') (hone : OneWay o) : OneWay o' := by
  intro e he
  rcases h.edges e he with hold | hserves
  · obtain ⟨s, hs⟩ := hone e hold
    exact ⟨s, h.serves hs⟩
  · exact ⟨side, hserves⟩

end Extends

theorem extends_addVertex (side : Bool) (o : Overlay α) (v : TempVertex α) :
    Extends side o (o.addVertex v).1 :=
  ⟨rfl, List.prefix_append _ _, fun _ he => Or.inl he⟩

theorem extends_addEdge {side : Bool} {o : Overlay α} {e : TempEdge α} (h : Serves o side e) :
    Extends side o (o.addEdge e) := by
  have hedges : ∀ d ∈ (o.addEdge e).edges, d ∈ o.edges ∨ d = e := by
    intro d hd
    simpa [Overlay.addEdge] using hd
  refine ⟨rfl, List.prefix_refl _, fun d hd => ?_⟩
  rcases hedges d hd with hd | rfl
  · exact Or.inl hd
  · cases side with
    | false => exact Or.inr h
    | true => exact Or.inr h

theorem liesOn_addVertex {side : Bool} (o : Overlay α) {v : TempVertex α}
    (h : v.kind.side? = some side) :
    LiesOn (o.addVertex v).1 side (.temporary (o.addVertex v).2) :=
  ⟨_, v, rfl, o.vertex?_addVertex_new v, h⟩

variable [Scalar α]

/-! ## What linking an end adds -/

theorem extends_cutIn (g : Streets α) (o : Overlay α) (number : Nat) (location : Location α)
    (side : Bool) :
    let r := cutIn g o number location (Request.endRole side).side
    Extends side o r.state ∧ ∀ v, r.answer = .ok v → LiesOn r.state side (.temporary v) := by
  unfold cutIn
  cases halve g number location with
  | error fault => exact ⟨Extends.refl side o, by simp [Outcome.fail]⟩
  | ok h =>
    have hside : (TempVertexKind.split h.parent.serial (Request.endRole side).side).side? =
        some side := by cases side <;> rfl
    have hvertex := extends_addVertex side o
      ⟨.split h.parent.serial (Request.endRole side).side, splitLabel h.parent, h.point⟩
    have hlies := liesOn_addVertex o (v :=
      ⟨.split h.parent.serial (Request.endRole side).side, splitLabel h.parent, h.point⟩) hside
    dsimp only
    generalize o.addVertex _ = added at hvertex hlies
    obtain ⟨o', v⟩ := added
    have hanswer : ∀ (o : Overlay α) w, (Outcome.ok v o).answer = .ok w → w = v := by
      intro o w hw
      exact (Except.ok.inj hw).symm
    cases side with
    | false =>
      let out := partEdge (.temporary v) (.permanent h.parent.target) h.parent h.second
      have hedge : Extends false o' (o'.addEdge out) :=
        extends_addEdge ⟨hlies, Or.inl ⟨_, rfl⟩⟩
      refine ⟨hvertex.trans hedge, fun w hw => ?_⟩
      rw [hanswer _ w hw]
      exact hedge.liesOn hlies
    | true =>
      let inbound := partEdge (.permanent h.parent.source) (.temporary v) h.parent h.first
      have hedge : Extends true o' (o'.addEdge inbound) :=
        extends_addEdge ⟨hlies, Or.inl ⟨_, rfl⟩⟩
      refine ⟨hvertex.trans hedge, fun w hw => ?_⟩
      rw [hanswer _ w hw]
      exact hedge.liesOn hlies

theorem extends_connectIn {side : Bool} {o : Overlay α} {entity street : VertexRef × Point α}
    (hentity : LiesOn o side entity.1) (hstreet : Borders o side street.1) :
    Extends side o (connectIn o entity street (Request.endRole side)).1 := by
  have honce (kind : ConnectorKind) (e : TempEdge α) (he : Serves o side e) :
      Extends side o (connectOnce kind (o, 0) e).1 := by
    unfold connectOnce
    split
    · exact Extends.refl side o
    · exact extends_addEdge he
  cases side with
  | false => exact honce _ _ ⟨hentity, hstreet⟩
  | true => exact honce _ _ ⟨hentity, hstreet⟩

section Guest

variable (settings : Settings) (g : Streets α) {guest : Guest α} {side : Bool}

theorem extends_attachIn (hrole : guest.role = Request.endRole side) (d : Draft α)
    (number : Nat) :
    let r := attachIn settings g guest d number
    Extends side d.overlay r.state.overlay ∧
      ∀ street, r.answer = .ok street → Borders r.state.overlay side street := by
  unfold attachIn
  cases plan g number guest.position (Frame.around guest.position)
      (Scalar.ofDouble settings.endpointSnap) with
  | error fault => exact ⟨Extends.refl side _, by simp [Outcome.fail]⟩
  | ok attachment =>
    cases attachment with
    | endpoint v =>
      refine ⟨Extends.refl side _, fun street hstreet => Or.inl ⟨v, ?_⟩⟩
      exact (Except.ok.inj hstreet).symm
    | cut location =>
      have hoverlay := d.record_overlay number
      dsimp only
      generalize d.record number = recorded at hoverlay
      rcases recorded with ⟨_ | _, d'⟩
      · exact ⟨by simp only [Outcome.andThen]; rw [hoverlay]; exact Extends.refl side _,
          by simp [Outcome.andThen]⟩
      · obtain ⟨hextends, hlies⟩ := extends_cutIn g d'.overlay number location side
        simp only [Outcome.andThen, hrole]
        rw [hoverlay] at hextends hlies ⊢
        refine ⟨hextends, fun street hstreet => Or.inr ?_⟩
        cases hv : (cutIn g d.overlay number location (Request.endRole side).side).answer with
        | error fault =>
          rw [hv] at hstreet
          cases hstreet
        | ok v =>
          rw [hv] at hstreet
          cases hstreet
          exact hlies v hv

theorem extends_connectGuest (hrole : guest.role = Request.endRole side) {d : Draft α}
    (hguest : LiesOn d.overlay side (.temporary guest.vertex)) {street : VertexRef}
    (hstreet : Borders d.overlay side street) (position : Point α) :
    Extends side d.overlay (connectGuest guest street position d).overlay := by
  unfold connectGuest
  rw [hrole]
  exact extends_connectIn hguest hstreet

theorem extends_attachAllIn (hrole : guest.role = Request.endRole side) (numbers : List Nat)
    {d : Draft α} (hguest : LiesOn d.overlay side (.temporary guest.vertex)) :
    Extends side d.overlay (attachAllIn settings g guest d numbers).state.overlay := by
  induction numbers generalizing d with
  | nil => exact Extends.refl side _
  | cons number rest ih =>
    obtain ⟨hattach, hborders⟩ := extends_attachIn settings g hrole d number
    rw [attachAllIn]
    generalize attachIn settings g guest d number = attached at hattach hborders
    rcases attached with ⟨_ | street, d'⟩
    · exact hattach
    · simp only [Outcome.andThen]
      split
      · exact hattach
      · next position _ =>
        have hguest' := hattach.liesOn hguest
        have hconnect := extends_connectGuest hrole hguest' (hborders street rfl) position
        exact hattach.trans (hconnect.trans (ih (hconnect.liesOn hguest')))

theorem extends_attachToStops (hrole : guest.role = Request.endRole side) {d : Draft α}
    (hguest : LiesOn d.overlay side (.temporary guest.vertex)) :
    Extends side d.overlay (attachToStops settings g guest d).1.overlay := by
  simp only [attachToStops]
  generalize nearestStops g _ _ = stops
  induction stops generalizing d with
  | nil => exact Extends.refl side _
  | cons stop rest ih =>
    have hconnect := extends_connectGuest hrole hguest
      (Or.inl ⟨stop.item.vertex, rfl⟩) stop.item.position
    exact hconnect.trans (ih (hconnect.liesOn hguest))

theorem extends_linkGuest (hrole : guest.role = Request.endRole side) (mode : Mode)
    {d : Draft α} (hguest : LiesOn d.overlay side (.temporary guest.vertex)) :
    Extends side d.overlay (linkGuest settings g guest mode d).state.overlay := by
  unfold linkGuest
  split
  · split
    · exact extends_attachToStops settings g hrole hguest
    · exact Extends.refl side _
  · have hall (numbers : List Nat) := extends_attachAllIn settings g hrole numbers hguest
    rw [Outcome.andThen_ok_state]
    exact hall _

end Guest

/-- Linking an end, even if it fails, adds edges on the side of that end only. -/
theorem extends_linkEnd (settings : Settings) (g : Streets α) (r : Request α)
    (position : Point α) (isDestination : Bool) :
    Extends isDestination r.overlay
      (r.linkEnd settings g position isDestination).state.overlay := by
  let added := r.overlay.addVertex
    ⟨.searchEnd isDestination, Request.endLabel isDestination, position⟩
  let guest : Guest α := ⟨added.2, Request.endRole isDestination, position⟩
  have hlies : LiesOn added.1 isDestination (.temporary added.2) := liesOn_addVertex r.overlay rfl
  have hlink : Extends isDestination added.1 _ := extends_linkGuest settings g
    (rfl : guest.role = _) (r.modes.linkingMode isDestination) (d := ⟨added.1, some r.gate⟩) hlies
  exact (extends_addVertex isDestination r.overlay _).trans hlink

/-! ## Requests -/

structure EndCall (α : Type) where
  settings : Settings
  position : Point α
  isDestination : Bool

/-- The request after a sequence of calls, whether or not they succeed. -/
def linkEnds (g : Streets α) (r : Request α) (calls : List (EndCall α)) : Request α :=
  calls.foldl (fun r c => (r.linkEnd c.settings g c.position c.isDestination).state) r

theorem oneWay_linkEnds (g : Streets α) {r : Request α} (h : OneWay r.overlay)
    (calls : List (EndCall α)) : OneWay (linkEnds g r calls).overlay := by
  induction calls generalizing r with
  | nil => exact h
  | cons c rest ih =>
    exact ih ((extends_linkEnd c.settings g r c.position c.isDestination).oneWay h)

/-- The overlay of a request opens no way through: there is no walk through it from the street graph
back to it, each walk from an origin to a destination passes a permanent vertex on the way, and the
view has the same walks between permanent vertices as the street graph alone, so the same shortest
ones. -/
theorem no_way_through (g : Streets α) (modes : RequestModes) (id : OverlayId)
    (calls : List (EndCall α)) :
    let r := linkEnds g (.start modes id) calls
    (∀ u path v, path ≠ [] → ¬ Walks r.overlay (.permanent u) path (.permanent v)) ∧
    (∀ origin destination x y path, r.overlay.vertex? origin = some x →
      x.kind = .searchEnd false → r.overlay.vertex? destination = some y →
      y.kind = .searchEnd true →
      Walks r.overlay (.temporary origin) path (.temporary destination) →
      ∃ before v after, path = before ++ after ∧
        Walks r.overlay (.temporary origin) before (.permanent v) ∧
        Walks r.overlay (.permanent v) after (.temporary destination)) ∧
    ∀ u v,
      (∀ path, ViewWalks (r.view g) (.permanent u) path (.permanent v) ↔
        ViewWalks ⟨g, []⟩ (.permanent u) path (.permanent v)) ∧
      ∀ n, IsShortest (r.view g) (.permanent u) (.permanent v) n ↔
        IsShortest ⟨g, []⟩ (.permanent u) (.permanent v) n := by
  intro r
  have hone : OneWay r.overlay :=
    oneWay_linkEnds g (fun e he => absurd he List.not_mem_nil) calls
  refine ⟨fun u path v hpath => hone.not_walks_permanent hpath, ?_,
    fun u v => ⟨fun path => hone.viewWalks_iff, fun n => hone.isShortest_iff⟩⟩
  intro origin destination x y path hx hxkind hy hykind hwalk
  have horigin : LiesOn r.overlay false (.temporary origin) :=
    ⟨origin, x, rfl, hx, by rw [hxkind]; rfl⟩
  have hdestination : LiesOn r.overlay true (.temporary destination) :=
    ⟨destination, y, rfl, hy, by rw [hykind]; rfl⟩
  rcases hone.walks_from_origin hwalk horigin with hstays | hpasses
  · cases hstays.side_eq hdestination
  · exact hpasses

/-! ## Ends that meet at a stop -/

def lonelyStop : Streets Float :=
  (Streets.addStop .empty "A" "Stop A" ⟨0.0, 0.0⟩ false).1

/-- The smallest search radius; in degrees it rounds to zero. -/
def onTheSpot : Settings := { searchRadius := .ofBits 1 }

def atTheStop (isDestination : Bool) : EndCall Float :=
  ⟨onTheSpot, ⟨0.0, 0.0⟩, isDestination⟩

theorem search_onTheSpot (p : Point Float) :
    Search.around p onTheSpot =
      { Search.within p ⟨1.0⟩ 0.0 with frame := Frame.around p } := by
  have hradius : (Scalar.ofDouble onTheSpot.radiusDegrees : Float) = 0.0 := by decide
  have hwidth : (0.0 : Float) / (Frame.around p).xScale = 0.0 / 1.0 :=
    (zero_div_scale p.y).trans (by decide)
  simp only [Search.around, Search.within, hradius, Frame.searchBox, hwidth]

theorem nearestStops_lonelyStop (gap : Float) :
    nearestStops lonelyStop (Search.around ⟨0.0, 0.0⟩ onTheSpot) gap =
      [⟨⟨0, ⟨0.0, 0.0⟩⟩, 0.0⟩] := by
  have hdistance :
      (Frame.around (⟨0.0, 0.0⟩ : Point Float)).distance ⟨0.0, 0.0⟩ ⟨0.0, 0.0⟩ = 0.0 := by
    simp only [Frame.distance, project_around_of_meridian]
    decide +kernel
  have hfound : lonelyStop.stopsIn (Search.around ⟨0.0, 0.0⟩ onTheSpot).box =
      [⟨0, ⟨0.0, 0.0⟩⟩] := by
    rw [search_onTheSpot]
    decide
  have hdefined : Scalar.isUndefined (0.0 : Float) = false := by decide
  have hwithin : (0.0 : Float) ≤ 0.0 := by decide
  rw [nearestStops, hfound, search_onTheSpot]
  simp only [Search.within, nearest, rank, measured, List.map_cons, List.map_nil, hdistance]
  simp [hdefined, hwithin, chain, chainAfter, withinRadius]

theorem linkGuest_lonelyStop {guest : Guest Float} (hrole : guest.role.isSearchEnd = true)
    (hposition : guest.position = ⟨0.0, 0.0⟩) (mode : Mode) (d : Draft Float) :
    linkGuest onTheSpot lonelyStop guest mode d =
      .ok true (connectGuest guest (.permanent 0) ⟨0.0, 0.0⟩ d) := by
  have hnone (search : Search Float) (gap : Float) :
      nearestEdges lonelyStop search mode gap = [] := by
    have hcandidates : candidates lonelyStop search mode = [] := rfl
    simp [nearestEdges, hcandidates, nearest, rank, measured, withinRadius]
  rw [linkGuest, hnone]
  simp only [hrole, if_true, attachToStops, hposition]
  rw [nearestStops_lonelyStop]
  rfl

def meetingOverlay : Overlay Float :=
  (linkEnds lonelyStop (.start (.only .walk) ⟨0, 0⟩) [atTheStop false, atTheStop true]).overlay

def stopConnector (source target : VertexRef) : TempEdge Float :=
  ⟨source, target, .connector .free, .all, millimetres (metresBetween ⟨0.0, 0.0⟩ ⟨0.0, 0.0⟩),
    [⟨0.0, 0.0⟩, ⟨0.0, 0.0⟩]⟩

theorem meetingOverlay_eq :
    meetingOverlay.id = ⟨0, 0⟩ ∧
      meetingOverlay.vertices = [⟨.searchEnd false, "origin", ⟨0.0, 0.0⟩⟩,
        ⟨.searchEnd true, "destination", ⟨0.0, 0.0⟩⟩] ∧
      meetingOverlay.edges = [stopConnector (.temporary ⟨⟨0, 0⟩, 0⟩) (.permanent 0),
        stopConnector (.permanent 0) (.temporary ⟨⟨0, 0⟩, 1⟩)] := by
  simp only [meetingOverlay, linkEnds, List.foldl_cons, List.foldl_nil, atTheStop,
    Request.linkEnd]
  rw [linkGuest_lonelyStop rfl rfl, linkGuest_lonelyStop rfl rfl]
  exact ⟨rfl, rfl, rfl⟩

theorem ends_of_meetingOverlay :
    meetingOverlay.vertex? ⟨⟨0, 0⟩, 0⟩ = some ⟨.searchEnd false, "origin", ⟨0.0, 0.0⟩⟩ ∧
      meetingOverlay.vertex? ⟨⟨0, 0⟩, 1⟩ = some ⟨.searchEnd true, "destination", ⟨0.0, 0.0⟩⟩ := by
  obtain ⟨hid, hvertices, -⟩ := meetingOverlay_eq
  simp only [Overlay.vertex?, hid, hvertices]
  exact ⟨rfl, rfl⟩

theorem walks_meetingOverlay :
    meetingOverlay.edges ≠ [] ∧
      Walks meetingOverlay (.temporary ⟨⟨0, 0⟩, 0⟩) meetingOverlay.edges
        (.temporary ⟨⟨0, 0⟩, 1⟩) := by
  obtain ⟨-, -, hedges⟩ := meetingOverlay_eq
  rw [hedges]
  refine ⟨List.cons_ne_nil _ _, ?_⟩
  apply Walks.cons (e := stopConnector (.temporary ⟨⟨0, 0⟩, 0⟩) (.permanent 0))
  · rw [hedges]
    exact List.mem_cons_self
  apply Walks.cons (e := stopConnector (.permanent 0) (.temporary ⟨⟨0, 0⟩, 1⟩))
  · rw [hedges]
    exact List.mem_cons_of_mem _ List.mem_cons_self
  exact .nil _

/-- An origin and a destination that are linked to the same vertex are joined there. -/
theorem walk_between_ends_at_a_stop :
    ¬ ∀ origin destination x y path, meetingOverlay.vertex? origin = some x →
      x.kind = .searchEnd false → meetingOverlay.vertex? destination = some y →
      y.kind = .searchEnd true → path ≠ [] →
      ¬ Walks meetingOverlay (.temporary origin) path (.temporary destination) := by
  intro hnone
  obtain ⟨horigin, hdestination⟩ := ends_of_meetingOverlay
  obtain ⟨hpath, hwalk⟩ := walks_meetingOverlay
  exact hnone _ _ _ _ _ horigin rfl hdestination rfl hpath hwalk

theorem no_way_through_at_a_stop :
    (meetingOverlay.edges ≠ [] ∧
      ¬ Walks meetingOverlay (.permanent 0) meetingOverlay.edges (.permanent 0)) ∧
    ∃ before v after, meetingOverlay.edges = before ++ after ∧
      Walks meetingOverlay (.temporary ⟨⟨0, 0⟩, 0⟩) before (.permanent v) ∧
      Walks meetingOverlay (.permanent v) after (.temporary ⟨⟨0, 0⟩, 1⟩) := by
  obtain ⟨hpermanent, hends, -⟩ := no_way_through lonelyStop (.only .walk) ⟨0, 0⟩
    [atTheStop false, atTheStop true]
  obtain ⟨horigin, hdestination⟩ := ends_of_meetingOverlay
  obtain ⟨hpath, hwalk⟩ := walks_meetingOverlay
  exact ⟨⟨hpath, hpermanent 0 _ 0 hpath⟩,
    hends _ _ _ _ _ horigin rfl hdestination rfl hwalk⟩

end StreetLinking.Linking
