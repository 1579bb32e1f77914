import StreetLinking.Proofs.Fleet.SnapshotIndex
import StreetLinking.Proofs.Linking.GuestSteps
/-!
# What is linked can be travelled to

The answer to whether a point is linked is given as soon as there are edges or stops to link it to;
the connectors and the halves of edges are made afterwards, one after the other. Main statement: in
every graph that a history leads to, a point that counts as linked has a way of one or two edges to
or from a vertex of the graph, along edges that are live and open to the mode, and a point that does
not count as linked has found nothing and left the request as it was.
-/

namespace StreetLinking.Linking

open Number Plane Street Streets Nearest Temporary

variable {α : Type}

/-! ## Open ways -/

/-- A way of one or two edges, on which all parts of streets belong to live edges that are open to
the mode. -/
structure OpenWay (g : Streets α) (mode : Mode) (path : List (TempEdge α)) : Prop where
  nonempty : 1 ≤ path.length
  short : path.length ≤ 2
  parts : ∀ e ∈ path, ∀ n, e.kind = .part n →
    ∃ street, g.edge? n = some street ∧ street.allows (ModeSet.forLinking mode) = true

def LeadsOut (g : Streets α) (o : Overlay α) (mode : Mode) (r : VertexRef) : Prop :=
  ∃ path v x, g.vertex? v = some x ∧ OpenWay g mode path ∧ Walks o r path (.permanent v)

def LeadsIn (g : Streets α) (o : Overlay α) (mode : Mode) (r : VertexRef) : Prop :=
  ∃ path v x, g.vertex? v = some x ∧ OpenWay g mode path ∧ Walks o (.permanent v) path r

variable [Scalar α] {g : Streets α}

namespace Reached

variable (settings : Settings) (position : Point α) (mode : Mode)

theorem allows_of_mem_targets (h : Reached g) {n : Nat}
    (hn : n ∈ (targets settings g position mode).map (·.item.number)) :
    ∃ street, g.edge? n = some street ∧ street.allows (ModeSet.forLinking mode) = true := by
  obtain ⟨t, ht, rfl⟩ := List.mem_map.1 hn
  obtain ⟨hlive, -⟩ := h.live_of_mem_targets settings position mode ht
  have hitem := (subperm_items_nearestEdges g (Search.around position settings) mode _).subset
    (List.mem_map_of_mem ht)
  have hopen := (List.mem_filter.1 hitem).2
  rw [Bool.and_eq_true] at hopen
  exact ⟨t.item, h.sound.edge?_eq_some_iff.2 ⟨hlive, rfl⟩, hopen.2⟩

theorem openWay (h : Reached g) {path : List (TempEdge α)}
    (hway : ShortWay ((targets settings g position mode).map (·.item.number)) path) :
    OpenWay g mode path where
  nonempty := hway.nonempty
  short := hway.short
  parts e he n hn := h.allows_of_mem_targets settings position mode (hway.parts e he n hn)

theorem exists_vertex? (h : Reached g) (hstops : StopsPlaced g) {v : Nat}
    (hv : IsEndOf g ((targets settings g position mode).map (·.item.number)) v ∨
      ∃ t ∈ stopTargets settings g position, t.item.vertex = v) : ∃ x, g.vertex? v = some x := by
  rcases hv with ⟨n, -, e, hedge, hend⟩ | ⟨t, ht, rfl⟩
  · exact exists_vertex?_of_end h.sound (h.sound.edge?_eq_some_iff.1 hedge).1 hend
  · have hposition := hstops _ (mem_items_of_mem_nearestStops ht)
    obtain ⟨x, hx, -⟩ := Option.map_eq_some_iff.1 hposition
    exact ⟨x, hx⟩

variable {settings} {guest : Guest α} {mode} {d : Draft α}

theorem leadsOut_linkGuest (h : Reached g) (hstops : StopsPlaced g)
    (hlinked : (linkGuest settings g guest mode d).answer = .ok true)
    (hrole : guest.role.connector.direction.leaves = true) :
    LeadsOut g (linkGuest settings g guest mode d).state.overlay mode
      (.temporary guest.vertex) := by
  obtain ⟨path, v, hv, hway, hwalk⟩ := (routable_linkGuest settings g hlinked).leaves hrole
  obtain ⟨x, hx⟩ := h.exists_vertex? settings guest.position mode hstops hv
  exact ⟨path, v, x, hx, h.openWay settings guest.position mode hway, hwalk⟩

theorem leadsIn_linkGuest (h : Reached g) (hstops : StopsPlaced g)
    (hlinked : (linkGuest settings g guest mode d).answer = .ok true)
    (hrole : guest.role.connector.direction.arrives = true) :
    LeadsIn g (linkGuest settings g guest mode d).state.overlay mode
      (.temporary guest.vertex) := by
  obtain ⟨path, v, hv, hway, hwalk⟩ := (routable_linkGuest settings g hlinked).arrives hrole
  obtain ⟨x, hx⟩ := h.exists_vertex? settings guest.position mode hstops hv
  exact ⟨path, v, x, hx, h.openWay settings guest.position mode hway, hwalk⟩

end Reached

/-! ## Ends of a search -/

theorem linkEnd_answer_eq_ok_iff {settings : Settings} {r : Request α} {position : Point α}
    {isDestination : Bool} {e : LinkedEnd} :
    (r.linkEnd settings g position isDestination).answer = .ok e ↔
      e.vertex = nextVertex r.overlay ∧
        (r.linkedEnd settings g position isDestination).answer = .ok e.linked := by
  rw [Request.linkEnd_eq]
  dsimp only
  obtain ⟨vertex, linked⟩ := e
  cases (r.linkedEnd settings g position isDestination).answer <;> simp [Except.map, eq_comm]

/-- A linked origin has an open way to the street graph, and a linked destination one from it. -/
theorem leads_of_linkEnd (hreached : Reached g) (hstops : StopsPlaced g) {settings : Settings}
    {r : Request α} {position : Point α} {isDestination : Bool} {e : LinkedEnd}
    (he : (r.linkEnd settings g position isDestination).answer = .ok e)
    (hlinked : e.linked = true) :
    let after := (r.linkEnd settings g position isDestination).state
    let mode := r.modes.linkingMode isDestination
    (isDestination = false → LeadsOut g after.overlay mode (.temporary e.vertex)) ∧
      (isDestination = true → LeadsIn g after.overlay mode (.temporary e.vertex)) := by
  obtain ⟨hvertex, hanswer⟩ := linkEnd_answer_eq_ok_iff.1 he
  rw [hlinked] at hanswer
  rw [hvertex]
  constructor
  · rintro rfl
    exact hreached.leadsOut_linkGuest hstops hanswer rfl
  · rintro rfl
    exact hreached.leadsIn_linkGuest hstops hanswer rfl

theorem linkEnd_of_unlinked {settings : Settings} {r : Request α} {position : Point α}
    {isDestination : Bool} {e : LinkedEnd}
    (he : (r.linkEnd settings g position isDestination).answer = .ok e)
    (hunlinked : e.linked = false) :
    (r.linkEnd settings g position isDestination).state =
        { r with overlay := (r.overlay.addVertex (Request.endVertex position isDestination)).1 } ∧
      targets settings g position (r.modes.linkingMode isDestination) = [] ∧
      stopTargets settings g position = [] := by
  obtain ⟨-, hanswer⟩ := linkEnd_answer_eq_ok_iff.1 he
  rw [hunlinked] at hanswer
  obtain ⟨htargets, hstops, hstate⟩ := linkGuest_of_unlinked settings g hanswer
  refine ⟨?_, htargets, hstops (r.isSearchEnd_endGuest position isDestination)⟩
  have hlinked : (r.linkedEnd settings g position isDestination).state =
      { r.draft with
        overlay := (r.overlay.addVertex (Request.endVertex position isDestination)).1 } := hstate
  rw [Request.linkEnd_eq]
  simp only [hlinked]
  rfl

end StreetLinking.Linking

namespace StreetLinking.Fleet

open Number Plane Street Streets Nearest Temporary Linking

/-! ## Entities -/

theorem leads_of_linkDescriptor {g : Streets Float} (hreached : Reached g)
    (hstops : StopsPlaced g) {settings : Settings} {id : OverlayId} {d : Descriptor}
    {l : EntityLink} (h : linkDescriptor settings g id d = some l) :
    LeadsOut g l.overlay d.kind.linkingMode (.temporary l.vertex) ∧
      LeadsIn g l.overlay d.kind.linkingMode (.temporary l.vertex) := by
  obtain ⟨hanswer, rfl⟩ := linkDescriptor_eq_some_iff.1 h
  have hdirection : (entityGuest id d).role.connector.direction = .both := by
    show d.kind.role.connector.direction = .both
    cases d.kind <;> rfl
  exact ⟨hreached.leadsOut_linkGuest hstops hanswer (by rw [hdirection]; rfl),
    hreached.leadsIn_linkGuest hstops hanswer (by rw [hdirection]; rfl)⟩

/-- In every graph that a history leads to and for all settings: an end of a search that is linked
has an open way to the street graph, or from it if it is the destination; one that is not linked is
all that its request gains, and there is neither an edge nor a stop to link it to; and an entity is
linked just where there is an edge to link it to, and has then open ways both ways. -/
theorem linked_just_if_routable (events : List (Linking.Event Float)) (settings : Settings) :
    let g := run .empty events
    (∀ (r : Request Float) (position : Point Float) (isDestination : Bool) (e : LinkedEnd),
      (r.linkEnd settings g position isDestination).answer = .ok e →
      let after := (r.linkEnd settings g position isDestination).state
      let mode := r.modes.linkingMode isDestination
      let added := r.overlay.addVertex (Request.endVertex position isDestination)
      e.vertex = added.2 ∧
      (e.linked = true →
        (isDestination = false → LeadsOut g after.overlay mode (.temporary e.vertex)) ∧
        (isDestination = true → LeadsIn g after.overlay mode (.temporary e.vertex))) ∧
      (e.linked = false → after = { r with overlay := added.1 } ∧
        nearestEdges g (Search.around position settings) mode settings.duplicateWayDegrees = [] ∧
        nearestStops g (Search.around position settings) settings.duplicateWayDegrees = [])) ∧
    ∀ (id : OverlayId) (d : Descriptor),
      ((linkDescriptor settings g id d).isSome = true ↔
        nearestEdges g (Search.around d.position settings) d.kind.linkingMode
          settings.duplicateWayDegrees ≠ []) ∧
      ∀ l, linkDescriptor settings g id d = some l →
        LeadsOut g l.overlay d.kind.linkingMode (.temporary l.vertex) ∧
        LeadsIn g l.overlay d.kind.linkingMode (.temporary l.vertex) := by
  intro g
  have hreached : Reached g := reached_run events
  have hstops : StopsPlaced g := stopsPlaced_run events
  refine ⟨fun r position isDestination e he => ?_, fun id d => ⟨?_, fun l hl => ?_⟩⟩
  · exact ⟨(linkEnd_answer_eq_ok_iff.1 he).1, leads_of_linkEnd hreached hstops he,
      linkEnd_of_unlinked he⟩
  · rw [Option.isSome_iff_exists]
    exact exists_linkDescriptor_iff hreached settings id d
  · exact leads_of_linkDescriptor hreached hstops hl

/-- A walk that starts half way along the street of the meridian is linked, and so is the station
there. -/
theorem linked_just_if_routable_halfway :
    let g := run .empty meridian
    let r : Request Float := .start (.only .walk) ⟨0, 0⟩
    let after := (r.linkEnd onTheSpot g ⟨0.0, 0.5⟩ false).state
    (∃ e, (r.linkEnd onTheSpot g ⟨0.0, 0.5⟩ false).answer = .ok e ∧ e.linked = true ∧
      LeadsOut g after.overlay .walk (.temporary e.vertex)) ∧
    ∃ l, linkDescriptor onTheSpot g ⟨0, 0⟩ halfwayStation = some l ∧
      LeadsIn g l.overlay .walk (.temporary l.vertex) := by
  intro g r after
  obtain ⟨hends, hentities⟩ := linked_just_if_routable meridian onTheSpot
  have htargets : targets onTheSpot g ⟨0.0, 0.5⟩ .walk ≠ [] := by
    rw [targets_meridian (Or.inr (Or.inr rfl))]
    exact List.cons_ne_nil _ _
  constructor
  · obtain ⟨e, he⟩ := exists_answer_linkEnd_start (reached_run meridian) onTheSpot (.only .walk)
      ⟨0, 0⟩ ⟨0.0, 0.5⟩ false
    obtain ⟨-, hlinked, hunlinked⟩ := hends r ⟨0.0, 0.5⟩ false e he
    cases hflag : e.linked with
    | true => exact ⟨e, he, hflag, (hlinked hflag).1 rfl⟩
    | false => exact absurd (hunlinked hflag).2.1 htargets
  · obtain ⟨hsome, hleads⟩ := hentities ⟨0, 0⟩ halfwayStation
    obtain ⟨l, hl⟩ := Option.isSome_iff_exists.1 (hsome.2 htargets)
    exact ⟨l, hl, (hleads l hl).2⟩

end StreetLinking.Fleet
