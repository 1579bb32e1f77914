import StreetLinking.Proofs.Fleet.StreetDistances
import StreetLinking.Proofs.Linking.OneWay
import StreetLinking.Proofs.Linking.Placement
import StreetLinking.Proofs.Linking.TrivialPaths
/-!
# Edges of overlays lead from vertex to vertex

A point may be linked wherever it is, even where a coordinate is undefined: then nothing is near
it, and it gets no edges. Main statement: linking keeps the overlay free of repetitions, and each of
its edges leads from the position of one vertex to that of another, one of them its own.
-/

namespace StreetLinking.Linking

open Number Plane Street Streets Nearest Temporary

/-! ## Undefined points -/

theorem not_le_of_undefined_range {x : Float} (h : (x == x) = false) (d y : Float) :
    ¬ (if x - d < x + d then x - d else x + d) ≤ y := by
  have hx := unpack_of_undefined h
  split
  · exact not_le_of_undefined (unpack_sub_undefined hx d) y
  · exact not_le_of_undefined (unpack_add_undefined hx d) y

theorem meets_searchBox_undefined {center : Point Float} (h : (center == center) = false)
    (frame : Frame Float) (radius : Float) (box : Box Float) :
    box.meets (frame.searchBox center radius) = false := by
  rw [Bool.eq_false_iff]
  intro hmeets
  simp only [Box.meets, Bool.and_eq_true, decide_eq_true_eq] at hmeets
  obtain ⟨⟨-, hleft⟩, hbottom⟩ := hmeets
  have hdefined : (center.x == center.x && center.y == center.y) = false := h
  rcases Bool.and_eq_false_iff.1 hdefined with hx | hy
  · exact not_le_of_undefined_range hx _ _ hleft
  · exact not_le_of_undefined_range hy _ _ hbottom

theorem search_undefined {center : Point Float} (h : (center == center) = false) {β : Type}
    (boxOf : β → Box Float) (index : BoxIndex Float β) (settings : Settings) :
    index.search boxOf (Search.around center settings).box = [] := by
  refine List.eq_nil_iff_forall_not_mem.2 fun item hitem => ?_
  have hmeets := (BoxIndex.meets_of_mem_search hitem).2
  rw [Search.around, Search.within, meets_searchBox_undefined h] at hmeets
  cases hmeets

theorem linkGuest_undefined (settings : Settings) (g : Streets Float) {guest : Guest Float}
    (h : (guest.position == guest.position) = false) (mode : Mode) (d : Draft Float) :
    (linkGuest settings g guest mode d).state = d := by
  have hedges : nearestEdges g (Search.around guest.position settings) mode
      (Scalar.ofDouble settings.duplicateWayDegrees) = [] := by
    simp [nearestEdges, candidates, entriesIn, search_undefined h, attachedTo_eq, nearest, rank,
      measured, withinRadius]
  have hstops : nearestStops g (Search.around guest.position settings)
      (Scalar.ofDouble settings.duplicateWayDegrees) = [] := by
    simp [nearestStops, stopsIn, search_undefined h, nearest, rank, measured, withinRadius]
  rw [linkGuest, hedges]
  dsimp only
  split
  · rw [attachToStops, hstops]
    rfl
  · rfl

/-! ## Overlays on a street graph -/

/-- A view knows where both ends of an edge are, and its line leads from one to the other. -/
def Leads (w : View Float) (source target : VertexRef) (line : Line Float) : Prop :=
  ∃ p q, w.position? source = some p ∧ w.position? target = some q ∧ Spans line p q

structure Fits (g : Streets Float) (o : Overlay Float) (e : TempEdge Float) : Prop where
  leads : Leads ⟨g, [o]⟩ e.source e.target e.line
  own : ∃ v, e.source = .temporary v ∨ e.target = .temporary v

/-- No edge of an overlay is there twice, and each leads from vertex to vertex, at both of which it
is listed. Where the overlay cuts edges it has bounded coordinates. -/
structure Sits (g : Streets Float) (o : Overlay Float) : Prop where
  registered : o.Registered
  distinct : o.edges.Nodup
  edges : ∀ e ∈ o.edges, Fits g o e
  cuts : ∀ v x parent side, o.vertex? v = some x → x.kind = .split parent side →
    x.position.IsBounded

theorem position?_temporary (g : Streets Float) (o : Overlay Float) (v : LocalVertex) :
    View.position? ⟨g, [o]⟩ (.temporary v) = (o.vertex? v).map (·.position) := by
  simp only [View.position?, List.findSome?_cons, List.findSome?_nil]
  cases o.vertex? v <;> rfl

theorem position?_addEdges (g : Streets Float) (o : Overlay Float) (es : List (TempEdge Float))
    (r : VertexRef) : View.position? ⟨g, [o.addEdges es]⟩ r = View.position? ⟨g, [o]⟩ r := by
  cases r with
  | permanent v => rfl
  | temporary v => rw [position?_temporary, position?_temporary, Overlay.vertex?_addEdges]

theorem Fits.addEdges {g : Streets Float} {o : Overlay Float} {e : TempEdge Float} (h : Fits g o e)
    (es : List (TempEdge Float)) : Fits g (o.addEdges es) e := by
  refine ⟨?_, h.own⟩
  unfold Leads
  simp only [position?_addEdges]
  exact h.leads

theorem lists_of_position? {g : Streets Float} {o : Overlay Float} {r : VertexRef} {p : Point Float}
    (h : View.position? ⟨g, [o]⟩ r = some p) : o.lists r = true := by
  cases r with
  | permanent v => rfl
  | temporary v =>
    rw [position?_temporary] at h
    obtain ⟨x, hx, -⟩ := Option.map_eq_some_iff.1 h
    rw [Overlay.lists, Overlay.owns_iff, hx]
    rfl

theorem Fits.lists {g : Streets Float} {o : Overlay Float} {e : TempEdge Float} (h : Fits g o e) :
    o.lists e.source = true ∧ o.lists e.target = true := by
  obtain ⟨p, q, hp, hq, -⟩ := h.leads
  exact ⟨lists_of_position? hp, lists_of_position? hq⟩

theorem position?_nextVertex (g : Streets Float) (o : Overlay Float) :
    View.position? ⟨g, [o]⟩ (.temporary (nextVertex o)) = none := by
  rw [position?_temporary]
  simp [Overlay.vertex?, nextVertex]

section AddVertex

variable {g : Streets Float} {o : Overlay Float} (x : TempVertex Float)

theorem position?_addVertex_new :
    View.position? ⟨g, [(o.addVertex x).1]⟩ (.temporary (nextVertex o)) = some x.position := by
  rw [position?_temporary, Overlay.vertex?_addVertex, ← nextVertex, if_pos rfl]
  rfl

theorem position?_addVertex {r : VertexRef} {p : Point Float}
    (h : View.position? ⟨g, [o]⟩ r = some p) :
    View.position? ⟨g, [(o.addVertex x).1]⟩ r = some p := by
  cases r with
  | permanent v => exact h
  | temporary v =>
    have hold : v ≠ nextVertex o := by
      rintro rfl
      rw [position?_nextVertex] at h
      cases h
    rw [position?_temporary] at h ⊢
    rwa [Overlay.vertex?_addVertex, ← nextVertex, if_neg hold]

theorem Fits.addVertex {e : TempEdge Float} (h : Fits g o e) : Fits g (o.addVertex x).1 e := by
  obtain ⟨⟨p, q, hp, hq, hspans⟩, hown⟩ := h
  exact ⟨⟨p, q, position?_addVertex x hp, position?_addVertex x hq, hspans⟩, hown⟩

end AddVertex

namespace Sits

variable {g : Streets Float} {o : Overlay Float}

theorem addVertex (h : Sits g o) {x : TempVertex Float}
    (hx : ∀ parent side, x.kind = .split parent side → x.position.IsBounded) :
    Sits g (o.addVertex x).1 where
  registered := h.registered.addVertex x
  distinct := h.distinct
  edges e he := (h.edges e he).addVertex x
  cuts v y parent side hy hkind := by
    rw [Overlay.vertex?_addVertex] at hy
    split at hy
    · obtain rfl := Option.some.inj hy
      exact hx parent side hkind
    · exact h.cuts v y parent side hy hkind

theorem addEdges (h : Sits g o) {added : List (TempEdge Float)} (hdistinct : added.Nodup)
    (hnew : ∀ e ∈ added, e ∉ o.edges) (hfits : ∀ e ∈ added, Fits g o e) :
    Sits g (o.addEdges added) where
  registered := (Overlay.grows_addEdges fun e he => (hfits e he).lists).registered h.registered
  distinct := by
    rw [Overlay.edges_addEdges]
    exact List.nodup_append'.2 ⟨h.distinct, hdistinct, fun e he hadd => hnew e hadd he⟩
  edges e he := by
    rw [Overlay.edges_addEdges] at he
    exact ((List.mem_append.1 he).elim (h.edges e) (hfits e)).addEdges added
  cuts v x parent side hx := h.cuts v x parent side (by rwa [Overlay.vertex?_addEdges] at hx)

theorem connectOnce {s : Overlay Float × Nat} (h : Sits g s.1) {kind : ConnectorKind}
    {e : TempEdge Float} (hkind : e.kind = .connector kind) (hfits : Fits g s.1 e) :
    Sits g (connectOnce kind s e).1 ∧
      ∀ d, Fits g s.1 d → Fits g (Linking.connectOnce kind s e).1 d := by
  unfold Linking.connectOnce
  split
  · exact ⟨h, fun d hd => hd⟩
  · next hfree =>
    have hnew : e ∉ s.1.edges := by
      intro he
      refine hfree (List.any_eq_true.2 ⟨e, ?_, by simp [hkind]⟩)
      rw [h.registered.outgoing_eq_filter]
      exact List.mem_filter.2 ⟨he, beq_self_eq_true _⟩
    have hadded := h.addEdges (List.nodup_singleton e) (List.forall_mem_singleton.2 hnew)
      (List.forall_mem_singleton.2 hfits)
    exact ⟨hadded, fun d hd => hd.addEdges [e]⟩

theorem connectAll {s : Overlay Float × Nat} (h : Sits g s.1) {kind : ConnectorKind}
    {es : List (TempEdge Float)} (hes : ∀ e ∈ es, e.kind = .connector kind ∧ Fits g s.1 e) :
    Sits g (es.foldl (Linking.connectOnce kind) s).1 := by
  induction es generalizing s with
  | nil => exact h
  | cons e rest ih =>
    obtain ⟨⟨hkind, hfits⟩, hrest⟩ := List.forall_mem_cons.1 hes
    obtain ⟨hnext, hkeep⟩ := h.connectOnce hkind hfits
    exact ih hnext fun d hd => (hrest d hd).imp_right (hkeep d)

theorem connectIn (h : Sits g o) {v : LocalVertex} {p q : Point Float} {street : VertexRef}
    (hp : View.position? ⟨g, [o]⟩ (.temporary v) = some p) (hpp : (p == p) = true)
    (hq : View.position? ⟨g, [o]⟩ street = some q) (hqq : (q == q) = true) (role : Role) :
    Sits g (connectIn o (.temporary v, p) (street, q) role).1 := by
  refine connectAll (s := (o, 0)) h fun e he => ⟨kind_of_mem_connectorsIn he, ?_⟩
  rcases List.mem_append.1 he with he | he
  · split at he
    · rw [List.mem_singleton.1 he]
      exact ⟨⟨p, q, hp, hq, spans_straight hpp hqq⟩, v, Or.inl rfl⟩
    · cases he
  · split at he
    · rw [List.mem_singleton.1 he]
      exact ⟨⟨q, p, hq, hp, spans_straight hqq hpp⟩, v, Or.inr rfl⟩
    · cases he

theorem cut (h : Sits g o) (hsound : Sound g) (hplaced : Placed g) {number : Nat}
    {location : Location Float} {halves : Halves Float}
    (hh : halve g number location = .ok halves) (hl : IsFraction location.fraction) (side : Side) :
    Sits g (withCut o side halves) := by
  obtain ⟨hpoint, -, -, p, q, hp, hq, hfront, hback⟩ := hplaced.halves hsound hh hl
  have hvertex : Sits g (o.addVertex (cutVertex side halves)).1 :=
    h.addVertex fun _ _ _ => hpoint
  have hmiddle : View.position? ⟨g, [(o.addVertex (cutVertex side halves)).1]⟩
      (.temporary (nextVertex o)) = some halves.point :=
    position?_addVertex_new (cutVertex side halves)
  have hfresh : ∀ e ∈ o.edges, e.source ≠ .temporary (nextVertex o) ∧
      e.target ≠ .temporary (nextVertex o) := by
    intro e he
    obtain ⟨a, b, ha, hb, -⟩ := (h.edges e he).leads
    have hnone := position?_nextVertex g o
    exact ⟨fun hsame => (by rw [← hsame, ha] at hnone; cases hnone),
      fun hsame => (by rw [← hsame, hb] at hnone; cases hnone)⟩
  have hkept : ∀ e ∈ keptHalves side halves (nextVertex o),
      Fits g (o.addVertex (cutVertex side halves)).1 e ∧
        (e.source = .temporary (nextVertex o) ∨ e.target = .temporary (nextVertex o)) := by
    intro e he
    rcases List.mem_append.1 he with he | he
    · split at he
      · rw [List.mem_singleton.1 he]
        exact ⟨⟨⟨p, halves.point, hp, hmiddle, hfront⟩, _, Or.inr rfl⟩, Or.inr rfl⟩
      · cases he
    · split at he
      · rw [List.mem_singleton.1 he]
        exact ⟨⟨⟨halves.point, q, hmiddle, hq, hback⟩, _, Or.inl rfl⟩, Or.inl rfl⟩
      · cases he
  refine hvertex.addEdges ?_ (fun e he hold => ?_) fun e he => (hkept e he).1
  · cases side <;> simp [keptHalves, Side.hasInbound, Side.hasOutbound, partEdge]
  · exact (hkept e he).2.elim (hfresh e hold).1 (hfresh e hold).2

theorem empty (g : Streets Float) (id : OverlayId) : Sits g { id } :=
  ⟨Overlay.registered_empty id, List.nodup_nil, by simp, by simp [Overlay.vertex?]⟩

end Sits

/-! ## Linking -/

structure Hosts (g : Streets Float) (guest : Guest Float) (o : Overlay Float) : Prop
    extends Sits g o where
  seat : View.position? ⟨g, [o]⟩ (.temporary guest.vertex) = some guest.position

section Linking

variable {g : Streets Float} (hsound : Sound g) (hplaced : Placed g)

include hsound hplaced

theorem GuestStep.hosts {guest : Guest Float} (hguest : (guest.position == guest.position) = true)
    {o o' : Overlay Float} (hstep : GuestStep g guest o o') (h : Hosts g guest o) :
    Hosts g guest o' := by
  cases hstep with
  | @connect street position hstreet hjoint =>
    have hdefined : (position == position) = true := by
      cases street with
      | permanent v => exact (hplaced.vertices v _ hstreet).beq_self
      | temporary v =>
        obtain ⟨x, parent, side, hx, hkind⟩ := hjoint v rfl
        rw [position?_temporary, hx] at hstreet
        obtain rfl := Option.some.inj hstreet
        exact (h.cuts v x parent side hx hkind).beq_self
    refine ⟨h.connectIn h.seat hguest hstreet hdefined guest.role, ?_⟩
    obtain ⟨added, -, hframe⟩ := connectIn_frame o (.temporary guest.vertex, guest.position)
      (street, position) guest.role
    rw [hframe, position?_addEdges]
    exact h.seat
  | @cut number location halves hh hlocation =>
    obtain ⟨frame, rfl⟩ := hlocation
    have hl := isFraction_locate frame guest.position halves.parent.line
    refine ⟨h.cut hsound hplaced hh hl guest.role.side, ?_⟩
    rw [withCut, position?_addEdges]
    exact position?_addVertex (cutVertex guest.role.side halves) h.seat

variable (hstops : StopsPlaced g) (settings : Settings)

include hstops

/-- Wherever a guest is, linking it leaves an overlay that sits on the graph. -/
theorem Hosts.sits_linkGuest {guest : Guest Float} {d : Draft Float} (h : Hosts g guest d.overlay)
    (mode : Mode) : Sits g (linkGuest settings g guest mode d).state.overlay := by
  cases hguest : guest.position == guest.position with
  | false =>
    rw [linkGuest_undefined settings g hguest]
    exact h.toSits
  | true =>
    have hsteps := steps_linkGuest settings guest hsound hstops mode d
    exact (hsteps.preserve (fun _ _ hstep ho => hstep.hosts hsound hplaced hguest ho) h).toSits

theorem Sits.linkEnd {r : Request Float} (h : Sits g r.overlay) (position : Point Float)
    (isDestination : Bool) :
    Sits g (r.linkEnd settings g position isDestination).state.overlay := by
  have hhosts : Hosts g (r.endGuest position isDestination)
      (r.overlay.addVertex (Request.endVertex position isDestination)).1 :=
    ⟨h.addVertex fun _ _ hkind => (by cases hkind), position?_addVertex_new _⟩
  rw [Request.linkEnd_eq]
  exact hhosts.sits_linkGuest hsound hplaced hstops settings _

omit settings in
theorem Sits.linkEnds {r : Request Float} (h : Sits g r.overlay) (calls : List (EndCall Float)) :
    Sits g (linkEnds g r calls).overlay := by
  induction calls generalizing r with
  | nil => exact h
  | cons c rest ih =>
    exact ih (h.linkEnd hsound hplaced hstops c.settings c.position c.isDestination)

theorem sits_linkDescriptor {id : OverlayId} {d : Fleet.Descriptor} {l : Fleet.EntityLink}
    (h : Fleet.linkDescriptor settings g id d = some l) : Sits g l.overlay := by
  obtain ⟨-, rfl⟩ := Fleet.linkDescriptor_eq_some_iff.1 h
  have hhosts : Hosts g (Fleet.entityGuest id d) (Fleet.entityOverlay id d) :=
    ⟨(Sits.empty g id).addVertex fun _ _ hkind => (by cases hkind),
      position?_addVertex_new (o := { id }) _⟩
  exact hhosts.sits_linkGuest hsound hplaced hstops settings _ (d := ⟨_, none⟩)

end Linking

end StreetLinking.Linking
