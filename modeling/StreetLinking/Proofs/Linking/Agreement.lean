import Mathlib.Data.List.Forall2
import StreetLinking.Proofs.Fleet.Reconciliation
import StreetLinking.Proofs.Linking.GraphSteps
import StreetLinking.Proofs.Linking.TrivialPaths
/-!
# Linking in the graph and in an overlay agree

A rental station that is a vertex of the street graph splits the edges that it is linked to, while
one that a feed reports leaves them whole and keeps the halves in an overlay. Both go through the
same edges: what the one does to the graph is never in the way of its later edges, and both leave
out the same connectors. Main statement: the two are linked alike, edge by edge and connector by
connector.
-/

namespace StreetLinking.Linking

open Number Plane Street Streets Nearest Temporary

variable {α : Type} [Scalar α]

/-! ## Uses of edges -/

/-- An edge that a point is linked to, and how the point attaches to it. -/
structure Use (α : Type) where
  edge : Edge α
  attachment : Attachment α

def usesOf (settings : Settings) (g : Streets α) (position : Point α) (mode : Mode) :
    List (Use α) :=
  (targets settings g position mode).filterMap fun t =>
    match plan g t.item.number position (Frame.around position)
        (Scalar.ofDouble settings.endpointSnap) with
    | .ok attachment => some ⟨t.item, attachment⟩
    | .error _ => none

/-- An entity is connected with edges in turn, to each of which it attaches as it is planned in the
graph that the edges before have left. -/
inductive Attaches (settings : Settings) (entity : Entity α) :
    Streets α → List (Use α) → Streets α → Prop
  | nil (g : Streets α) : Attaches settings entity g [] g
  | cons {g g₁ g₂ : Streets α} {u : Use α} {rest : List (Use α)} {w : Nat}
      (hedge : g.edge? u.edge.number = some u.edge)
      (hplan : plan g u.edge.number entity.position (Frame.around entity.position)
        (Scalar.ofDouble settings.endpointSnap) = .ok u.attachment)
      (hattach : attach settings (Frame.around entity.position) entity g u.edge.number = .ok w g₁)
      (hrest : Attaches settings entity (connect g₁ entity.vertex w entity.role).1 rest g₂) :
      Attaches settings entity g (u :: rest) g₂

inductive AttachesIn (settings : Settings) (g : Streets α) (guest : Guest α) :
    Draft α → List (Use α) → Draft α → Prop
  | nil (d : Draft α) : AttachesIn settings g guest d [] d
  | cons {d d₁ d₂ : Draft α} {u : Use α} {rest : List (Use α)} {street : VertexRef}
      {position : Point α} (hedge : g.edge? u.edge.number = some u.edge)
      (hplan : plan g u.edge.number guest.position (Frame.around guest.position)
        (Scalar.ofDouble settings.endpointSnap) = .ok u.attachment)
      (hattach : attachIn settings g guest d u.edge.number = .ok street d₁)
      (hposition : View.position? ⟨g, [d₁.overlay]⟩ street = some position)
      (hrest : AttachesIn settings g guest (connectGuest guest street position d₁) rest d₂) :
      AttachesIn settings g guest d (u :: rest) d₂

theorem Attaches.append {settings : Settings} {entity : Entity α} {g g₁ g₂ : Streets α}
    {us ws : List (Use α)} (h : Attaches settings entity g us g₁)
    (hnext : Attaches settings entity g₁ ws g₂) : Attaches settings entity g (us ++ ws) g₂ := by
  induction h with
  | nil g => exact hnext
  | cons hedge hplan hattach _ ih => exact .cons hedge hplan hattach (ih hnext)

theorem AttachesIn.append {settings : Settings} {g : Streets α} {guest : Guest α}
    {d d₁ d₂ : Draft α} {us ws : List (Use α)} (h : AttachesIn settings g guest d us d₁)
    (hnext : AttachesIn settings g guest d₁ ws d₂) :
    AttachesIn settings g guest d (us ++ ws) d₂ := by
  induction h with
  | nil d => exact hnext
  | cons hedge hplan hattach hposition _ ih =>
    exact .cons hedge hplan hattach hposition (ih hnext)

theorem Attaches.attachAll_eq {settings : Settings} {entity : Entity α} {g g' : Streets α}
    {uses : List (Use α)} (h : Attaches settings entity g uses g') :
    attachAll settings (Frame.around entity.position) entity g (uses.map (·.edge.number)) =
      .ok () g' := by
  induction h with
  | nil g => rfl
  | cons _ _ hattach _ ih => rw [List.map_cons, attachAll, hattach, Outcome.andThen_ok, ih]

theorem AttachesIn.attachAllIn_eq {settings : Settings} {g : Streets α} {guest : Guest α}
    {d d' : Draft α} {uses : List (Use α)} (h : AttachesIn settings g guest d uses d') :
    attachAllIn settings g guest d (uses.map (·.edge.number)) = .ok () d' := by
  induction h with
  | nil d => rfl
  | cons _ _ hattach hposition _ ih =>
    simp only [List.map_cons, attachAllIn, hattach, Outcome.andThen_ok, hposition, ih]

/-! ## The same place in the graph -/

/-- The vertex of the street graph in the place of a vertex that the overlay of a station has or
refers to: the station is the vertex `v`, and the vertices of its cuts come after those of the
graph. -/
def seat (g : Streets α) (v : Nat) : VertexRef → Nat
  | .permanent w => w
  | .temporary ⟨_, 0⟩ => v
  | .temporary ⟨_, i + 1⟩ => g.vertices.size + i

structure Bare (g : Streets α) (v : Nat) : Prop where
  lt_size : v < g.vertices.size
  apart : ∀ e ∈ g.edges, e.source ≠ v ∧ e.target ≠ v

/-- The vertex is one that the overlay holds, or one of the street graph other than `v`. -/
def Seated (g : Streets α) (v : Nat) (o : Overlay α) (r : VertexRef) : Prop :=
  o.lists r = true ∧ ∀ w, r = .permanent w → w < g.vertices.size ∧ w ≠ v

omit [Scalar α] in
theorem seat_injective {g : Streets α} {v : Nat} (hv : v < g.vertices.size) {o : Overlay α}
    {r s : VertexRef} (hr : Seated g v o r) (hs : Seated g v o s)
    (hsame : seat g v r = seat g v s) : r = s := by
  have hold {w : Nat} (hw : Seated g v o (.permanent w)) : w < g.vertices.size ∧ w ≠ v := hw.2 w rfl
  have hown {t : LocalVertex} (ht : Seated g v o (.temporary t)) : t.overlay = o.id :=
    beq_iff_eq.1 (Bool.and_eq_true_iff.1 ht.1).1
  -- street vertices come before those of the cuts, and the station is none of either
  rcases r with a | ⟨id, _ | i⟩ <;> rcases s with b | ⟨id', _ | j⟩ <;> simp only [seat] at hsame
  · rw [hsame]
  · exact absurd hsame (hold hr).2
  · have hlt := (hold hr).1
    omega
  · exact absurd hsame.symm (hold hs).2
  · have hid : id = id' := (hown hr).trans (hown hs).symm
    rw [hid]
  · omega
  · have hlt := (hold hs).1
    omega
  · omega
  · have hid : id = id' := (hown hr).trans (hown hs).symm
    have hposition : i = j := Nat.add_left_cancel hsame
    rw [hid, hposition]

/-! ## Graphs and overlays that are alike -/

def KindAlike (g : Streets α) (kind : EdgeKind) : TempEdgeKind → Prop
  | .part number => kind.isLinkable = true ∧ ∃ e, g.edge? number = some e ∧ kind = e.kind
  | .connector connector => kind = .connector connector

omit [Scalar α] in
theorem KindAlike.eq_connector {g : Streets α} {connector : ConnectorKind} {kind : TempEdgeKind}
    (h : KindAlike g (.connector connector) kind) : kind = .connector connector := by
  cases kind with
  | part number => exact absurd h.1 Bool.false_ne_true
  | connector kind => rw [EdgeKind.connector.inj h]

/-- An edge of the street graph is like an edge of the overlay, in the same place. -/
structure Mirrors (g : Streets α) (v : Nat) (d : Edge α) (e : TempEdge α) : Prop where
  source : d.source = seat g v e.source
  target : d.target = seat g v e.target
  kind : KindAlike g d.kind e.kind
  permission : d.permission = e.permission
  lengthMm : d.lengthMm = e.lengthMm
  line : d.line = e.line

omit [Scalar α] in
theorem mirrors_of_place {g : Streets α} {v : Nat} {d : Edge α} {e : TempEdge α}
    {data : EdgeData α} (hplace : d.place = (seat g v e.source, seat g v e.target, data))
    (hkind : KindAlike g data.kind e.kind)
    (hdata : data.permission = e.permission ∧ data.lengthMm = e.lengthMm ∧ data.line = e.line) :
    Mirrors g v d e := by
  obtain ⟨hsource, htarget, rfl⟩ :
      d.source = seat g v e.source ∧ d.target = seat g v e.target ∧ d.toEdgeData = data := by
    simpa only [Edge.place, Prod.mk.injEq] using hplace
  exact ⟨hsource, htarget, hkind, hdata.1, hdata.2.1, hdata.2.2⟩

def halvesOf (g : Streets α) (uses : List (Use α)) : List (Halves α) :=
  uses.filterMap fun u =>
    match u.attachment with
    | .endpoint _ => none
    | .cut location => (halve g u.edge.number location).toOption

theorem halvesOf_cons_endpoint (g : Streets α) (e : Edge α) (w : Nat) (rest : List (Use α)) :
    halvesOf g (⟨e, .endpoint w⟩ :: rest) = halvesOf g rest := rfl

theorem halvesOf_cons_cut {g : Streets α} {e : Edge α} {location : Location α} {h : Halves α}
    (hh : halve g e.number location = .ok h) (rest : List (Use α)) :
    halvesOf g (⟨e, .cut location⟩ :: rest) = h :: halvesOf g rest := by
  simp only [halvesOf, List.filterMap_cons, hh]
  rfl

theorem halvesOf_append (g : Streets α) (us ws : List (Use α)) :
    halvesOf g (us ++ ws) = halvesOf g us ++ halvesOf g ws :=
  List.filterMap_append

theorem number_of_mem_halvesOf {g : Streets α} {uses : List (Use α)} {n : Nat}
    (hn : n ∈ (halvesOf g uses).map (·.parent.number)) : n ∈ uses.map (·.edge.number) := by
  obtain ⟨h, hh, rfl⟩ := List.mem_map.1 hn
  obtain ⟨⟨e, attachment⟩, hu, hcut⟩ := List.mem_filterMap.1 hh
  cases attachment with
  | endpoint w => cases hcut
  | cut location =>
    dsimp only at hcut
    cases hhalve : halve g e.number location with
    | error fault =>
      rw [hhalve] at hcut
      cases hcut
    | ok halves =>
      rw [hhalve] at hcut
      obtain rfl : halves = h := Option.some.inj hcut
      have hnumber := List.find?_some (halve_eq_ok hhalve).1
      exact List.mem_map.2 ⟨_, hu, (beq_iff_eq.1 hnumber).symm⟩

/-- Edges have been cut in the graph, for the vertex `v`, and in the overlay of a station: both have
a vertex for every cut, at one point, and the edges on top of the graph are like those of the
overlay, in the same order. Among them are the two halves of every edge that is cut. -/
structure Alike (g : Streets α) (v : Nat) (done : List (Halves α)) (g' : Streets α)
    (o : Overlay α) : Prop where
  vertices : g'.vertices.toList = g.vertices.toList ++ done.map splitVertex
  cuts : o.vertices.tail = done.map (cutVertex .both)
  edges : ∃ new, List.Forall₂ (Mirrors g v) new.reverse o.edges ∧
    g'.edges = new ++ g.edges.filter fun e => !(done.map (·.parent.number)).contains e.number
  parts : o.edges.filter (·.kind.part?.isSome) =
    done.zipIdx.flatMap fun h => keptHalves .both h.1 ⟨o.id, h.2 + 1⟩

/-- What holds between the two while a vertex and a station are being linked. -/
structure Matched (g : Streets α) (v : Nat) (done : List (Halves α)) (g' : Streets α)
    (o : Overlay α) : Prop extends Alike g v done g' o where
  sound : Sound g'
  registered : o.Registered
  size : o.vertices.length = done.length + 1
  ends : ∀ e ∈ o.edges, Seated g v o e.source ∧ Seated g v o e.target

namespace Matched

variable {g : Streets α} {v : Nat} {done : List (Halves α)} {g' : Streets α} {o : Overlay α}

omit [Scalar α] in
theorem connects_eq (h : Matched g v done g' o) (hbare : Bare g v) {r s : VertexRef}
    (hr : Seated g v o r) (hs : Seated g v o s) (hstation : seat g v r = v ∨ seat g v s = v)
    (kind : ConnectorKind) :
    g'.connects (seat g v r) (seat g v s) (· == .connector kind) = o.hasConnector r s kind := by
  obtain ⟨new, hmirrors, hedges⟩ := h.edges
  rw [Overlay.hasConnector, h.registered.outgoing_eq_filter, connects, outgoing, Bool.eq_iff_iff,
    List.any_eq_true, List.any_eq_true]
  simp only [List.mem_filter, Bool.and_eq_true, beq_iff_eq]
  constructor
  · rintro ⟨d, ⟨hd, hsource⟩, htarget, hkind⟩
    rw [hedges] at hd
    rcases List.mem_append.1 hd with hd | hd
    · obtain ⟨i, hi, rfl⟩ := List.getElem_of_mem (List.mem_reverse.2 hd)
      have hi' : i < o.edges.length := hmirrors.length_eq ▸ hi
      have hmirror : Mirrors g v new.reverse[i] o.edges[i] := hmirrors.get hi hi'
      obtain ⟨hseatSource, hseatTarget⟩ := h.ends _ (List.getElem_mem hi')
      refine ⟨o.edges[i], ⟨List.getElem_mem hi', ?_⟩, ?_, ?_⟩
      · exact seat_injective hbare.lt_size hseatSource hr (hmirror.source.symm.trans hsource)
      · exact seat_injective hbare.lt_size hseatTarget hs (hmirror.target.symm.trans htarget)
      · have hlike := hmirror.kind
        rw [hkind] at hlike
        exact hlike.eq_connector
    · obtain ⟨hsource', htarget'⟩ := hbare.apart d (List.mem_filter.1 hd).1
      rw [← hsource, ← htarget] at hstation
      exact absurd hstation (not_or.2 ⟨hsource', htarget'⟩)
  · rintro ⟨e, ⟨he, rfl⟩, rfl, hkind⟩
    obtain ⟨i, hi, rfl⟩ := List.getElem_of_mem he
    have hi' : i < new.reverse.length := hmirrors.length_eq ▸ hi
    have hmirror : Mirrors g v new.reverse[i] o.edges[i] := hmirrors.get hi' hi
    refine ⟨_, ⟨?_, hmirror.source⟩, hmirror.target, ?_⟩
    · rw [hedges]
      exact List.mem_append_left _ (List.mem_reverse.1 (List.getElem_mem hi'))
    · have hlike := hmirror.kind
      rw [hkind] at hlike
      exact hlike

omit [Scalar α] in
theorem connectOnce (h : Matched g v done g' o) (hbare : Bare g v) (e : TempEdge α)
    (data : EdgeData α) (hsource : Seated g v o e.source) (htarget : Seated g v o e.target)
    (hstation : seat g v e.source = v ∨ seat g v e.target = v) {kind : ConnectorKind}
    (hkind : data.kind = .connector kind ∧ e.kind = .connector kind)
    (hdata : data.permission = e.permission ∧ data.lengthMm = e.lengthMm ∧ data.line = e.line)
    (hfits : Fits g' (seat g v e.source, seat g v e.target, data)) (m n : Nat) :
    Matched g v done
        (connectUnless (· == .connector kind) (seat g v e.source) (seat g v e.target) data
          (g', m)).1
        (Linking.connectOnce kind (o, n) e).1 ∧
      (∃ added, (Linking.connectOnce kind (o, n) e).1 = o.addEdges added) ∧
      (connectUnless (· == .connector kind) (seat g v e.source) (seat g v e.target) data
          (g', m)).1.vertices = g'.vertices := by
  have hsame := h.connects_eq hbare hsource htarget hstation kind
  unfold connectUnless Linking.connectOnce
  dsimp only
  rw [hsame]
  split
  · exact ⟨h, ⟨[], rfl⟩, rfl⟩
  · refine ⟨?_, ⟨[e], rfl⟩, rfl⟩
    obtain ⟨new, hmirrors, hedges⟩ := h.edges
    refine ⟨⟨h.vertices, h.cuts, ?_, ?_⟩, h.sound.insertEdge hfits.1 hfits.2.1 hfits.2.2,
      h.registered.addEdge hsource.1 htarget.1, h.size, ?_⟩
    · refine ⟨g'.nextEdge (seat g v e.source) (seat g v e.target) data :: new, ?_, ?_⟩
      · rw [List.reverse_cons]
        refine List.rel_append hmirrors (.cons (mirrors_of_place rfl ?_ hdata) .nil)
        rw [hkind.2]
        exact hkind.1
      · simp only [insertEdge, hedges, List.cons_append]
    · have hpart : e.kind.part?.isSome = false := by rw [hkind.2]; rfl
      simp only [Overlay.addEdge, List.filter_append, List.filter_cons, hpart, h.parts]
      exact List.append_nil _
    · intro d hd
      rcases List.mem_append.1 hd with hd | hd
      · exact h.ends d hd
      · rw [List.mem_singleton.1 hd]
        exact ⟨hsource, htarget⟩

omit [Scalar α] in
theorem seated_station (h : Matched g v done g' o) : Seated g v o (.temporary ⟨o.id, 0⟩) := by
  refine ⟨?_, fun w hw => by cases hw⟩
  have hsize := h.size
  simp only [Overlay.lists, Overlay.owns, beq_self_eq_true, Bool.true_and, decide_eq_true_eq]
  omega

theorem connect (h : Matched g v done g' o) (hbare : Bare g v) {x b : Vertex α}
    (hx : g'.vertex? v = some x) {r : VertexRef} (hr : Seated g v o r)
    (hb : g'.vertex? (seat g v r) = some b) :
    Matched g v done (connect g' v (seat g v r) .bikeRental).1
        (connectIn o (.temporary ⟨o.id, 0⟩, x.position) (r, b.position) .bikeStation).1 ∧
      (Linking.connect g' v (seat g v r) .bikeRental).1.vertices = g'.vertices ∧
      ∃ added, (connectIn o (.temporary ⟨o.id, 0⟩, x.position) (r, b.position)
        .bikeStation).1 = o.addEdges added := by
  have hlt : v < g'.vertices.size ∧ seat g v r < g'.vertices.size :=
    ⟨(Array.getElem?_eq_some_iff.1 hx).1, (Array.getElem?_eq_some_iff.1 hb).1⟩
  have hstation := h.seated_station
  let length := millimetres (metresBetween x.position b.position)
  let data (line : Line α) (back : Bool) : EdgeData α :=
    ⟨.connector .bikeRental, x.label, .unmotorised, length, back, line⟩
  let leaving : TempEdge α := ⟨.temporary ⟨o.id, 0⟩, r, .connector .bikeRental, .unmotorised,
    length, [x.position, b.position]⟩
  let arriving : TempEdge α := ⟨r, .temporary ⟨o.id, 0⟩, .connector .bikeRental, .unmotorised,
    length, [b.position, x.position]⟩
  obtain ⟨h₁, ⟨added, ho⟩, hvertices⟩ := h.connectOnce hbare leaving
    (data [x.position, b.position] false) hstation hr (Or.inl rfl) ⟨rfl, rfl⟩
    ⟨rfl, rfl, rfl⟩ ⟨hlt.1, hlt.2, Nat.le_refl 2⟩ 0 0
  have hseated {s : VertexRef} (hs : Seated g v o s) :
      Seated g v (Linking.connectOnce .bikeRental (o, 0) leaving).1 s := by
    rw [ho]
    exact ⟨(Overlay.lists_addEdges o added s).trans hs.1, hs.2⟩
  obtain ⟨h₂, ⟨added', ho'⟩, hvertices'⟩ := h₁.connectOnce hbare arriving
    (data [b.position, x.position] true) (hseated hr) (hseated hstation) (Or.inr rfl)
    ⟨rfl, rfl⟩ ⟨rfl, rfl, rfl⟩
    (by rw [Fits, hvertices]; exact ⟨hlt.2, hlt.1, Nat.le_refl 2⟩)
    (connectUnless (· == .connector .bikeRental) v (seat g v r)
      (data [x.position, b.position] false) (g', 0)).2
    (Linking.connectOnce .bikeRental (o, 0) leaving).2
  rw [connect_eq hx hb]
  refine ⟨h₂, hvertices'.trans hvertices, added ++ added', ho'.trans ?_⟩
  rw [ho, Overlay.addEdges_append]

omit [Scalar α] in
theorem edge?_eq (h : Matched g v done g' o) {e : Edge α} (he : e ∈ g.edges)
    (hwhole : e.number ∉ done.map (·.parent.number)) : g'.edge? e.number = some e := by
  obtain ⟨new, -, hedges⟩ := h.edges
  refine h.sound.edge?_eq_some_iff.2 ⟨?_, rfl⟩
  rw [hedges]
  refine List.mem_append_right _ (List.mem_filter.2 ⟨he, ?_⟩)
  simpa using hwhole

omit [Scalar α] in
theorem vertices_size (h : Matched g v done g' o) :
    g'.vertices.size = g.vertices.size + done.length := by
  have hlength := congrArg List.length h.vertices
  simpa using hlength

omit [Scalar α] in
theorem vertex?_eq (h : Matched g v done g' o) {w : Nat} {x : Vertex α}
    (hx : g.vertex? w = some x) : g'.vertex? w = some x :=
  vertex?_mono (h.vertices ▸ List.prefix_append _ _) hx

omit [Scalar α] in
theorem seated_withCut {r : VertexRef} (hr : Seated g v o r) (halves : Halves α) :
    Seated g v (withCut o .both halves) r :=
  ⟨(grows_withCut o .both halves).lists hr.1, hr.2⟩

omit [Scalar α] in
theorem seated_nextVertex (halves : Halves α) :
    Seated g v (withCut o .both halves) (.temporary (nextVertex o)) :=
  ⟨lists_nextVertex_withCut o .both halves, fun w hw => by cases hw⟩

omit [Scalar α] in
theorem seated_end (hsound : Sound g) (hbare : Bare g v) {e : Edge α} (he : e ∈ g.edges)
    {w : Nat} (hw : w = e.source ∨ w = e.target) (o : Overlay α) :
    Seated g v o (.permanent w) := by
  refine ⟨rfl, fun w' hw' => ?_⟩
  obtain rfl := VertexRef.permanent.inj hw'
  obtain ⟨hsource, htarget⟩ := hsound.ends e he
  obtain ⟨hsource', htarget'⟩ := hbare.apart e he
  rcases hw with rfl | rfl
  · exact ⟨hsource, hsource'⟩
  · exact ⟨htarget, htarget'⟩

omit [Scalar α] in
theorem nextVertex_eq (h : Matched g v done g' o) : nextVertex o = ⟨o.id, done.length + 1⟩ := by
  rw [nextVertex, h.size]

omit [Scalar α] in
theorem seat_nextVertex (h : Matched g v done g' o) :
    seat g v (.temporary (nextVertex o)) = g'.vertices.size := by
  rw [h.vertices_size, h.nextVertex_eq]
  rfl

/-- Splitting an edge in the graph is like cutting it in the overlay. -/
theorem cut (h : Matched g v done g' o) (hsound : Sound g) (hbare : Bare g v) {e : Edge α}
    (he : e ∈ g.edges) (hlinkable : e.kind.isLinkable = true)
    (hwhole : e.number ∉ done.map (·.parent.number))
    {location : Location α} {halves : Halves α} (hh : halve g e.number location = .ok halves) :
    Matched g v (done ++ [halves]) (split g' e.number location).state
      (withCut o .both halves) := by
  have hedge : g.edge? e.number = some e := hsound.edge?_eq_some_iff.2 ⟨he, rfl⟩
  have hh' : halve g' e.number location = .ok halves :=
    (halve_congr ((h.edge?_eq he hwhole).trans hedge.symm) location).trans hh
  obtain ⟨hparent, l₁, l₂, m, n, hfirst, hsecond, -, -, -, -⟩ := halve_eq_ok hh
  obtain rfl : e = halves.parent := Option.some.inj (hedge.symm.trans hparent)
  obtain ⟨hsound', first, second, hsplits⟩ := sound_and_splits h.sound hh'
  obtain ⟨new, hmirrors, hedges⟩ := h.edges
  have hedges' := edges_withCut o .both halves
  -- the graph lists the latest edge first, and the overlay the earliest one
  refine ⟨⟨?_, ?_, ⟨second :: first :: new, ?_, ?_⟩, ?_⟩, hsound',
    (grows_withCut o .both halves).registered h.registered, ?_, ?_⟩
  · rw [hsplits.vertices, Array.toList_push, h.vertices, List.map_append, List.append_assoc]
    rfl
  · have hnonempty : o.vertices ≠ [] := by
      intro hnil
      have hsize := h.size
      rw [hnil] at hsize
      cases hsize
    rw [vertices_withCut, List.tail_append_of_ne_nil hnonempty, h.cuts, List.map_append]
    rfl
  · have hkind : KindAlike g halves.parent.kind (.part halves.parent.number) :=
      ⟨hlinkable, halves.parent, hedge, rfl⟩
    simp only [List.reverse_cons, List.append_assoc, List.cons_append, List.nil_append]
    rw [hedges']
    refine List.rel_append hmirrors (.cons ?_ (.cons ?_ .nil))
    · refine mirrors_of_place (h.seat_nextVertex ▸ hsplits.first_place) ?_ ?_
      · rw [hfirst]
        exact hkind
      · rw [hfirst]
        exact ⟨rfl, rfl, rfl⟩
    · refine mirrors_of_place (h.seat_nextVertex ▸ hsplits.second_place) ?_ ?_
      · rw [hsecond]
        exact hkind
      · rw [hsecond]
        exact ⟨rfl, rfl, rfl⟩
  · rw [hsplits.edges, h.sound.filter_edges he hwhole hedges, List.map_append]
    rfl
  · have hkept : (keptHalves .both halves (nextVertex o)).filter (·.kind.part?.isSome) =
        keptHalves .both halves (nextVertex o) := rfl
    have hlast : [halves].zipIdx (0 + done.length) = [(halves, done.length)] := by
      rw [Nat.zero_add, List.zipIdx_singleton]
    rw [hedges', List.filter_append, hkept, h.parts, h.nextVertex_eq, id_withCut,
      List.zipIdx_append, List.flatMap_append, hlast, List.flatMap_singleton]
  · rw [vertices_withCut, List.length_append, h.size, List.length_append]
    rfl
  · intro d hd
    rw [hedges'] at hd
    rcases List.mem_append.1 hd with hd | hd
    · exact ⟨seated_withCut (h.ends d hd).1 halves, seated_withCut (h.ends d hd).2 halves⟩
    · rcases List.mem_pair.1 hd with rfl | rfl
      · exact ⟨seated_end hsound hbare he (Or.inl rfl) _, seated_nextVertex halves⟩
      · exact ⟨seated_nextVertex halves, seated_end hsound hbare he (Or.inr rfl) _⟩

end Matched

/-! ## One edge after the other -/

omit [Scalar α] in
theorem matched_start {g : Streets α} (hsound : Sound g) (v : Nat) (id : OverlayId)
    (station : TempVertex α) : Matched g v [] g (({ id } : Overlay α).addVertex station).1 where
  vertices := (List.append_nil _).symm
  cuts := rfl
  edges := ⟨[], .nil, by simp⟩
  parts := rfl
  sound := hsound
  registered := (Overlay.registered_empty id).addVertex station
  size := rfl
  ends := by simp [Overlay.addVertex]

def rentalEntity (v : Nat) (x : Vertex α) : Entity α :=
  ⟨v, .bikeRental, x.label, x.position⟩

def stationGuest (id : OverlayId) (position : Point α) : Guest α :=
  ⟨⟨id, 0⟩, .bikeStation, position⟩

section Attaches

variable (settings : Settings) {g : Streets α} (hsound : Sound g) {v : Nat} {x : Vertex α}
  (hx : g.vertex? v = some x) (hbare : Bare g v)

include hsound hx hbare

/-- Both use an edge in the same way, and are alike afterwards. -/
theorem Matched.step {done : List (Halves α)} {g' : Streets α} {o : Overlay α}
    (h : Matched g v done g' o) {u : Use α} (hlive : u.edge ∈ g.edges)
    (hlinkable : u.edge.kind.isLinkable = true)
    (hplan : plan g u.edge.number x.position (Frame.around x.position)
      (Scalar.ofDouble settings.endpointSnap) = .ok u.attachment)
    (hwhole : u.edge.number ∉ done.map (·.parent.number)) :
    ∃ g₁ o₁, Attaches settings (rentalEntity v x) g' [u] g₁ ∧
      AttachesIn settings g (stationGuest o.id x.position) ⟨o, none⟩ [u] ⟨o₁, none⟩ ∧
      o₁.id = o.id ∧ Matched g v (done ++ halvesOf g [u]) g₁ o₁ := by
  obtain ⟨e, attachment⟩ := u
  have hedge : g.edge? e.number = some e := hsound.edge?_eq_some_iff.2 ⟨hlive, rfl⟩
  have hedge' := h.edge?_eq hlive hwhole
  have hplan' := (plan_congr (hedge'.trans hedge.symm) x.position (Frame.around x.position)
    (Scalar.ofDouble settings.endpointSnap)).trans hplan
  -- the plan is the same for both, so they snap to one end or both cut the edge
  rcases attach_cases h.sound hedge' settings (Frame.around x.position) (rentalEntity v x) with
    ⟨w, hend, hw, hattach⟩ | ⟨location, halves, hcut, hh, -, hattach | ⟨hrole, -⟩⟩
  · obtain rfl : attachment = .endpoint w := Except.ok.inj (hplan'.symm.trans hend)
    obtain ⟨b, hb⟩ := exists_vertex?_of_end hsound hlive hw
    obtain ⟨hmatched, -, edges, ho⟩ := h.connect hbare (h.vertex?_eq hx)
      (Matched.seated_end hsound hbare hlive hw o) (h.vertex?_eq hb)
    have hattachIn : attachIn settings g (stationGuest o.id x.position) ⟨o, none⟩ e.number =
        .ok (.permanent w) ⟨o, none⟩ := by
      simp only [attachIn, stationGuest, hplan]
    have hposition : View.position? ⟨g, [o]⟩ (.permanent w) = some b.position := by
      simp only [View.position?, Streets.position?, hb, Option.map_some]
    refine ⟨_, _, .cons hedge' hplan' hattach (.nil _),
      .cons hedge hplan hattachIn hposition (.nil _), ?_, ?_⟩
    · exact (congrArg (·.id) ho).trans (Overlay.id_addEdges o _)
    · rw [halvesOf_cons_endpoint]
      exact (List.append_nil done).symm ▸ hmatched
  · obtain rfl : attachment = .cut location := Except.ok.inj (hplan'.symm.trans hcut)
    have hh₀ : halve g e.number location = .ok halves :=
      (halve_congr (hedge.trans hedge'.symm) location).trans hh
    have hcutMatched := h.cut hsound hbare hlive hlinkable hwhole hh₀
    obtain ⟨-, first, second, hsplits⟩ := sound_and_splits h.sound hh
    have hnew : (split g' e.number location).state.vertex? (seat g v (.temporary (nextVertex o))) =
        some (splitVertex halves) := by
      rw [h.seat_nextVertex, Streets.vertex?, hsplits.vertices, Array.getElem?_push_size]
    obtain ⟨hmatched, -, edges, ho⟩ := hcutMatched.connect hbare (hcutMatched.vertex?_eq hx)
      (Matched.seated_nextVertex halves) hnew
    rw [h.seat_nextVertex] at hmatched
    have hattachIn : attachIn settings g (stationGuest o.id x.position) ⟨o, none⟩ e.number =
        .ok (.temporary (nextVertex o)) ⟨withCut o .both halves, none⟩ := by
      simp only [attachIn, stationGuest, hplan, Draft.record, Outcome.andThen_ok]
      have hside : Role.bikeStation.side = .both := rfl
      rw [hside, cutIn_of_halve hh₀]
      rfl
    refine ⟨_, _, .cons hedge' hplan' hattach (.nil _),
      .cons hedge hplan hattachIn (position?_withCut g o .both halves) (.nil _), ?_, ?_⟩
    · exact (congrArg (·.id) ho).trans ((Overlay.id_addEdges _ _).trans (id_withCut o _ _))
    · rw [halvesOf_cons_cut hh₀]
      exact hmatched
  · cases hrole

theorem Matched.attaches {done : List (Halves α)} {g' : Streets α} {o : Overlay α}
    (h : Matched g v done g' o) {uses : List (Use α)}
    (hlive : ∀ u ∈ uses, u.edge ∈ g.edges ∧ u.edge.kind.isLinkable = true)
    (hplans : ∀ u ∈ uses, plan g u.edge.number x.position (Frame.around x.position)
      (Scalar.ofDouble settings.endpointSnap) = .ok u.attachment)
    (hdistinct : (uses.map (·.edge.number)).Nodup)
    (hwhole : ∀ u ∈ uses, u.edge.number ∉ done.map (·.parent.number)) :
    ∃ g₁ o₁, Attaches settings (rentalEntity v x) g' uses g₁ ∧
      AttachesIn settings g (stationGuest o.id x.position) ⟨o, none⟩ uses ⟨o₁, none⟩ ∧
      Matched g v (done ++ halvesOf g uses) g₁ o₁ := by
  induction uses generalizing done g' o with
  | nil => exact ⟨g', o, .nil _, .nil _, (List.append_nil done).symm ▸ h⟩
  | cons u rest ih =>
    obtain ⟨hhere, hlater⟩ := List.forall_mem_cons.1 hlive
    obtain ⟨hplan, hplans⟩ := List.forall_mem_cons.1 hplans
    obtain ⟨hnew, hwhole⟩ := List.forall_mem_cons.1 hwhole
    obtain ⟨hdiffers, hdistinct⟩ := List.nodup_cons.1 hdistinct
    obtain ⟨g₁, o₁, hstep, hstepIn, hid, hmatched⟩ :=
      h.step settings hsound hx hbare hhere.1 hhere.2 hplan hnew
    have hlaterWhole : ∀ w ∈ rest,
        w.edge.number ∉ (done ++ halvesOf g [u]).map (·.parent.number) := by
      intro w hw hcut
      rw [List.map_append] at hcut
      rcases List.mem_append.1 hcut with hcut | hcut
      · exact hwhole w hw hcut
      · have hsame := List.mem_singleton.1 (number_of_mem_halvesOf hcut)
        exact hdiffers (List.mem_map.2 ⟨w, hw, hsame⟩)
    obtain ⟨g₂, o₂, hrest, hrestIn, hend⟩ := ih hmatched hlater hplans hdistinct hlaterWhole
    rw [hid] at hrestIn
    rw [List.append_assoc, ← halvesOf_append] at hend
    exact ⟨g₂, o₂, hstep.append hrest, hstepIn.append hrestIn, hend⟩

end Attaches

/-! ## The edges of a point -/

theorem plan_of_mem_usesOf {settings : Settings} {g : Streets α} {position : Point α} {mode : Mode}
    {u : Use α} (hu : u ∈ usesOf settings g position mode) :
    plan g u.edge.number position (Frame.around position)
      (Scalar.ofDouble settings.endpointSnap) = .ok u.attachment := by
  obtain ⟨t, -, heq⟩ := List.mem_filterMap.1 hu
  split at heq
  · next attachment hplan =>
    obtain rfl := Option.some.inj heq
    exact hplan
  · cases heq

theorem edges_usesOf {g : Streets α} (hreached : Reached g) (settings : Settings)
    (position : Point α) (mode : Mode) :
    (usesOf settings g position mode).map (·.edge) =
      (targets settings g position mode).map (·.item) := by
  rw [usesOf, List.map_filterMap, ← List.filterMap_eq_map]
  refine List.filterMap_congr fun t ht => ?_
  obtain ⟨hlive, -⟩ := hreached.live_of_mem_targets settings position mode ht
  have hedge := hreached.sound.edge?_eq_some_iff.2 ⟨hlive, rfl⟩
  rcases plan_cases hedge position (Frame.around position)
    (Scalar.ofDouble settings.endpointSnap) with ⟨w, hplan, -⟩ | ⟨location, hplan⟩
  · rw [hplan]
    rfl
  · rw [hplan]
    rfl

/-! ## A rental station and a reported one -/

theorem Attaches.link_eq {settings : Settings} {g g' : Streets α} {v : Nat} {x : Vertex α}
    {uses : List (Use α)} {mode : Mode} (h : Attaches settings (rentalEntity v x) g uses g')
    (hx : g.vertex? v = some x) (hrole : x.kind.role? = some .bikeRental)
    (hnumbers : uses.map (·.edge.number) =
      (targets settings g x.position mode).map (·.item.number)) :
    link settings g v mode = .ok (!(targets settings g x.position mode).isEmpty) g' := by
  have hall := h.attachAll_eq
  rw [hnumbers] at hall
  rw [Linking.link_eq hx hrole, linkEntity]
  unfold rentalEntity at hall
  cases htargets : targets settings g x.position mode with
  | nil =>
    obtain rfl : g = g' := by
      rw [htargets] at hall
      exact congrArg Outcome.state hall
    rfl
  | cons first rest =>
    have hnear : warnFar settings ⟨v, .bikeRental, x.label, x.position⟩ first.distance g = g := rfl
    simp only [htargets, hnear] at hall ⊢
    rw [hall]
    rfl

theorem AttachesIn.linkGuest_eq {settings : Settings} {g : Streets α} {guest : Guest α}
    {uses : List (Use α)} {mode : Mode} {d d' : Draft α}
    (h : AttachesIn settings g guest d uses d') (hend : guest.role.isSearchEnd = false)
    (hnumbers : uses.map (·.edge.number) =
      (targets settings g guest.position mode).map (·.item.number)) :
    linkGuest settings g guest mode d =
      .ok (!(targets settings g guest.position mode).isEmpty) d' := by
  have hall := h.attachAllIn_eq
  rw [hnumbers] at hall
  unfold linkGuest
  cases htargets : targets settings g guest.position mode with
  | nil =>
    obtain rfl : d = d' := by
      rw [htargets] at hall
      exact congrArg Outcome.state hall
    unfold targets at htargets
    simp only [htargets, hend]
    rfl
  | cons first rest =>
    rw [htargets] at hall
    unfold targets at htargets
    simp only [htargets, hall]
    rfl

def stationDraft (id : OverlayId) (key : Fleet.Key) (name : String) (position : Point α) :
    Draft α :=
  ⟨(({ id } : Overlay α).addVertex ⟨.entity key .bikeStation, name, position⟩).1, none⟩

theorem linkDescriptor_bikeStation {settings : Settings} {g : Streets Float} {id : OverlayId}
    {key : Fleet.Key} {name : String} {position : Point Float} {linked : Bool} {d : Draft Float}
    (h : linkGuest settings g (stationGuest id position) .walk (stationDraft id key name position) =
      .ok linked d) (capacity : Nat) :
    Fleet.linkDescriptor settings g id (.bikeStation key name capacity position) =
      if linked then some ⟨⟨id, 0⟩, d.overlay, d.overlay.streetVertices⟩ else none := by
  let station : Fleet.Descriptor := .bikeStation key name capacity position
  have hlinked : linkGuest settings g (Fleet.entityGuest id station) station.kind.linkingMode
      ⟨Fleet.entityOverlay id station, none⟩ = .ok linked d := h
  rw [Fleet.linkDescriptor_eq, hlinked]
  cases linked <;> rfl

/-- A rental station without connectors and a station that is reported at its place are both linked
or both not. They are linked to the same edges in the same order, and attach to each of them in the
same way. The graph then has, on top of what was there, the same halves and the same connectors as
the overlay. -/
theorem linked_alike (events : List (Event Float)) (settings : Settings) {v : Nat}
    {x : Vertex Float} {rental : String} (id : OverlayId) (key : Fleet.Key) (name : String)
    (capacity : Nat) (hstreets : OnStreets (run .empty events))
    (hx : (run .empty events).vertex? v = some x) (hrental : x.kind = .bikeRental rental)
    (hfree : ∀ e ∈ (run .empty events).edges, e.kind.isLinkable = false →
      e.source ≠ v ∧ e.target ≠ v) :
    let g := run .empty events
    let linked := link settings g v .walk
    let station := Fleet.linkDescriptor settings g id (.bikeStation key name capacity x.position)
    let wanted := targets settings g x.position .walk
    let uses := usesOf settings g x.position .walk
    uses.map (·.edge) = wanted.map (·.item) ∧
    linked.answer = .ok station.isSome ∧ station.isSome = !wanted.isEmpty ∧
    ∀ l, station = some l →
      Attaches settings (rentalEntity v x) g uses linked.state ∧
      AttachesIn settings g (stationGuest id x.position) (stationDraft id key name x.position) uses
        ⟨l.overlay, none⟩ ∧
      l.vertex = ⟨id, 0⟩ ∧ Alike g v (halvesOf g uses) linked.state l.overlay := by
  intro g linked station wanted uses
  have hreached : Reached g := reached_run events
  have hrole : x.kind.role? = some .bikeRental := by
    rw [hrental]
    rfl
  have huses : uses.map (·.edge) = wanted.map (·.item) :=
    edges_usesOf hreached settings x.position .walk
  have hnumbers : uses.map (·.edge.number) = wanted.map (·.item.number) := by
    have h := congrArg (List.map (·.number)) huses
    rwa [List.map_map, List.map_map] at h
  have hbare : Bare g v := by
    refine ⟨(Array.getElem?_eq_some_iff.1 hx).1, fun e he => ?_⟩
    cases hopen : e.kind.isLinkable with
    | false => exact hfree e he hopen
    | true => exact hstreets.apart (not_isStreet hx hrole) he hopen
  have hlive : ∀ u ∈ uses, u.edge ∈ g.edges ∧ u.edge.kind.isLinkable = true := by
    intro u hu
    have hmem := List.mem_map_of_mem (f := (·.edge)) hu
    rw [huses] at hmem
    obtain ⟨t, ht, hitem⟩ := List.mem_map.1 hmem
    exact hitem ▸ hreached.live_of_mem_targets settings x.position .walk ht
  obtain ⟨g₁, o₁, hattaches, hattachesIn, hmatched⟩ :=
    (matched_start hreached.sound v id ⟨.entity key .bikeStation, name, x.position⟩).attaches
      settings hreached.sound hx hbare hlive (fun u hu => plan_of_mem_usesOf hu)
      (hnumbers ▸ hreached.nodup_targets settings x.position .walk) (by simp)
  have hlink : linked = .ok (!wanted.isEmpty) g₁ := hattaches.link_eq hx hrole hnumbers
  have hstation : station = if !wanted.isEmpty then some ⟨⟨id, 0⟩, o₁, o₁.streetVertices⟩ else none :=
    linkDescriptor_bikeStation (hattachesIn.linkGuest_eq rfl hnumbers) capacity
  have hsome : station.isSome = !wanted.isEmpty := by
    rw [hstation]
    cases wanted <;> rfl
  rw [hlink, hsome]
  refine ⟨huses, rfl, rfl, fun l hl => ?_⟩
  obtain rfl : (⟨⟨id, 0⟩, o₁, o₁.streetVertices⟩ : Fleet.EntityLink) = l := by
    rw [hl, Option.isSome_some] at hsome
    rw [hl, ← hsome] at hstation
    exact (Option.some.inj hstation).symm
  exact ⟨hattaches, hattachesIn, rfl, hmatched.toAlike⟩

theorem onStreets_meridian : OnStreets (run .empty meridian) where
  edges := by
    intro e he _
    have hedges : (run .empty meridian).edges = [meridianEdge] := rfl
    rw [hedges, List.mem_singleton] at he
    subst he
    exact ⟨⟨_, rfl, rfl⟩, ⟨_, rfl, rfl⟩⟩
  areas := by
    intro a ha
    have hareas : (run .empty meridian).areas = [] := rfl
    simp [hareas] at ha

theorem linked_alike_on_the_meridian :
    let g := run .empty meridian
    let station := Fleet.linkDescriptor onTheSpot g ⟨0, 0⟩
      (.bikeStation ⟨"feed", "B"⟩ "Station" 1 ⟨0.0, 0.5⟩)
    (link onTheSpot g 3 .walk).answer = .ok true ∧
      (usesOf onTheSpot g ⟨0.0, 0.5⟩ .walk).map (·.edge) = [meridianEdge] ∧
      ∃ l, station = some l ∧
        Alike g 3 (halvesOf g (usesOf onTheSpot g ⟨0.0, 0.5⟩ .walk))
          (link onTheSpot g 3 .walk).state l.overlay := by
  intro g station
  have hfree : ∀ e ∈ g.edges, e.kind.isLinkable = false → e.source ≠ 3 ∧ e.target ≠ 3 := by
    intro e he hconnector
    have hedges : g.edges = [meridianEdge] := rfl
    rw [hedges, List.mem_singleton] at he
    subst he
    cases hconnector
  obtain ⟨huses, hanswer, hsome, halike⟩ := linked_alike meridian onTheSpot
    (x := ⟨.bikeRental "B", "Station", ⟨0.0, 0.5⟩⟩) ⟨0, 0⟩ ⟨"feed", "B"⟩ "Station" 1
    onStreets_meridian rfl rfl hfree
  have htargets : targets onTheSpot g ⟨0.0, 0.5⟩ .walk = [⟨meridianEdge, 0.0⟩] :=
    targets_meridian (Or.inr (Or.inr rfl))
  have hlinked : station.isSome = true := hsome.trans (by rw [htargets]; rfl)
  obtain ⟨l, hl⟩ := Option.isSome_iff_exists.1 hlinked
  refine ⟨hanswer.trans (congrArg Except.ok hlinked), ?_, l, hl, (halike l hl).2.2.2⟩
  rw [huses, htargets]
  rfl

end StreetLinking.Linking
