import StreetLinking.Linking.Temporary
import StreetLinking.Proofs.Linking.Changes
import StreetLinking.Proofs.Temporary.Listing
/-!
# What linking in an overlay does with one edge

A point is linked to its nearest edges one after the other. With each of them it is connected with
an end of the edge, or the gate refuses the edge, or the edge is cut in the overlay and the point is
connected with the vertex of the cut. Main statement: in a sound graph nothing else happens, so the
only fault is that of the gate.
-/

namespace StreetLinking.Linking

open Number Plane Street Streets Temporary

variable {α : Type} [Scalar α]

/-! ## Planning -/

def cuts (settings : Settings) (g : Streets α) (position : Point α) (number : Nat) : Bool :=
  match plan g number position (Frame.around position) (Scalar.ofDouble settings.endpointSnap) with
  | .ok (.cut _) => true
  | _ => false

theorem plan_cases {g : Streets α} {number : Nat} {e : Edge α} (hedge : g.edge? number = some e)
    (point : Point α) (frame : Frame α) (snap : α) :
    (∃ v, plan g number point frame snap = .ok (.endpoint v) ∧ (v = e.source ∨ v = e.target)) ∨
      ∃ location, plan g number point frame snap = .ok (.cut location) := by
  simp only [plan, hedge]
  split
  · exact Or.inl ⟨_, rfl, Or.inl rfl⟩
  · split
    · exact Or.inl ⟨_, rfl, Or.inr rfl⟩
    · exact Or.inr ⟨_, rfl⟩

theorem plan_eq_cut {g : Streets α} {number : Nat} {e : Edge α} (hedge : g.edge? number = some e)
    {point : Point α} {frame : Frame α} {snap : α} {location : Location α}
    (hplan : plan g number point frame snap = .ok (.cut location)) :
    location = frame.locate point e.line := by
  simp only [plan, hedge] at hplan
  split at hplan
  · cases hplan
  · split at hplan
    · cases hplan
    · simpa [eq_comm] using hplan

/-! ## The parts of a step -/

omit [Scalar α] in
theorem exists_vertex?_of_end {g : Streets α} (hsound : Sound g) {e : Edge α}
    (he : e ∈ g.edges) {v : Nat} (hv : v = e.source ∨ v = e.target) :
    ∃ x, g.vertex? v = some x := by
  have hlt : v < g.vertices.size := by
    obtain ⟨hsource, htarget⟩ := hsound.ends e he
    rcases hv with rfl | rfl
    · exact hsource
    · exact htarget
  exact ⟨g.vertices[v], Array.getElem?_eq_getElem hlt⟩

/-- The halves of a cut that a side keeps, between the ends of the edge and the vertex of the
cut. -/
def keptHalves (side : Side) (h : Halves α) (v : LocalVertex) : List (TempEdge α) :=
  (if side.hasInbound then
    [partEdge (.permanent h.parent.source) (.temporary v) h.parent h.first] else []) ++
  (if side.hasOutbound then
    [partEdge (.temporary v) (.permanent h.parent.target) h.parent h.second] else [])

def cutVertex (side : Side) (h : Halves α) : TempVertex α :=
  ⟨.split h.parent.serial side, splitLabel h.parent, h.point⟩

def nextVertex (o : Overlay α) : LocalVertex :=
  ⟨o.id, o.vertices.length⟩

def withCut (o : Overlay α) (side : Side) (h : Halves α) : Overlay α :=
  (o.addVertex (cutVertex side h)).1.addEdges (keptHalves side h (nextVertex o))

theorem cutIn_of_halve {g : Streets α} {number : Nat} {location : Location α} {h : Halves α}
    (hh : halve g number location = .ok h) (o : Overlay α) (side : Side) :
    cutIn g o number location side = .ok (nextVertex o) (withCut o side h) := by
  rw [cutIn, hh]
  cases side <;> rfl

section WithCut

variable (o : Overlay α) (side : Side) (h : Halves α)

omit [Scalar α]

theorem id_withCut : (withCut o side h).id = o.id :=
  Overlay.id_addEdges _ _

theorem vertices_withCut : (withCut o side h).vertices = o.vertices ++ [cutVertex side h] :=
  Overlay.vertices_addEdges _ _

theorem edges_withCut :
    (withCut o side h).edges = o.edges ++ keptHalves side h (nextVertex o) :=
  Overlay.edges_addEdges _ _

theorem vertex?_withCut : (withCut o side h).vertex? (nextVertex o) = some (cutVertex side h) := by
  simp [withCut, nextVertex, Overlay.addVertex, Overlay.vertex?]

end WithCut

omit [Scalar α] in
theorem position?_withCut (g : Streets α) (o : Overlay α) (side : Side) (h : Halves α) :
    View.position? ⟨g, [withCut o side h]⟩ (.temporary (nextVertex o)) = some h.point := by
  simp only [View.position?, List.findSome?_cons, vertex?_withCut, Option.map_some]
  rfl

omit [Scalar α] in
theorem foldl_connectOnce_frame (kind : ConnectorKind) (es : List (TempEdge α))
    (s : Overlay α × Nat) :
    ∃ added, added.Sublist es ∧ (es.foldl (connectOnce kind) s).1 = s.1.addEdges added := by
  induction es generalizing s with
  | nil => exact ⟨[], .refl _, rfl⟩
  | cons e rest ih =>
    obtain ⟨added, hsub, heq⟩ := ih (connectOnce kind s e)
    rw [List.foldl_cons, heq]
    unfold connectOnce
    split
    · exact ⟨added, hsub.cons e, rfl⟩
    · exact ⟨e :: added, hsub.cons_cons e, rfl⟩

theorem connectIn_frame (o : Overlay α) (entity street : VertexRef × Point α) (role : Role) :
    ∃ added, added.Sublist (connectorsIn entity street role) ∧
      (connectIn o entity street role).1 = o.addEdges added :=
  foldl_connectOnce_frame role.connector.kind _ (o, 0)

theorem kind_of_mem_connectorsIn {entity street : VertexRef × Point α} {role : Role}
    {e : TempEdge α} (he : e ∈ connectorsIn entity street role) :
    e.kind = .connector role.connector.kind := by
  rcases List.mem_append.1 he with he | he
  · split at he
    · rw [List.mem_singleton.1 he]
    · simp at he
  · split at he
    · rw [List.mem_singleton.1 he]
    · simp at he

namespace Draft

def isCut (d : Draft α) (number : Nat) : Bool :=
  d.gate.any (·.isCut number)

def noted (d : Draft α) (number : Nat) : Draft α :=
  { d with gate := d.gate.map fun gate => ⟨number :: gate.cuts⟩ }

omit [Scalar α] in
theorem record_eq (d : Draft α) (number : Nat) :
    d.record number =
      if d.isCut number then .fail (.trivialPath number) d else .ok () (d.noted number) := by
  obtain ⟨overlay, _ | gate⟩ := d
  · rfl
  · have hgate : (⟨overlay, some gate⟩ : Draft α).isCut number = gate.isCut number := rfl
    rw [hgate]
    by_cases hcut : gate.isCut number = true
    · have hrecord : gate.record number = .fail (.trivialPath number) gate := if_pos hcut
      rw [if_pos hcut]
      simp only [record, hrecord]
      rfl
    · have hrecord : gate.record number = .ok () ⟨number :: gate.cuts⟩ := if_neg hcut
      rw [if_neg hcut]
      simp only [record, hrecord]
      rfl

omit [Scalar α] in
theorem isCut_noted (d : Draft α) (number n : Nat) :
    (d.noted number).isCut n = (d.gate.isSome && n == number || d.isCut n) := by
  obtain ⟨overlay, _ | gate⟩ := d
  · rfl
  · simp [noted, isCut, Gate.isCut, beq_eq_decide]

end Draft

/-! ## The step -/

def linkOne (settings : Settings) (g : Streets α) (guest : Guest α) (d : Draft α) (number : Nat) :
    Outcome (Draft α) Unit :=
  (attachIn settings g guest d number).andThen fun street d =>
    match View.position? ⟨g, [d.overlay]⟩ street with
    | none => .fail .unknownVertex d
    | some position => .ok () (connectGuest guest street position d)

theorem attachAllIn_cons (settings : Settings) (g : Streets α) (guest : Guest α) (d : Draft α)
    (number : Nat) (rest : List Nat) :
    attachAllIn settings g guest d (number :: rest) =
      (linkOne settings g guest d number).andThen fun _ d =>
        attachAllIn settings g guest d rest := by
  rw [attachAllIn, linkOne]
  generalize attachIn settings g guest d number = attached
  rcases attached with ⟨_ | street, d'⟩
  · rfl
  · simp only [Outcome.andThen]
    cases View.position? ⟨g, [d'.overlay]⟩ street <;> rfl

def cutAndConnect (guest : Guest α) (number : Nat) (h : Halves α) (d : Draft α) : Draft α :=
  connectGuest guest (.temporary (nextVertex d.overlay)) h.point
    { d.noted number with overlay := withCut d.overlay guest.role.side h }

/-- A live edge is snapped to, refused by the gate, or cut. -/
theorem linkOne_cases {g : Streets α} (hsound : Sound g) {number : Nat} {e : Edge α}
    (hedge : g.edge? number = some e) (settings : Settings) (guest : Guest α) (d : Draft α) :
    (∃ v x, plan g number guest.position (Frame.around guest.position)
          (Scalar.ofDouble settings.endpointSnap) = .ok (.endpoint v) ∧
        (v = e.source ∨ v = e.target) ∧ g.vertex? v = some x ∧
        linkOne settings g guest d number =
          .ok () (connectGuest guest (.permanent v) x.position d)) ∨
      ∃ location h, plan g number guest.position (Frame.around guest.position)
          (Scalar.ofDouble settings.endpointSnap) = .ok (.cut location) ∧
        halve g number location = .ok h ∧ h.parent = e ∧
        linkOne settings g guest d number =
          if d.isCut number then .fail (.trivialPath number) d
          else .ok () (cutAndConnect guest number h d) := by
  obtain ⟨hlive, -⟩ := hsound.edge?_eq_some_iff.1 hedge
  rcases plan_cases hedge guest.position (Frame.around guest.position)
    (Scalar.ofDouble settings.endpointSnap) with ⟨v, hplan, hend⟩ | ⟨location, hplan⟩
  · obtain ⟨x, hx⟩ := exists_vertex?_of_end hsound hlive hend
    have hposition : View.position? ⟨g, [d.overlay]⟩ (.permanent v) = some x.position := by
      simp only [View.position?, Streets.position?, hx, Option.map_some]
    refine Or.inl ⟨v, x, hplan, hend, hx, ?_⟩
    simp only [linkOne, attachIn, hplan, Outcome.andThen_ok, hposition]
  · obtain ⟨h, hh, hparent⟩ := exists_halve hsound hedge location
    refine Or.inr ⟨location, h, hplan, hh, hparent, ?_⟩
    simp only [linkOne, attachIn, hplan, Draft.record_eq]
    split
    · rfl
    · simp only [Outcome.andThen, Outcome.ok, Draft.noted, cutIn_of_halve hh, Except.map,
        position?_withCut]
      rfl

end StreetLinking.Linking
