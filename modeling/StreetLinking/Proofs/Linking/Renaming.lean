import StreetLinking.Proofs.Linking.Mounting
/-!
# Linking does not look at the identity of an overlay

An overlay gives its identity to the names of its vertices. Where it links a point on its own, the
identity decides nothing: an overlay with another identity gets the same vertices and edges under
the other names. Main statement: linking a guest and renaming its overlay commute.
-/

namespace StreetLinking.Temporary

open Street

variable {α : Type}

/-! ## Renaming -/

def LocalVertex.renamed (id : OverlayId) (v : LocalVertex) : LocalVertex :=
  { v with overlay := id }

def VertexRef.renamed (id : OverlayId) : VertexRef → VertexRef
  | .permanent v => .permanent v
  | .temporary v => .temporary (v.renamed id)

def TempEdge.renamed (id : OverlayId) (e : TempEdge α) : TempEdge α :=
  { e with source := e.source.renamed id, target := e.target.renamed id }

def Overlay.renamed (id : OverlayId) (o : Overlay α) : Overlay α :=
  (({ id } : Overlay α).addVertices o.vertices).addEdges (o.edges.map (·.renamed id))

/-! ## Renaming puts an overlay on top of an empty one -/

theorem LocalVertex.on_empty (id : OverlayId) (v : LocalVertex) :
    v.on ({ id } : Overlay α) = v.renamed id := by
  simp only [LocalVertex.on, renamed, List.length_nil, Nat.zero_add]

theorem VertexRef.on_empty (id : OverlayId) (r : VertexRef) :
    r.on ({ id } : Overlay α) = r.renamed id := by
  cases r with
  | permanent v => rfl
  | temporary v => exact congrArg temporary (v.on_empty id)

theorem Overlay.on_empty (id : OverlayId) (o : Overlay α) : o.on { id } = o.renamed id := by
  have hedge (e : TempEdge α) : e.on ({ id } : Overlay α) = e.renamed id := by
    simp only [TempEdge.on, VertexRef.on_empty, TempEdge.renamed]
  simp only [Overlay.on, renamed, hedge]

theorem Overlay.streetVertices_renamed (id : OverlayId) (o : Overlay α) :
    (o.renamed id).streetVertices = o.streetVertices := by
  refine streetVertices_congr fun v => ?_
  have hsame (r : VertexRef) : r.renamed id = .permanent v ↔ r = .permanent v := by
    cases r <;> simp [VertexRef.renamed]
  simp [Meets, renamed, TempEdge.renamed, hsame]

end StreetLinking.Temporary

namespace StreetLinking.Linking

open Number Plane Street Nearest Temporary

variable {α : Type} [Scalar α] (other : OverlayId)

def Draft.renamed (d : Draft α) : Draft α :=
  { d with overlay := d.overlay.renamed other }

def Guest.renamed (guest : Guest α) : Guest α :=
  { guest with vertex := guest.vertex.renamed other }

omit [Scalar α] in
theorem Draft.on_empty (d : Draft α) : d.on { id := other } [] = d.renamed other := by
  obtain ⟨overlay, gate⟩ := d
  have hgate : (gate.map fun gate => (⟨gate.cuts ++ []⟩ : Gate)) = gate := by
    simp only [List.append_nil, Option.map_id']
  simp only [Draft.on, renamed, overlay.on_empty, hgate]

omit [Scalar α] in
theorem Guest.on_empty (guest : Guest α) : guest.on { id := other } = guest.renamed other := by
  simp only [Guest.on, renamed, LocalVertex.on_empty]

/-- Linking a guest in an overlay with another identity gives the same overlay under that
identity. -/
theorem linkGuest_renamed (settings : Settings) (g : Streets α) (guest : Guest α) (mode : Mode)
    {d : Draft α} (h : d.overlay.Registered)
    (hguest : d.overlay.lists (.temporary guest.vertex) = true) :
    linkGuest settings g (guest.renamed other) mode (d.renamed other) =
      ⟨(linkGuest settings g guest mode d).answer,
        (linkGuest settings g guest mode d).state.renamed other⟩ := by
  have hon := linkGuest_on settings g (Overlay.registered_empty other) guest mode
    (fun n _ _ => List.not_mem_nil (a := n)) h hguest
  rwa [Guest.on_empty, Draft.on_empty, Draft.on_empty] at hon

end StreetLinking.Linking
