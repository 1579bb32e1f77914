import StreetLinking.Linking.Halves
import StreetLinking.Nearest.Search
import StreetLinking.Temporary.View
/-!
# Linking points in overlays

Once the street graph is in use it is not changed any more. A point that is not part of it is linked
in an overlay: an edge that it would cut stays whole, and the overlay holds a vertex and the halves
that the point can use. The ends of a search that find no street are connected straight to the
nearest stops. A search cuts no edge twice; the edges that it has cut are its gate.
-/
namespace StreetLinking.Linking

open Number Plane Street Nearest Temporary

variable {α : Type} [Scalar α]

/-! ## The gate -/

/-- The edges that a search has cut. -/
structure Gate where
  cuts : List Nat := []
deriving DecidableEq

namespace Gate

def isCut (gate : Gate) (edge : Nat) : Bool :=
  gate.cuts.contains edge

/-- Records the cut of an edge, unless it has been cut already. -/
def record (gate : Gate) (edge : Nat) : Outcome Gate Unit :=
  if gate.isCut edge then .fail (.trivialPath edge) gate
  else .ok () ⟨edge :: gate.cuts⟩

end Gate

/-! ## Cutting and connecting in an overlay -/

def partEdge (source target : VertexRef) (parent : Edge α) (half : EdgeData α) : TempEdge α :=
  ⟨source, target, .part parent.number, parent.permission, half.lengthMm, half.line⟩

/-- Cuts an edge in an overlay: adds a vertex and the halves of the side. The edge itself stays
whole. -/
def cutIn (g : Streets α) (o : Overlay α) (number : Nat) (location : Location α) (side : Side) :
    Outcome (Overlay α) LocalVertex :=
  match halve g number location with
  | .error fault => .fail fault o
  | .ok h =>
    let (o, v) := o.addVertex ⟨.split h.parent.serial side, splitLabel h.parent, h.point⟩
    let inbound := partEdge (.permanent h.parent.source) (.temporary v) h.parent h.first
    let outbound := partEdge (.temporary v) (.permanent h.parent.target) h.parent h.second
    let o := if side.hasInbound then o.addEdge inbound else o
    .ok v (if side.hasOutbound then o.addEdge outbound else o)

/-- Adds a connector unless one of its kind leads the same way, and counts it. -/
def connectOnce (kind : ConnectorKind) (s : Overlay α × Nat) (e : TempEdge α) : Overlay α × Nat :=
  if s.1.hasConnector e.source e.target kind then s else (s.1.addEdge e, s.2 + 1)

def connectorsIn (entity street : VertexRef × Point α) (role : Role) : List (TempEdge α) :=
  let rule := role.connector
  let length := millimetres (metresBetween entity.2 street.2)
  let edge (a b : VertexRef × Point α) : TempEdge α :=
    ⟨a.1, b.1, .connector rule.kind, rule.permission, length, [a.2, b.2]⟩
  (if rule.direction.leaves then [edge entity street] else []) ++
    (if rule.direction.arrives then [edge street entity] else [])

def connectIn (o : Overlay α) (entity street : VertexRef × Point α) (role : Role) :
    Overlay α × Nat :=
  (connectorsIn entity street role).foldl (connectOnce role.connector.kind) (o, 0)

/-! ## Linking a vertex of an overlay -/

/-- What linking a point works on: an overlay, and the gate of the search if there is one. -/
structure Draft (α : Type) where
  overlay : Overlay α
  gate : Option Gate

namespace Draft

variable {α : Type}

def record (d : Draft α) (edge : Nat) : Outcome (Draft α) Unit :=
  match d.gate with
  | none => .ok () d
  | some gate =>
    let r := gate.record edge
    ⟨r.answer, { d with gate := some r.state }⟩

theorem record_overlay (d : Draft α) (edge : Nat) :
    (d.record edge).state.overlay = d.overlay := by
  unfold record
  cases d.gate <;> rfl

end Draft

structure Guest (α : Type) where
  vertex : LocalVertex
  role : Role
  position : Point α

/-- Where a point attaches to an edge: an end of the edge, or a new vertex of the overlay that cuts
it. -/
def attachIn (settings : Settings) (g : Streets α) (guest : Guest α) (d : Draft α) (number : Nat) :
    Outcome (Draft α) VertexRef :=
  match plan g number guest.position (Frame.around guest.position)
      (Scalar.ofDouble settings.endpointSnap) with
  | .error fault => .fail fault d
  | .ok (.endpoint v) => .ok (.permanent v) d
  | .ok (.cut location) =>
    (d.record number).andThen fun _ d =>
      let r := cutIn g d.overlay number location guest.role.side
      ⟨r.answer.map .temporary, { d with overlay := r.state }⟩

def connectGuest (guest : Guest α) (street : VertexRef) (position : Point α) (d : Draft α) :
    Draft α :=
  { d with
      overlay := (connectIn d.overlay (.temporary guest.vertex, guest.position) (street, position)
        guest.role).1 }

def attachAllIn (settings : Settings) (g : Streets α) (guest : Guest α) :
    Draft α → List Nat → Outcome (Draft α) Unit
  | d, [] => .ok () d
  | d, number :: rest =>
    (attachIn settings g guest d number).andThen fun street d =>
      match View.position? ⟨g, [d.overlay]⟩ street with
      | none => .fail .unknownVertex d
      | some position => attachAllIn settings g guest (connectGuest guest street position d) rest

/-- Connects a point straight with the nearest stops; the answer tells whether there are any. -/
def attachToStops (settings : Settings) (g : Streets α) (guest : Guest α) (d : Draft α) :
    Draft α × Bool :=
  let stops := nearestStops g (Search.around guest.position settings)
    (Scalar.ofDouble settings.duplicateWayDegrees)
  (stops.foldl (fun d r => connectGuest guest (.permanent r.item.vertex) r.item.position d) d,
    !stops.isEmpty)

/-- Links a vertex of an overlay to the nearest edges that a mode may use. -/
def linkGuest (settings : Settings) (g : Streets α) (guest : Guest α) (mode : Mode) (d : Draft α) :
    Outcome (Draft α) Bool :=
  match nearestEdges g (Search.around guest.position settings) mode
      (Scalar.ofDouble settings.duplicateWayDegrees) with
  | [] =>
    if guest.role.isSearchEnd then
      let (d, linked) := attachToStops settings g guest d
      .ok linked d
    else .ok false d
  | nearest =>
    (attachAllIn settings g guest d (nearest.map (·.item.number))).andThen fun _ d => .ok true d

end StreetLinking.Linking
