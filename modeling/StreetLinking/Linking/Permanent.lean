import StreetLinking.Linking.Connect
import StreetLinking.Linking.Halves
import StreetLinking.Nearest.Search
import StreetLinking.Plane.Hull
/-!
# Linking the vertices of the street graph

While the graph is built, every stop, rental station and bike park is linked to all of its nearest
edges: it is connected with an end of the edge, or the edge is split and it is connected with the
new vertex. A stop that splits an edge of an area is connected across the area as well. What cannot
be linked is annotated.
-/
namespace StreetLinking.Linking

open Number Plane Street Nearest

variable {α : Type} [Scalar α]

/-- A vertex that is being linked. -/
structure Entity (α : Type) where
  vertex : Nat
  role : Role
  label : String
  position : Point α

/-- The vertex at which an entity attaches to an edge, after splitting the edge if need be. -/
def attach (settings : Settings) (frame : Frame α) (entity : Entity α) (g : Streets α)
    (number : Nat) : Outcome (Streets α) Nat :=
  match plan g number entity.position frame (Scalar.ofDouble settings.endpointSnap) with
  | .error fault => .fail fault g
  | .ok (.endpoint v) => .ok v g
  | .ok (.cut location) =>
    let area := (g.edge? number).bind (·.kind.area?)
    (split g number location).andThen fun v g =>
      match area with
      | some area =>
        if entity.role == .stop && settings.crossAreas then .ok v (crossArea g v area).1
        else .ok v g
      | none => .ok v g

def attachAll (settings : Settings) (frame : Frame α) (entity : Entity α) :
    Streets α → List Nat → Outcome (Streets α) Unit
  | g, [] => .ok () g
  | g, number :: rest =>
    (attach settings frame entity g number).andThen fun v g =>
      attachAll settings frame entity (connect g entity.vertex v entity.role).1 rest

/-- The annotation for a stop whose nearest edge lies beyond the warning distance. -/
def warnFar (settings : Settings) (entity : Entity α) (distance : α) (g : Streets α) : Streets α :=
  let metres := metresOfDegrees (Scalar.toDouble distance)
  if entity.role == .stop && decide (settings.warningDistance < metres) then
    g.annotate (.stopLinkedTooFar entity.vertex entity.label metres)
  else g

def targets (settings : Settings) (g : Streets α) (position : Point α) (mode : Mode) :
    List (Ranked α (Edge α)) :=
  nearestEdges g (Search.around position settings) mode
    (Scalar.ofDouble settings.duplicateWayDegrees)

/-- Links an entity; without an edge in reach nothing changes and the answer is `false`. -/
def linkEntity (settings : Settings) (g : Streets α) (entity : Entity α) (mode : Mode) :
    Outcome (Streets α) Bool :=
  match targets settings g entity.position mode with
  | [] => .ok false g
  | first :: rest =>
    (attachAll settings (Frame.around entity.position) entity
      (warnFar settings entity first.distance g)
      ((first :: rest).map (·.item.number))).andThen fun _ g => .ok true g

def link (settings : Settings) (g : Streets α) (vertex : Nat) (mode : Mode) :
    Outcome (Streets α) Bool :=
  match g.vertex? vertex with
  | none => .fail .unknownVertex g
  | some v =>
    match v.kind.role? with
    | none => .fail (.notLinkable vertex) g
    | some role => linkEntity settings g ⟨vertex, role, v.label, v.position⟩ mode

/-! ## Linking everything -/

structure Tally where
  linked : Nat := 0
  unlinked : Nat := 0
deriving DecidableEq

def Tally.count (t : Tally) (linked : Bool) : Tally :=
  if linked then { t with linked := t.linked + 1 } else { t with unlinked := t.unlinked + 1 }

structure Report where
  stops : Tally := {}
  bikeRentals : Tally := {}
  bikeParks : Tally := {}
deriving DecidableEq

def Report.count (r : Report) (role : Role) (linked : Bool) : Report :=
  match role with
  | .stop => { r with stops := r.stops.count linked }
  | .bikeRental => { r with bikeRentals := r.bikeRentals.count linked }
  | _ => { r with bikeParks := r.bikeParks.count linked }

/-- Bike parks are linked for cycling, all else for walking. -/
def buildingMode : Role → Mode
  | .bikePark => .bicycle
  | _ => .walk

def unlinkedAnnotation? (vertex : Nat) (v : Vertex α) : Option Annotation :=
  match v.kind with
  | .stop id _ => some (.stopUnlinked vertex id v.label)
  | .bikeRental id => some (.bikeRentalUnlinked vertex id v.label)
  | .bikePark id => some (.bikeParkUnlinked vertex id v.label)
  | .intersection _ | .split _ => none

def annotateUnlinked (g : Streets α) (vertex : Nat) : Streets α :=
  match (g.vertex? vertex).bind (unlinkedAnnotation? vertex) with
  | some annotation => g.annotate annotation
  | none => g

def entities (g : Streets α) : List (Nat × Role) :=
  g.vertices.toList.zipIdx.filterMap fun (v, number) => v.kind.role?.map (number, ·)

def linkEach (settings : Settings) :
    Streets α → Report → List (Nat × Role) → Outcome (Streets α) Report
  | g, report, [] => .ok report g
  | g, report, (vertex, role) :: rest =>
    (link settings g vertex (buildingMode role)).andThen fun linked g =>
      linkEach settings (if linked then g else annotateUnlinked g vertex)
        (report.count role linked) rest

def linkAll (settings : Settings) (g : Streets α) : Outcome (Streets α) Report :=
  linkEach settings g {} (entities g)

/-! ## Coverage -/

def positionsOf (g : Streets α) (test : VertexKind → Bool) : List (Point α) :=
  (g.vertices.toList.filter fun v => test v.kind).map (·.position)

def isStop : VertexKind → Bool
  | .stop _ _ => true
  | _ => false

/-- The annotation for stops outside the convex hull of the street vertices, if there are any. -/
def coverageAnnotation? (g : Streets α) : Option Annotation :=
  let sites := (positionsOf g VertexKind.isStreet).map Point.toDouble
  let stops := (positionsOf g isStop).map Point.toDouble
  let count := stops.countP (outsideRing (hullRing sites))
  if sites.isEmpty || count == 0 then none
  else some (.stopsOutsideCoverage count stops.length)

/-- Checks the settings, annotates stops outside the covered area, and links everything. -/
def linkStreets (settings : Settings) (g : Streets α) : Outcome (Streets α) Report :=
  match settings.validate with
  | .error fault => .fail (.setting fault) g
  | .ok _ =>
    match coverageAnnotation? g with
    | some annotation => linkAll settings (g.annotate annotation)
    | none => linkAll settings g

end StreetLinking.Linking
