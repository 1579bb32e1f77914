import StreetLinking.Outcome
import StreetLinking.Street.Graph
/-!
# Building the street graph

Adding intersections, stops, stations, streets and areas. An operation that fails leaves the graph
as it was: everything that can fail is looked up before anything is added.
-/
namespace StreetLinking.Street

open Number Plane

namespace EdgeData

variable {α : Type} [Scalar α]

def measured (kind : EdgeKind) (line : Line α) (permission : ModeSet) (name : String)
    (back : Bool) : EdgeData α :=
  ⟨kind, name, permission, millimetres (lineMetres line), back, line⟩

end EdgeData

namespace Streets

variable {α : Type} [Scalar α]

/-! ## Vertices -/

def addIntersection (g : Streets α) (position : Point α) (osmId : Option Int) : Streets α × Nat :=
  let label := match osmId with
    | some id => "osm:" ++ toString id
    | none => "intersection"
  g.addVertex ⟨.intersection osmId, label, position⟩

def addStop (g : Streets α) (id name : String) (position : Point α) (wheelchair : Bool) :
    Streets α × Nat :=
  let (g, v) := g.addVertex ⟨.stop id wheelchair, name, position⟩
  (g.indexStop v position, v)

def addBikeRental (g : Streets α) (id name : String) (position : Point α) : Streets α × Nat :=
  g.addVertex ⟨.bikeRental id, name, position⟩

def addBikePark (g : Streets α) (id name : String) (position : Point α) : Streets α × Nat :=
  g.addVertex ⟨.bikePark id, name, position⟩

/-! ## Streets -/

/-- The line of a new street: the given one if it has two points, or else the straight one between
its ends. -/
def streetLine (g : Streets α) (source target : Nat) (line : Option (Line α)) :
    Except Fault (Line α) :=
  match g.position? source, g.position? target with
  | some a, some b =>
    match line with
    | some line =>
      if line.length < 2 then .error (.shape (.streetTooShort line.length)) else .ok line
    | none => .ok [a, b]
  | _, _ => .error .unknownVertex

def addStreet (g : Streets α) (source target : Nat) (line : Option (Line α)) (permission : ModeSet)
    (name : String) : Outcome (Streets α) Nat :=
  match g.streetLine source target line with
  | .error fault => .fail fault g
  | .ok line =>
    let (g, number) := g.insertEdge source target (.measured .street line permission name false)
    .ok number (g.indexEdge number)

def insertPair (g : Streets α) (source target : Nat) (kind : EdgeKind) (line : Line α)
    (permission : ModeSet) (name : String) : Streets α × Nat × Nat :=
  let (g, forward) := g.insertEdge source target (.measured kind line permission name false)
  let (g, backward) := g.insertEdge target source (.measured kind line.reverse permission name true)
  (g, forward, backward)

/-- Adds both directions of a street and indexes them; the second one is the back edge. -/
def addTwoWayStreet (g : Streets α) (source target : Nat) (line : Option (Line α))
    (permission : ModeSet) (name : String) : Outcome (Streets α) (Nat × Nat) :=
  match g.streetLine source target line with
  | .error fault => .fail fault g
  | .ok line =>
    let (g, forward, backward) := g.insertPair source target .street line permission name
    .ok (forward, backward) ((g.indexEdge forward).indexEdge backward)

/-! ## Grids -/

def gridCells (size : Nat) : List (Nat × Nat) :=
  (List.range size).flatMap fun row => (List.range size).map fun column => (row, column)

/-- Adds a two-way street from a cell to the next one of its row and to the next one of its column,
as far as there are any; `vertex` is the vertex of each cell. -/
def addGridStreets (size : Nat) (vertex : Nat × Nat → Nat) (permission : ModeSet) (g : Streets α)
    (cell : Nat × Nat) : Streets α :=
  let street (g : Streets α) (next : Nat × Nat) (name : String) (inside : Bool) : Streets α :=
    if inside then (g.addTwoWayStreet (vertex cell) (vertex next) none permission name).state else g
  let (row, column) := cell
  street (street g (row, column + 1) ("row " ++ toString row) (column + 1 < size))
    (row + 1, column) ("column " ++ toString column) (row + 1 < size)

/-- Adds a square grid of intersections, row by row to the north and east of a corner, with two-way
streets between neighbours. -/
def addGrid (g : Streets α) (size : Nat) (corner : Point α) (spacing : α) (permission : ModeSet) :
    Streets α × List Nat :=
  let first := g.vertices.size
  let vertex (cell : Nat × Nat) : Nat := first + cell.1 * size + cell.2
  let position (cell : Nat × Nat) : Point α :=
    ⟨corner.x + Scalar.ofDouble (Float.ofNat cell.2) * spacing,
      corner.y + Scalar.ofDouble (Float.ofNat cell.1) * spacing⟩
  let cells := gridCells size
  let g := cells.foldl (fun g cell => (g.addIntersection (position cell) none).1) g
  (cells.foldl (addGridStreets size vertex permission) g, cells.map vertex)

/-! ## Areas -/

def corners? (g : Streets α) (ring : List Nat) : Option (List (Nat × Point α)) :=
  ring.mapM fun v => (g.position? v).map (v, ·)

/-- The sides of a ring: every corner with the next one, the last with the first. -/
def sides {β : Type} (ring : List β) : List (β × β) :=
  ring.zip (ring.tail ++ ring.take 1)

def insertSides (area : Nat) (permission : ModeSet) (name : String) :
    Streets α → List ((Nat × Point α) × (Nat × Point α)) → Streets α × List Nat
  | g, [] => (g, [])
  | g, (a, b) :: rest =>
    let (g, forward, backward) := g.insertPair a.1 b.1 (.area area) [a.2, b.2] permission name
    let (g, numbers) := insertSides area permission name g rest
    (g, forward :: backward :: numbers)

/-- Adds a walkable area with edges in both directions between neighbouring corners, and indexes
them. -/
def addArea (g : Streets α) (name : String) (ring : List Nat) (permission : ModeSet) :
    Outcome (Streets α) Nat :=
  if ring.length < 3 then .fail (.shape (.areaTooSmall name ring.length)) g
  else
    match g.corners? ring with
    | none => .fail .unknownVertex g
    | some corners =>
      let area := g.areas.length
      let (g, numbers) := insertSides area permission name g (sides corners)
      let g := numbers.foldl indexEdge g
      .ok area { g with areas := g.areas ++ [⟨name, ring, numbers⟩] }

end Streets

end StreetLinking.Street
