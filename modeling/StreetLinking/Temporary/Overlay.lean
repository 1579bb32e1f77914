import StreetLinking.Fleet.Key
import StreetLinking.Street.Graph
import StreetLinking.Temporary.Incidence
/-!
# Overlays

An overlay holds the vertices and edges that exist for one search or one reported entity only. Its
edges may end at vertices of the street graph, which knows nothing of them. A vertex of an overlay
is named by the overlay and a position, and only its own overlay resolves it. So is an edge; what
leaves or enters a vertex is found in lists of such names, which grow as edges are added.
-/
namespace StreetLinking.Temporary

open Number Plane Street Fleet

namespace VertexRef

def permanent? : VertexRef → Option Nat
  | permanent v => some v
  | temporary _ => none

end VertexRef

inductive TempVertexKind where
  /-- An end of a search: its destination, or else its origin. -/
  | searchEnd (isDestination : Bool)
  /-- Where the edge with this serial is cut, with the halves that are kept. -/
  | split (parent : Nat) (side : Side)
  | entity (key : Key) (role : Role)
deriving DecidableEq

structure TempVertex (α : Type) where
  kind : TempVertexKind
  label : String
  position : Point α
deriving DecidableEq

inductive TempEdgeKind where
  /-- A half of the street edge with this number. -/
  | part (parent : Nat)
  | connector (kind : ConnectorKind)
deriving DecidableEq

structure TempEdge (α : Type) where
  source : VertexRef
  target : VertexRef
  kind : TempEdgeKind
  permission : ModeSet
  lengthMm : Nat
  line : Line α
deriving DecidableEq

/-- An overlay with the edges that leave and those that enter its vertices and street vertices. -/
@[ext]
structure Overlay (α : Type) where
  id : OverlayId
  vertices : List (TempVertex α) := []
  edges : List (TempEdge α) := []
  leaving : Incidence := {}
  entering : Incidence := {}
  leaving_faithful : leaving.Faithful id vertices.length (edges.map (·.source)) := by
    exact Incidence.faithful_empty _
  entering_faithful : entering.Faithful id vertices.length (edges.map (·.target)) := by
    exact Incidence.faithful_empty _
deriving DecidableEq

namespace Overlay

variable {α : Type}

def isEmpty (o : Overlay α) : Bool :=
  o.vertices.isEmpty && o.edges.isEmpty

def owns (o : Overlay α) (v : LocalVertex) : Bool :=
  v.overlay == o.id && decide (v.position < o.vertices.length)

def vertex? (o : Overlay α) (v : LocalVertex) : Option (TempVertex α) :=
  if v.overlay = o.id then o.vertices[v.position]? else none

def edge? (o : Overlay α) (e : LocalEdge) : Option (TempEdge α) :=
  if e.overlay = o.id then o.edges[e.position]? else none

def addVertex (o : Overlay α) (v : TempVertex α) : Overlay α × LocalVertex where
  fst :=
    { o with
        vertices := o.vertices ++ [v]
        leaving := o.leaving.addVertex
        entering := o.entering.addVertex
        leaving_faithful := by simpa using o.leaving_faithful.addVertex
        entering_faithful := by simpa using o.entering_faithful.addVertex }
  snd := ⟨o.id, o.vertices.length⟩

/-- Adds an edge and enters it in the lists of its ends. -/
def addEdge (o : Overlay α) (e : TempEdge α) : Overlay α :=
  { o with
      edges := o.edges ++ [e]
      leaving := o.leaving.register e.source ⟨o.id, o.edges.length⟩
      entering := o.entering.register e.target ⟨o.id, o.edges.length⟩
      leaving_faithful := by simpa using o.leaving_faithful.register e.source
      entering_faithful := by simpa using o.entering_faithful.register e.target }

/-- Edges that leave a vertex, the earliest first. -/
def outgoing (o : Overlay α) (r : VertexRef) : List (TempEdge α) :=
  (o.leaving.incident o.id r).filterMap o.edge?

def incoming (o : Overlay α) (r : VertexRef) : List (TempEdge α) :=
  (o.entering.incident o.id r).filterMap o.edge?

def hasConnector (o : Overlay α) (source target : VertexRef) (kind : ConnectorKind) : Bool :=
  (o.outgoing source).any fun e => e.target == target && e.kind == .connector kind

def insertOnce (n : Nat) : List Nat → List Nat
  | [] => [n]
  | m :: rest =>
    if n < m then n :: m :: rest
    else if n = m then m :: rest
    else m :: insertOnce n rest

/-- The street vertices that have a list, increasing. -/
def streetVertices (o : Overlay α) : List Nat :=
  (o.leaving.permanent.keys ++ o.entering.permanent.keys).foldr insertOnce []

/-! ## What the operations do to the views -/

theorem vertex?_addVertex_new (o : Overlay α) (v : TempVertex α) :
    (o.addVertex v).1.vertex? (o.addVertex v).2 = some v := by
  simp [addVertex, vertex?]

theorem vertex?_eq_none_of_ne {o : Overlay α} {v : LocalVertex} (h : v.overlay ≠ o.id) :
    o.vertex? v = none := by
  simp [vertex?, h]

theorem owns_iff (o : Overlay α) (v : LocalVertex) :
    o.owns v = true ↔ (o.vertex? v).isSome = true := by
  by_cases h : v.overlay = o.id <;> simp [owns, vertex?, h]

theorem mem_insertOnce (n m : Nat) (sorted : List Nat) :
    m ∈ insertOnce n sorted ↔ m = n ∨ m ∈ sorted := by
  induction sorted with
  | nil => simp [insertOnce]
  | cons k rest ih =>
    simp only [insertOnce]
    split
    · simp
    · split
      · next h => simp [h]
      · simp only [List.mem_cons, ih]
        constructor
        · rintro (h | h | h) <;> simp [h]
        · rintro (h | h | h) <;> simp [h]

end Overlay

end StreetLinking.Temporary
