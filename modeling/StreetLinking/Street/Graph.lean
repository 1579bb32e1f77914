import StreetLinking.Plane.BoxIndex
import StreetLinking.Plane.Earth
import StreetLinking.Street.Annotation
import StreetLinking.Street.Role
/-!
# The street graph

Vertices are numbered from zero in the order in which they are added and are never removed. An edge
has a number, which is given to another edge once it is removed, and a serial, which never is. The
graph keeps one list of its live edges, the latest first; what leaves or enters a vertex is read off
that list, so both views always agree and both run from the latest edge to the earliest.

Numbers of removed edges are kept as a stack, and a new edge takes the one removed last. The index
of edges is never cleaned: an entry counts only as long as its number still belongs to the edge with
its serial.
-/
namespace StreetLinking.Street

open Number Plane

inductive VertexKind where
  | intersection (osmId : Option Int)
  /-- Made by cutting the edge with this serial. -/
  | split (parent : Nat)
  | stop (id : String) (wheelchair : Bool)
  | bikeRental (id : String)
  | bikePark (id : String)
deriving DecidableEq

namespace VertexKind

def isStreet : VertexKind → Bool
  | intersection _ | split _ => true
  | _ => false

/-- What the vertex is linked as; vertices of streets are not linked. -/
def role? : VertexKind → Option Role
  | stop _ _ => some .stop
  | bikeRental _ => some .bikeRental
  | bikePark _ => some .bikePark
  | intersection _ | split _ => none

theorem role?_eq_none_iff (k : VertexKind) : k.role? = none ↔ k.isStreet = true := by
  cases k <;> simp [role?, isStreet]

end VertexKind

structure Vertex (α : Type) where
  kind : VertexKind
  label : String
  position : Point α
deriving DecidableEq

inductive EdgeKind where
  | street
  | area (number : Nat)
  | connector (kind : ConnectorKind)
deriving DecidableEq

namespace EdgeKind

/-- Streets and areas may be linked to, connectors may not. -/
def isLinkable : EdgeKind → Bool
  | street | area _ => true
  | connector _ => false

def area? : EdgeKind → Option Nat
  | area number => some number
  | _ => none

end EdgeKind

structure EdgeData (α : Type) where
  kind : EdgeKind
  name : String
  permission : ModeSet
  lengthMm : Nat
  /-- The reverse one of a pair of edges. -/
  back : Bool
  line : Line α
deriving DecidableEq

structure Edge (α : Type) extends EdgeData α where
  number : Nat
  serial : Nat
  source : Nat
  target : Nat
deriving DecidableEq

namespace Edge

variable {α : Type}

def metres (e : Edge α) : Float :=
  Float.ofNat e.lengthMm / 1000.0

def allows (e : Edge α) (modes : ModeSet) : Bool :=
  e.permission.meets modes

end Edge

structure EdgeEntry (α : Type) where
  number : Nat
  serial : Nat
  box : Box α
deriving DecidableEq

structure StopEntry (α : Type) where
  vertex : Nat
  position : Point α
deriving DecidableEq

def StopEntry.box {α : Type} (s : StopEntry α) : Box α :=
  Box.ofPoint s.position

/-- A walkable area: the vertices on its border and its edges. -/
structure Area where
  name : String
  vertices : List Nat
  edges : List Nat
deriving DecidableEq

structure Streets (α : Type) where
  vertices : Array (Vertex α) := #[]
  /-- Live edges, the latest first. -/
  edges : List (Edge α) := []
  /-- Numbers of removed edges, the one removed last first. -/
  freed : List Nat := []
  /-- How many numbers have been given to edges so far. -/
  numbers : Nat := 0
  nextSerial : Nat := 1
  edgeIndex : BoxIndex α (EdgeEntry α) := {}
  stopIndex : BoxIndex α (StopEntry α) := {}
  areas : List Area := []
  annotations : List Annotation := []

namespace Streets

variable {α : Type}

def empty : Streets α := {}

/-! ## Reading -/

def vertex? (g : Streets α) (v : Nat) : Option (Vertex α) :=
  g.vertices[v]?

def position? (g : Streets α) (v : Nat) : Option (Point α) :=
  (g.vertex? v).map (·.position)

def edge? (g : Streets α) (number : Nat) : Option (Edge α) :=
  g.edges.find? (·.number == number)

/-- Edges that start at a vertex, the latest first. -/
def outgoing (g : Streets α) (v : Nat) : List (Edge α) :=
  g.edges.filter (·.source == v)

def incoming (g : Streets α) (v : Nat) : List (Edge α) :=
  g.edges.filter (·.target == v)

/-- The live edge with this number, if it still has this serial. -/
def attached? (g : Streets α) (number serial : Nat) : Option (Edge α) :=
  (g.edge? number).filter (·.serial == serial)

def isAttached (g : Streets α) (number serial : Nat) : Bool :=
  (g.attached? number serial).isSome

/-- The live edges at the places of their numbers, for looking up many of them. -/
def edgeTable (g : Streets α) : Array (Option (Edge α)) :=
  g.edges.foldr (fun e table => table.setIfInBounds e.number (some e))
    (Array.replicate g.numbers none)

def attachedTo (g : Streets α) (entries : List (EdgeEntry α)) : List (Edge α) :=
  let table := g.edgeTable
  entries.filterMap fun entry =>
    let found := match table[entry.number]? with
      | some found => found
      | none => g.edge? entry.number
    found.filter (·.serial == entry.serial)

def connects (g : Streets α) (source target : Nat) (admits : EdgeKind → Bool) : Bool :=
  (g.outgoing source).any fun e => e.target == target && admits e.kind

/-- The index entries whose box meets a box, those of removed edges included. -/
def entriesIn [Scalar α] (g : Streets α) (box : Box α) : List (EdgeEntry α) :=
  g.edgeIndex.search EdgeEntry.box box

def stopsIn [Scalar α] (g : Streets α) (box : Box α) : List (StopEntry α) :=
  g.stopIndex.search StopEntry.box box

def summary (g : Streets α) : String :=
  let part (name : String) (size : Nat) : String := name ++ ": " ++ toString size ++ ", "
  "StreetGraph \x7b " ++ part "vertices" g.vertices.size ++ part "edges" g.edges.length ++
    part "indexed_edges" g.edgeIndex.items.length ++ part "stops" g.stopIndex.items.length ++
    part "areas" g.areas.length ++ ".. \x7d"

/-! ## Changing -/

def addVertex (g : Streets α) (v : Vertex α) : Streets α × Nat :=
  let number := g.vertices.size
  ({ g with vertices := g.vertices.push v }, number)

def nextNumber (g : Streets α) : Nat :=
  g.freed.headD g.numbers

/-- An edge as the graph would insert it: under a free number and a new serial. -/
def nextEdge (g : Streets α) (source target : Nat) (data : EdgeData α) : Edge α :=
  { data with number := g.nextNumber, serial := g.nextSerial, source, target }

/-- Adds an edge under a free number and a new serial. It is not indexed. -/
def insertEdge (g : Streets α) (source target : Nat) (data : EdgeData α) : Streets α × Nat :=
  ({ g with
      edges := g.nextEdge source target data :: g.edges
      freed := g.freed.tail
      numbers := if g.freed.isEmpty then g.numbers + 1 else g.numbers
      nextSerial := g.nextSerial + 1 },
    g.nextNumber)

def indexEdge [Scalar α] (g : Streets α) (number : Nat) : Streets α :=
  match g.edge? number with
  | none => g
  | some e =>
    match Box.around? e.line with
    | none => g
    | some box =>
      { g with edgeIndex := g.edgeIndex.insert EdgeEntry.box ⟨number, e.serial, box⟩ }

/-- Removes an edge and frees its number. Its index entry stays. -/
def detach (g : Streets α) (number : Nat) : Streets α :=
  if (g.edge? number).isSome then
    { g with edges := g.edges.filter (·.number != number), freed := number :: g.freed }
  else g

def indexStop [Scalar α] (g : Streets α) (v : Nat) (position : Point α) : Streets α :=
  { g with stopIndex := g.stopIndex.insert StopEntry.box ⟨v, position⟩ }

def annotate (g : Streets α) (a : Annotation) : Streets α :=
  { g with annotations := g.annotations ++ [a] }

/-- Replaces an edge of an area by the two halves that meet at a new vertex. -/
def replaceInArea (g : Streets α) (area vertex edge first second : Nat) : Streets α :=
  { g with
      areas := g.areas.modify area fun a =>
        { a with
            vertices := a.vertices ++ [vertex]
            edges := a.edges.filter (· != edge) ++ [first, second] } }

/-! ## What the operations do to the views -/

@[simp] theorem addVertex_number (g : Streets α) (v : Vertex α) :
    (g.addVertex v).2 = g.vertices.size := rfl

@[simp] theorem addVertex_edges (g : Streets α) (v : Vertex α) :
    (g.addVertex v).1.edges = g.edges := rfl

theorem vertex?_addVertex (g : Streets α) (v : Vertex α) (n : Nat) :
    (g.addVertex v).1.vertex? n = if n = g.vertices.size then some v else g.vertex? n :=
  Array.getElem?_push

@[simp] theorem insertEdge_number (g : Streets α) (s t : Nat) (data : EdgeData α) :
    (g.insertEdge s t data).2 = g.nextNumber := rfl

@[simp] theorem insertEdge_vertices (g : Streets α) (s t : Nat) (data : EdgeData α) :
    (g.insertEdge s t data).1.vertices = g.vertices := rfl

theorem outgoing_insertEdge (g : Streets α) (s t v : Nat) (data : EdgeData α) :
    (g.insertEdge s t data).1.outgoing v =
      (if s = v then [g.nextEdge s t data] else []) ++ g.outgoing v := by
  by_cases h : s = v <;> simp [insertEdge, nextEdge, outgoing, h]

theorem incoming_insertEdge (g : Streets α) (s t v : Nat) (data : EdgeData α) :
    (g.insertEdge s t data).1.incoming v =
      (if t = v then [g.nextEdge s t data] else []) ++ g.incoming v := by
  by_cases h : t = v <;> simp [insertEdge, nextEdge, incoming, h]

theorem edge?_detach_self (g : Streets α) (n : Nat) : (g.detach n).edge? n = none := by
  unfold detach
  split
  · simp [edge?, List.find?_filter]
  · next h => simpa using h

theorem edge?_detach_of_ne (g : Streets α) {n m : Nat} (h : m ≠ n) :
    (g.detach n).edge? m = g.edge? m := by
  unfold detach
  split
  · simp only [edge?, List.find?_filter]
    congr 1
    funext e
    by_cases he : e.number = m <;> simp [he, h]
  · rfl

theorem getElem?_edgeTable (g : Streets α) (n : Nat) :
    g.edgeTable[n]? = if n < g.numbers then some (g.edge? n) else none := by
  unfold edgeTable edge?
  have size (edges : List (Edge α)) :
      (edges.foldr (fun e table => table.setIfInBounds e.number (some e))
        (Array.replicate g.numbers none)).size = g.numbers := by
    induction edges with
    | nil => simp
    | cons e rest ih => simp [ih]
  induction g.edges with
  | nil => simp [Array.getElem?_replicate]
  | cons e rest ih =>
    simp only [List.foldr_cons, Array.getElem?_setIfInBounds, size, ih, List.find?_cons]
    by_cases hn : e.number = n
    · subst hn
      by_cases hb : e.number < g.numbers <;> simp [hb]
    · have : (e.number == n) = false := by simpa using hn
      simp [hn, this]

theorem attachedTo_eq (g : Streets α) (entries : List (EdgeEntry α)) :
    g.attachedTo entries =
      entries.filterMap fun entry => g.attached? entry.number entry.serial := by
  simp only [attachedTo, getElem?_edgeTable, attached?]
  congr 1
  funext entry
  by_cases h : entry.number < g.numbers <;> simp [h]

theorem edge?_serial_of_attached? {g : Streets α} {n s : Nat} {e : Edge α}
    (h : g.attached? n s = some e) : g.edge? n = some e ∧ e.serial = s := by
  simpa [attached?, Option.filter_eq_some_iff] using h

end Streets

end StreetLinking.Street
