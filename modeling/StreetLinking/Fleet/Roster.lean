import StreetLinking.Fleet.Descriptor
import StreetLinking.Linking.Temporary
/-!
# The roster of reported entities

Every entity that a feed reports is linked once, in an overlay of its own, and stays on the roster
for as long as it is reported again, linked or not. An entity that could not be linked is tried
again only after it has vanished and come back. The roster is kept in order of keys. Readers see it
as snapshots.
-/
namespace StreetLinking.Fleet

open Plane Street Temporary Linking

/-- The overlay that links an entity, the vertex in it that stands for the entity, and the street
vertices at which edges of the overlay begin or end, increasing. -/
structure EntityLink where
  vertex : LocalVertex
  overlay : Overlay Float
  streetVertices : List Nat

/-- An entity on the roster, with its link if it could be linked. -/
structure Tracked where
  descriptor : Descriptor
  link : Option EntityLink

namespace Tracked

def key (t : Tracked) : Key :=
  t.descriptor.key

def isLinked (t : Tracked) : Bool :=
  t.link.isSome

def streetVertices (t : Tracked) : List Nat :=
  match t.link with
  | some l => l.streetVertices
  | none => []

end Tracked

structure Changes where
  added : List Key := []
  removed : List Key := []
  /-- How many of the added ones were linked. -/
  linked : Nat := 0
  unlinked : Nat := 0
deriving DecidableEq

structure Roster where
  owner : Nat
  tracked : List Tracked := []
  linkAttempts : Nat := 0
  version : Nat := 0

def linkDescriptor (settings : Settings) (g : Streets Float) (id : OverlayId) (d : Descriptor) :
    Option EntityLink :=
  let (overlay, vertex) :=
    ({ id } : Overlay Float).addVertex ⟨.entity d.key d.kind.role, d.name, d.position⟩
  match linkGuest settings g ⟨vertex, d.kind.role, d.position⟩ d.kind.linkingMode
      ⟨overlay, none⟩ with
  | ⟨.ok true, draft⟩ => some ⟨vertex, draft.overlay, draft.overlay.streetVertices⟩
  | _ => none

/-- The first descriptor of every key that has not been seen. -/
def firstUnseen : List Key → List Descriptor → List Descriptor
  | _, [] => []
  | seen, d :: rest =>
    if d.key ∈ seen then firstUnseen seen rest else d :: firstUnseen (d.key :: seen) rest

def firstOfEach (report : List Descriptor) : List Descriptor :=
  firstUnseen [] report

namespace Roster

def find? (r : Roster) (key : Key) : Option Tracked :=
  r.tracked.find? (·.key == key)

/-- Links descriptors in turn, numbering the attempts from `attempt` on. -/
def trackFrom (settings : Settings) (g : Streets Float) (owner : Nat) :
    Nat → List Descriptor → List Tracked
  | _, [] => []
  | attempt, d :: rest =>
    ⟨d, linkDescriptor settings g ⟨owner, attempt⟩ d⟩ ::
      trackFrom settings g owner (attempt + 1) rest

/-- The reported entities that are not on the roster yet, in order of keys. -/
def arrivals (r : Roster) (report : List Descriptor) : List Descriptor :=
  ((firstOfEach report).filter fun d => (r.find? d.key).isNone).mergeSort fun a b =>
    a.key.notAfter b.key

/-- Brings the roster in line with a report. What is on the roster and still reported stays as it
is, its position included; what is not reported is dropped; what is new is linked. -/
def update (settings : Settings) (g : Streets Float) (r : Roster) (report : List Descriptor) :
    Changes × Roster :=
  let stays (t : Tracked) : Bool := report.any (·.key == t.key)
  let new := trackFrom settings g r.owner r.linkAttempts (r.arrivals report)
  let linked := new.countP (·.isLinked)
  ({ added := new.map (·.key)
     removed := (r.tracked.filter (!stays ·)).map (·.key)
     linked
     unlinked := new.length - linked },
    { r with
        tracked := (r.tracked.filter stays ++ new).mergeSort fun a b => a.key.notAfter b.key
        linkAttempts := r.linkAttempts + new.length
        version := r.version + 1 })

end Roster

/-! ## Snapshots -/

/-- Keys of entities by the street vertices that the entities attach to. -/
abbrev VertexIndex := VertexTable Key

namespace VertexIndex

def enterEntity (index : VertexIndex) (t : Tracked) : VertexIndex :=
  t.streetVertices.foldl (fun index v => index.push t.key v) index

/-- The index of some entities, with the keys at every vertex in order. -/
def ofTracked (tracked : List Tracked) : VertexIndex :=
  (tracked.foldl enterEntity []).map fun entry => (entry.1, Key.sort entry.2)

end VertexIndex

/-- The roster as readers see it after a number of reports. -/
structure Snapshot where
  version : Nat := 0
  tracked : List Tracked := []
  /-- Keys of the linked entities, in order. -/
  linkedKeys : List Key := []
  vertexIndex : VertexIndex := []

namespace Snapshot

def find? (s : Snapshot) (key : Key) : Option Tracked :=
  s.tracked.find? (·.key == key)

def overlays (s : Snapshot) : List (Overlay Float) :=
  s.linkedKeys.filterMap fun key => ((s.find? key).bind (·.link)).map (·.overlay)

def entitiesAt (s : Snapshot) (vertex : Nat) : List Key :=
  s.vertexIndex.get vertex

end Snapshot

def Roster.snapshot (r : Roster) : Snapshot where
  version := r.version
  tracked := r.tracked
  linkedKeys := Key.sort ((r.tracked.filter (·.isLinked)).map (·.key))
  vertexIndex := .ofTracked r.tracked

theorem length_trackFrom (settings : Settings) (g : Streets Float) (owner attempt : Nat)
    (ds : List Descriptor) : (Roster.trackFrom settings g owner attempt ds).length = ds.length := by
  induction ds generalizing attempt with
  | nil => rfl
  | cons d rest ih => simp [Roster.trackFrom, ih]

theorem descriptors_trackFrom (settings : Settings) (g : Streets Float) (owner attempt : Nat)
    (ds : List Descriptor) :
    (Roster.trackFrom settings g owner attempt ds).map (·.descriptor) = ds := by
  induction ds generalizing attempt with
  | nil => rfl
  | cons d rest ih => simp [Roster.trackFrom, ih]

end StreetLinking.Fleet
