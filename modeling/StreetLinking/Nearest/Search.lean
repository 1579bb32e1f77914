import StreetLinking.Nearest.Ranking
import StreetLinking.Settings
import StreetLinking.Street.Graph
/-!
# Searching around a point

The nearest street edges that a mode may use, and the nearest stops. The index gives what lies in
the search box, index entries of removed edges are passed over, and the nearest ones are kept if the
first of them lies within the radius.
-/
namespace StreetLinking.Nearest

open Number Plane Street

/-- A point to link, the frame around it, and how far to look. -/
structure Search (α : Type) where
  point : Point α
  frame : Frame α
  radius : α
  box : Box α

variable {α : Type} [Scalar α]

namespace Search

def within (point : Point α) (frame : Frame α) (radius : α) : Search α :=
  ⟨point, frame, radius, frame.searchBox point radius⟩

def around (point : Point α) (settings : Settings) : Search α :=
  within point (Frame.around point) (Scalar.ofDouble settings.radiusDegrees)

end Search

/-- The indexed edges in the search box that are live, linkable and open to the mode. -/
def candidates (g : Streets α) (search : Search α) (mode : Mode) : List (Edge α) :=
  (g.attachedTo (g.entriesIn search.box)).filter fun e =>
    e.kind.isLinkable && e.allows (ModeSet.forLinking mode)

/-- Keeps a ranked list if its first item lies within the radius. -/
def withinRadius {β : Type} (radius : α) : List (Ranked α β) → List (Ranked α β)
  | [] => []
  | r :: rest => if r.distance ≤ radius then r :: rest else []

/-- The nearest edges, those with an earlier serial first among equally near ones. -/
def nearestEdges (g : Streets α) (search : Search α) (mode : Mode) (gap : α) :
    List (Ranked α (Edge α)) :=
  withinRadius search.radius
    (nearest (fun e : Edge α => search.frame.distanceToLine search.point e.line) (·.serial) gap
      (candidates g search mode))

def nearestStops (g : Streets α) (search : Search α) (gap : α) : List (Ranked α (StopEntry α)) :=
  withinRadius search.radius
    (nearest (fun s : StopEntry α => search.frame.distance search.point s.position) (·.vertex) gap
      (g.stopsIn search.box))

end StreetLinking.Nearest
