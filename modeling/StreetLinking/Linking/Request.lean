import StreetLinking.Linking.Temporary
/-!
# Search requests

A request links the origin and the destination of a search. Its overlay and its gate live as long as
the request does.
-/
namespace StreetLinking.Linking

open Number Plane Street Temporary

structure RequestModes where
  walk : Bool := false
  bicycle : Bool := false
  car : Bool := false
  parkAndRide : Bool := false
  kissAndRide : Bool := false
deriving DecidableEq

namespace RequestModes

def only : Mode → RequestModes
  | .walk => { walk := true }
  | .bicycle => { bicycle := true }
  | .car => { car := true }

/-- The mode for which an end of the search is linked. A trip by car that parks or drops off ends on
foot. -/
def linkingMode (m : RequestModes) (isDestination : Bool) : Mode :=
  if m.car then
    if isDestination && (m.parkAndRide || m.kissAndRide) then .walk else .car
  else if m.walk then .walk
  else if m.bicycle then .bicycle
  else .walk

end RequestModes

structure Request (α : Type) where
  modes : RequestModes
  overlay : Overlay α
  gate : Gate := {}

/-- An end of a search in the overlay of its request. An end that is not linked has no edges. -/
structure LinkedEnd where
  vertex : LocalVertex
  linked : Bool
deriving DecidableEq

namespace Request

variable {α : Type} [Scalar α]

def start (modes : RequestModes) (id : OverlayId) : Request α :=
  { modes, overlay := { id } }

def endRole (isDestination : Bool) : Role :=
  if isDestination then .destination else .origin

def endLabel (isDestination : Bool) : String :=
  if isDestination then "destination" else "origin"

/-- Adds an end of the search at a point and links it. -/
def linkEnd (settings : Settings) (g : Streets α) (r : Request α) (position : Point α)
    (isDestination : Bool) : Outcome (Request α) LinkedEnd :=
  let (overlay, vertex) :=
    r.overlay.addVertex ⟨.searchEnd isDestination, endLabel isDestination, position⟩
  let linked := linkGuest settings g ⟨vertex, endRole isDestination, position⟩
    (r.modes.linkingMode isDestination) ⟨overlay, some r.gate⟩
  ⟨linked.answer.map (⟨vertex, ·⟩),
    { r with overlay := linked.state.overlay, gate := linked.state.gate.getD r.gate }⟩

def view (g : Streets α) (r : Request α) : View α :=
  ⟨g, [r.overlay]⟩

end Request

end StreetLinking.Linking
