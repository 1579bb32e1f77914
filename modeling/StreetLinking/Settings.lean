import StreetLinking.Fault
import StreetLinking.Plane.Earth
/-!
# Settings

How far to look for streets, which distances count as equal, when a point snaps to the end of an
edge, and when a linked stop is reported as far from its street.
-/
namespace StreetLinking

open Number Plane

structure Settings where
  searchRadius : Float := 1000.0
  /-- Candidates less than this many metres apart are equally near. -/
  duplicateWay : Float := 0.001
  /-- The part of a segment on which a point snaps to the end of the edge. -/
  endpointSnap : Float := 1e-8
  warningDistance : Float := 20.0
  /-- Whether a stop that cuts an edge of an area is connected to all vertices of that area. -/
  crossAreas : Bool := true

namespace Settings

/-- Refuses the first value that is out of range. -/
def validate (s : Settings) : Except SettingFault Unit :=
  if !(s.searchRadius.isFinite && decide (0.0 < s.searchRadius)) then
    .error (.searchRadius s.searchRadius)
  else if !(s.duplicateWay.isFinite && decide (0.0 < s.duplicateWay)) then
    .error (.duplicateWay s.duplicateWay)
  else if !(decide (0.0 ≤ s.endpointSnap) && decide (s.endpointSnap < 0.5)) then
    .error (.endpointSnap s.endpointSnap)
  else if s.warningDistance.isNaN || decide (s.warningDistance < 0.0) then
    .error (.warningDistance s.warningDistance)
  else .ok ()

def radiusDegrees (s : Settings) : Float :=
  degreesOfMetres s.searchRadius

def duplicateWayDegrees (s : Settings) : Float :=
  degreesOfMetres s.duplicateWay

end Settings

end StreetLinking
