import StreetLinking.Number.Decimal
/-!
# Faults

Every way in which an operation can fail, as a cause, and the one place where the causes are put
into words.
-/
namespace StreetLinking

open Number

inductive SettingFault where
  | searchRadius (metres : Float)
  | duplicateWay (metres : Float)
  | endpointSnap (fraction : Float)
  | warningDistance (metres : Float)
  | pollingInterval

namespace SettingFault

def message : SettingFault → String
  | searchRadius x => "search_radius_m must be positive, got " ++ plainText x
  | duplicateWay x => "duplicate_way_epsilon_m must be positive, got " ++ plainText x
  | endpointSnap x => "endpoint_snap_epsilon must be in [0, 0.5), got " ++ plainText x
  | warningDistance x => "warning_distance_m must not be negative, got " ++ plainText x
  | pollingInterval => "interval_secs must be at least 1"

end SettingFault

inductive ShapeFault where
  | areaTooSmall (name : String) (corners : Nat)
  | streetTooShort (points : Nat)
  | edgeTooShort (edge : Nat)

namespace ShapeFault

def message : ShapeFault → String
  | areaTooSmall name corners =>
    "area '" ++ name ++ "' needs at least three vertices, got " ++ toString corners
  | streetTooShort points =>
    "street geometry must have at least two points, got " ++ toString points
  | edgeTooShort edge => "edge EdgeIndex(" ++ toString edge ++ ") has fewer than two points"

end ShapeFault

inductive FileFault where
  | missing
  | notUnicode

namespace FileFault

def message : FileFault → String
  | missing => "No such file or directory (os error 2)"
  | notUnicode => "stream did not contain valid UTF-8"

end FileFault

inductive Fault where
  /-- Both ends of a search cut the same edge. -/
  | trivialPath (edge : Nat)
  | notLinkable (vertex : Nat)
  | unknownVertex
  | unknownEdge
  | shape (fault : ShapeFault)
  | setting (fault : SettingFault)
  /-- A settings document that cannot be understood. -/
  | document
  | file (name : String) (fault : FileFault)
  | feed (text : String)
  | closed
  /-- A feed broke down while it was polled. -/
  | pollingBroken

namespace Fault

/-- The words for a fault. A document that cannot be understood has none here. -/
def message : Fault → String
  | trivialPath edge => "Origin and destination both split edge EdgeIndex(" ++ toString edge ++ ")"
  | notLinkable vertex =>
    "Vertex NodeIndex(" ++ toString vertex ++ ") is not an entity that can be linked"
  | unknownVertex => "Invalid vertex index"
  | unknownEdge => "Invalid edge index"
  | shape fault => "Invalid geometry: " ++ fault.message
  | setting fault => "Invalid configuration: " ++ fault.message
  | document => ""
  | file name fault => "I/O error: Failed to read config '" ++ name ++ "': " ++ fault.message
  | feed text => "Feed error: " ++ text
  | closed => "Graph writer is shut down"
  | pollingBroken => "Unrecoverable error: updater thread panicked"

end Fault

end StreetLinking
