import StreetLinking.Street.Mode
/-!
# Roles of linked points

What a point is linked as decides which connector joins it to a street, in which directions and for
whom, and which halves of a street edge are kept when the edge is cut for that point alone.
-/
namespace StreetLinking.Street

inductive Role where
  | stop
  | bikeRental
  | bikePark
  | vehicle
  | bikeStation
  | origin
  | destination
deriving DecidableEq

inductive ConnectorKind where
  | stop
  | bikeRental
  | bikePark
  | vehicle
  | free
deriving DecidableEq

inductive Direction where
  | both
  | leaving
  | arriving
deriving DecidableEq

namespace Direction

def leaves : Direction → Bool
  | both | leaving => true
  | arriving => false

def arrives : Direction → Bool
  | both | arriving => true
  | leaving => false

end Direction

/-- The halves of an edge that a temporary cut keeps. -/
inductive Side where
  | outbound
  | inbound
  | both
deriving DecidableEq

namespace Side

def hasInbound : Side → Bool
  | inbound | both => true
  | outbound => false

def hasOutbound : Side → Bool
  | outbound | both => true
  | inbound => false

end Side

structure Connector where
  kind : ConnectorKind
  direction : Direction
  permission : ModeSet
deriving DecidableEq

namespace Role

def connector : Role → Connector
  | stop => ⟨.stop, .both, .unmotorised⟩
  | bikeRental | bikeStation => ⟨.bikeRental, .both, .unmotorised⟩
  | bikePark => ⟨.bikePark, .both, .unmotorised⟩
  | vehicle => ⟨.vehicle, .both, .all⟩
  | origin => ⟨.free, .leaving, .all⟩
  | destination => ⟨.free, .arriving, .all⟩

def side : Role → Side
  | origin => .outbound
  | destination => .inbound
  | _ => .both

/-- The two ends of a search, which may be linked straight to a stop where there is no street. -/
def isSearchEnd : Role → Bool
  | origin | destination => true
  | _ => false

theorem side_agrees (r : Role) :
    r.side.hasOutbound = r.connector.direction.leaves ∧
      r.side.hasInbound = r.connector.direction.arrives := by
  cases r <;> exact ⟨rfl, rfl⟩

end Role

end StreetLinking.Street
