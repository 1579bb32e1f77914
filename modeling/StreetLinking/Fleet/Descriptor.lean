import StreetLinking.Fleet.Key
import StreetLinking.Plane.Point
import StreetLinking.Street.Role
/-!
# Reported entities

A feed reports shared vehicles and bike stations, each with a key and a position. Its kind decides
how it is linked and for which mode.
-/
namespace StreetLinking.Fleet

open Plane Street

inductive VehicleType where
  | car
  | motorbike
  | kickScooter
  | bike
deriving DecidableEq

namespace VehicleType

def ofName? : String → Option VehicleType
  | "car" => some car
  | "motorbike" => some motorbike
  | "kick_scooter" => some kickScooter
  | "bike" => some bike
  | _ => none

def mode : VehicleType → Mode
  | car | motorbike => .car
  | kickScooter | bike => .bicycle

end VehicleType

inductive EntityKind where
  | vehicle (type : VehicleType)
  | bikeStation (capacity : Nat)
deriving DecidableEq

namespace EntityKind

def role : EntityKind → Role
  | vehicle _ => .vehicle
  | bikeStation _ => .bikeStation

def linkingMode : EntityKind → Mode
  | vehicle type => type.mode
  | bikeStation _ => .walk

end EntityKind

/-- An entity as a feed reports it. -/
structure Descriptor where
  key : Key
  kind : EntityKind
  name : String
  position : Point Float

namespace Descriptor

/-- A vehicle is named by its key. -/
def vehicle (key : Key) (type : VehicleType) (position : Point Float) : Descriptor :=
  ⟨key, .vehicle type, key.text, position⟩

def bikeStation (key : Key) (name : String) (capacity : Nat) (position : Point Float) :
    Descriptor :=
  ⟨key, .bikeStation capacity, name, position⟩

end Descriptor

end StreetLinking.Fleet
