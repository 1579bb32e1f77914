import StreetLinking.Number.Decimal
/-!
# Annotations

Problems found while the street graph is built that do not keep it from being used.
-/
namespace StreetLinking.Street

open Number

inductive Annotation where
  | stopUnlinked (vertex : Nat) (id label : String)
  | bikeRentalUnlinked (vertex : Nat) (id label : String)
  | bikeParkUnlinked (vertex : Nat) (id label : String)
  /-- The nearest street edge is farther away than the warning distance. -/
  | stopLinkedTooFar (vertex : Nat) (label : String) (metres : Float)
  | stopsOutsideCoverage (count total : Nat)

namespace Annotation

def percentage (count total : Nat) : Float :=
  if total = 0 then 0.0 else Float.ofNat count / Float.ofNat total * 100.0

def unlinkedText (what id label : String) : String :=
  what ++ " " ++ id ++ " (" ++ label ++ ") not near any streets; it will not be usable"

def text : Annotation → String
  | stopUnlinked _ id label => unlinkedText "Stop" id label
  | bikeRentalUnlinked _ id label => unlinkedText "Bike rental station" id label
  | bikeParkUnlinked _ id label => unlinkedText "Bike park" id label
  | stopLinkedTooFar _ label metres =>
    "Stop " ++ label ++ " is " ++ tenthsText metres ++ " m from the nearest street it was linked to"
  | stopsOutsideCoverage count total =>
    toString count ++ " of " ++ toString total ++ " transit stops (" ++
      tenthsText (percentage count total) ++
      "%) are outside the street network coverage area and may be unreachable"

end Annotation

end StreetLinking.Street
