import StreetLinking.Fleet.Polling
import StreetLinking.Toml.Document
/-!
# Settings documents

Settings are written as TOML. Keys that are missing keep their defaults, keys that are not known are
passed over, and a value of the wrong type makes the whole document unreadable. What has been read
is then validated.
-/
namespace StreetLinking

open Number Toml Fleet

namespace Toml

/-- A number as a double; an integer counts if it fits sixty-four bits. -/
def Value.double? : Value → Option Float
  | .float x => some x
  | .integer n => if -(signBit : Int) ≤ n ∧ n ≤ maxCount then some (Float.ofInt n) else none
  | _ => none

def Value.boolean? : Value → Option Bool
  | .boolean b => some b
  | _ => none

def Value.count? : Value → Option Nat
  | .integer n => if 0 ≤ n ∧ n ≤ maxCount then some n.toNat else none
  | _ => none

def Entries.readD {β : Type} (entries : Entries) (key : String) (read : Value → Option β)
    (default : β) : Option β :=
  match entries.lookup key with
  | none => some default
  | some value => read value

end Toml

namespace Settings

def ofEntries? (entries : Entries) : Option Settings := do
  let d : Settings := {}
  let searchRadius ← entries.readD "search_radius_m" Value.double? d.searchRadius
  let duplicateWay ← entries.readD "duplicate_way_epsilon_m" Value.double? d.duplicateWay
  let endpointSnap ← entries.readD "endpoint_snap_epsilon" Value.double? d.endpointSnap
  let warningDistance ← entries.readD "warning_distance_m" Value.double? d.warningDistance
  let crossAreas ← entries.readD "add_extra_edges_to_areas" Value.boolean? d.crossAreas
  return { searchRadius, duplicateWay, endpointSnap, warningDistance, crossAreas }

def checked (s : Settings) : Except Fault Settings :=
  match s.validate with
  | .ok _ => .ok s
  | .error fault => .error (.setting fault)

def ofDocument (source : String) : Except Fault Settings :=
  match (parse? source).bind ofEntries? with
  | some s => s.checked
  | none => .error .document

/-- Reads and validates the content of a file; a file that does not exist has none. -/
def ofFile (name : String) (content : Option ByteArray) : Except Fault Settings :=
  match content with
  | none => .error (.file name .missing)
  | some bytes =>
    match String.fromUTF8? bytes with
    | none => .error (.file name .notUnicode)
    | some source => ofDocument source

end Settings

namespace Fleet.PollingSettings

def ofDocument (source : String) : Except Fault PollingSettings :=
  let d : PollingSettings := {}
  let read (entries : Entries) := entries.readD "interval_secs" Value.count? d.interval
  match (parse? source).bind read with
  | none => .error .document
  | some interval =>
    let s : PollingSettings := ⟨interval⟩
    match s.validate with
    | .ok _ => .ok s
    | .error fault => .error (.setting fault)

end Fleet.PollingSettings

end StreetLinking
