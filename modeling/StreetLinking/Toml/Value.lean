/-!
# TOML values and tables

A document is a table. How a table came about decides who may add to it: a header may name a table
only once, dotted keys add values only to tables that were made by dotted keys, and an inline table
is finished where it stands. An array of tables grows by headers of its own.
-/
namespace StreetLinking.Toml

inductive Origin where
  | header
  /-- On the way to a table that a header names. -/
  | implied
  | dotted
  | inline
deriving DecidableEq

inductive Value where
  | integer (value : Int)
  | float (value : Float)
  | boolean (value : Bool)
  | text (value : String)
  /-- A date, a time, or both. -/
  | moment
  /-- An array; one of tables is made by headers. -/
  | array (ofTables : Bool) (items : List Value)
  | table (origin : Origin) (entries : List (String × Value))

abbrev Entries := List (String × Value)

namespace Entries

def put (entries : Entries) (key : String) (value : Value) : Entries :=
  match entries with
  | [] => [(key, value)]
  | (k, v) :: rest => if k == key then (k, value) :: rest else (k, v) :: put rest key value

def addNew (entries : Entries) (key : String) (value : Value) : Option Entries :=
  match entries.lookup key with
  | none => some (entries.put key value)
  | some _ => none

/-- Changes the table at the end of a path, making the tables on the way that are missing; `change`
is told how that table came about. A path of dotted keys may not enter a table that a header has
named; no path enters an inline table; every path enters the last table of an array of tables. -/
def changeAt (dotted : Bool) (change : Origin → Entries → Option Entries) :
    List String → Origin → Entries → Option Entries
  | [], origin, entries => change origin entries
  | key :: path, _, entries =>
    match entries.lookup key with
    | none =>
      let origin : Origin := if dotted then .dotted else .implied
      (changeAt dotted change path origin []).map fun made => entries.put key (.table origin made)
    | some (.table origin inner) =>
      if origin = .inline ∨ (dotted = true ∧ origin = .header) then none
      else
        (changeAt dotted change path origin inner).map fun changed =>
          entries.put key (.table origin changed)
    | some (.array true items) =>
      match items.getLast? with
      | some (.table origin inner) =>
        (changeAt dotted change path origin inner).map fun changed =>
          entries.put key (.array true (items.dropLast ++ [.table origin changed]))
      | _ => none
    | some _ => none

/-- Adds a value under a dotted key. The key may lead through a table that is only implied by a
header, but the table that gets the value must itself have been made by dotted keys. -/
def addDotted (path : List String) (key : String) (value : Value) (entries : Entries) :
    Option Entries :=
  let add (origin : Origin) (inner : Entries) : Option Entries :=
    if path.isEmpty || origin = .dotted then inner.addNew key value else none
  changeAt true add path .header entries

def openTable (entries : Entries) (key : String) : Option Entries :=
  match entries.lookup key with
  | none => some (entries.put key (.table .header []))
  | some (.table .implied inner) => some (entries.put key (.table .header inner))
  | some _ => none

def openItem (entries : Entries) (key : String) : Option Entries :=
  match entries.lookup key with
  | none => some (entries.put key (.array true [.table .header []]))
  | some (.array true items) => some (entries.put key (.array true (items ++ [.table .header []])))
  | some _ => none

end Entries

end StreetLinking.Toml
