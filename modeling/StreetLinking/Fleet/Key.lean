/-!
# Keys of entities

An entity that a feed reports is known by its provider and an identifier, which stay the same from
one report to the next. Keys are ordered by provider and then by identifier, character by character.
-/
namespace StreetLinking.Fleet

structure Key where
  provider : String
  id : String
deriving DecidableEq

namespace Key

def text (k : Key) : String :=
  k.provider ++ ":" ++ k.id

def notAfter (a b : Key) : Bool :=
  decide (a.provider < b.provider) || (a.provider == b.provider && decide (a.id ≤ b.id))

def sort (keys : List Key) : List Key :=
  keys.mergeSort notAfter

end Key

end StreetLinking.Fleet
