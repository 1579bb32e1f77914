import StreetLinking.Number.Scalar
/-!
# Ranking by distance

Items are ranked by distance, those at one distance by a key. The nearest ones are a chain: starting
from the first, each next item belongs to it as long as it is less than a given gap farther away
than the one before. Items at an undefined distance are left out. As the order is total, the result
does not depend on the order in which the items were given.
-/
namespace StreetLinking.Nearest

open Number

structure Ranked (α β : Type) where
  item : β
  distance : α
deriving DecidableEq

variable {α β κ : Type} [Scalar α] [Ord κ]

/-- Whether one item comes no later than another: by distance, then by key. -/
def notAfter (key : β → κ) (a b : Ranked α β) : Bool :=
  ((Scalar.order a.distance b.distance).then (compare (key a.item) (key b.item))).isLE

/-- The items that have a defined distance, each with it. -/
def measured (distance : β → α) (items : List β) : List (Ranked α β) :=
  (items.map fun item => ⟨item, distance item⟩).filter fun r => !Scalar.isUndefined r.distance

def rank (distance : β → α) (key : β → κ) (items : List β) : List (Ranked α β) :=
  (measured distance items).mergeSort (notAfter key)

/-- The items that continue a chain after one at distance `last`. -/
def chainAfter (gap last : α) : List (Ranked α β) → List (Ranked α β)
  | [] => []
  | r :: rest => if gap ≤ r.distance - last then [] else r :: chainAfter gap r.distance rest

def chain (gap : α) : List (Ranked α β) → List (Ranked α β)
  | [] => []
  | r :: rest => r :: chainAfter gap r.distance rest

def nearest (distance : β → α) (key : β → κ) (gap : α) (items : List β) : List (Ranked α β) :=
  chain gap (rank distance key items)

omit [Ord κ] in
@[simp] theorem chain_nil (gap : α) : chain gap ([] : List (Ranked α β)) = [] := rfl

omit [Ord κ] in
theorem chainAfter_prefix (gap last : α) (rs : List (Ranked α β)) :
    chainAfter gap last rs <+: rs := by
  induction rs generalizing last with
  | nil => exact List.prefix_refl _
  | cons r rest ih =>
    rw [chainAfter]
    split
    · exact List.nil_prefix
    · exact List.cons_prefix_cons.2 ⟨rfl, ih r.distance⟩

omit [Ord κ] in
theorem chain_prefix (gap : α) (rs : List (Ranked α β)) : chain gap rs <+: rs := by
  cases rs with
  | nil => exact List.prefix_refl _
  | cons r rest => exact List.cons_prefix_cons.2 ⟨rfl, chainAfter_prefix gap r.distance rest⟩

theorem rank_perm (distance : β → α) (key : β → κ) (items : List β) :
    (rank distance key items).Perm (measured distance items) :=
  List.mergeSort_perm _ _

end StreetLinking.Nearest
