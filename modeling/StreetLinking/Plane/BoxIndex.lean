import StreetLinking.Plane.BoxTree
/-!
# Items that are found by their boxes

An index holds items, the latest first. As long as the boxes of all of them have defined sides, a
search finds exactly the items whose boxes meet the box in question. Once a box with an undefined
side is entered, the index keeps the tree of all boxes, and a search finds what the tree finds.
-/
namespace StreetLinking.Plane

open Number

/-- Items with boxes, the latest first, and the tree of their boxes once one has an undefined
side. -/
structure BoxIndex (α β : Type) where
  items : List β := []
  tree? : Option (BoxTree α) := none

namespace BoxIndex

variable {α β : Type} [Scalar α]

def insert (boxOf : β → Box α) (index : BoxIndex α β) (item : β) : BoxIndex α β where
  items := item :: index.items
  tree? :=
    match index.tree? with
    | some tree => some (tree.enter (boxOf item) index.items.length)
    | none =>
      if (boxOf item).isDefined then none
      else some (BoxTree.ofBoxes ((item :: index.items).reverse.map boxOf))

def itemsAt (index : BoxIndex α β) (places : List Nat) : List β :=
  let items := index.items.reverse.toArray
  places.filterMap fun place => items[place]?

/-- The items whose boxes meet a box. If a box of the index has an undefined side, only those that
the tree finds. -/
def search (boxOf : β → Box α) (index : BoxIndex α β) (box : Box α) : List β :=
  let found :=
    match index.tree? with
    | none => index.items
    | some tree =>
      if index.items.all fun item => (boxOf item).isDefined then index.items
      else index.itemsAt (tree.places box)
  found.filter fun item => (boxOf item).meets box

@[simp] theorem items_insert (boxOf : β → Box α) (index : BoxIndex α β) (item : β) :
    (index.insert boxOf item).items = item :: index.items := rfl

omit [Scalar α] in
theorem mem_items_of_mem_itemsAt {index : BoxIndex α β} {places : List Nat} {item : β}
    (h : item ∈ index.itemsAt places) : item ∈ index.items := by
  obtain ⟨place, _, h⟩ := List.mem_filterMap.1 h
  simpa using Array.mem_of_getElem? h

theorem search_of_isDefined {boxOf : β → Box α} {index : BoxIndex α β} (box : Box α)
    (h : ∀ item ∈ index.items, (boxOf item).isDefined = true) :
    index.search boxOf box = index.items.filter fun item => (boxOf item).meets box := by
  unfold search
  split
  · rfl
  · simp [List.all_eq_true.2 h]

theorem meets_of_mem_search {boxOf : β → Box α} {index : BoxIndex α β} {box : Box α} {item : β}
    (h : item ∈ index.search boxOf box) :
    item ∈ index.items ∧ (boxOf item).meets box = true := by
  obtain ⟨found, meets⟩ := List.mem_filter.1 h
  refine ⟨?_, meets⟩
  split at found
  · exact found
  · split at found
    · exact found
    · exact mem_items_of_mem_itemsAt found

end BoxIndex

end StreetLinking.Plane
