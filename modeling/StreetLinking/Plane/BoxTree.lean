import StreetLinking.Plane.Point
/-!
# Trees of boxes

Boxes are grouped in a tree whose nodes have boxes around their children. A search for the boxes
that meet a box finds nothing below a node unless the node's box meets it. With defined sides that
leaves out nothing, but a node's box forgets what came before an undefined side (`Box.join`), so
such a side hides the older boxes of its group.

A node has at most six children. The child into which a new entry goes is the one that needs to grow
least. The first node to overflow takes out the two entries farthest from its center, and they are
entered again; a node that overflows then is cut in two.
-/
namespace StreetLinking.Plane

open Number

variable {α : Type} [Scalar α]

namespace Box

/-! ## Measures of boxes -/

def positivePart (a : α) : α :=
  if 0 < a then a else 0

/-- The area of a box. A box with an undefined side, or with its sides crossed, has none. -/
def area (b : Box α) : α :=
  positivePart (b.top - b.bottom) * positivePart (b.right - b.left)

def sharedArea (a b : Box α) : α :=
  area
    { left := if b.left < a.left then a.left else b.left
      bottom := if b.bottom < a.bottom then a.bottom else b.bottom
      right := if a.right < b.right then a.right else b.right
      top := if a.top < b.top then a.top else b.top }

/-- Half the length of the border of a box. -/
def girth (b : Box α) : α :=
  positivePart (b.right - b.left + (b.top - b.bottom))

def holds (a b : Box α) : Bool :=
  decide (a.left ≤ b.left) && decide (a.bottom ≤ b.bottom) &&
    decide (b.right ≤ a.right) && decide (b.top ≤ a.top)

def center (b : Box α) : Point α :=
  ⟨(b.left + b.right) / (1 + 1), (b.bottom + b.top) / (1 + 1)⟩

def offCenter (a b : Box α) : α :=
  let dx := b.center.x - a.center.x
  let dy := b.center.y - a.center.y
  dx * dx + dy * dy

/-- A number above which there are only infinite ones. -/
def largest : α :=
  Scalar.ofDouble 1.7976931348623157e308

/-- The box around nothing. Its sides are crossed, and those of any finite box replace them. -/
def nothing : Box α :=
  ⟨largest, largest, 0 - largest, 0 - largest⟩

end Box

/-- Boxes in groups. An entry has a box and the place of what it stands for; a node has a box around
its children. -/
inductive BoxTree (α : Type) where
  | entry (box : Box α) (place : Nat)
  | node (box : Box α) (children : List (BoxTree α))

namespace BoxTree

def box : BoxTree α → Box α
  | entry box _ | node box _ => box

def isEntry : BoxTree α → Bool
  | entry _ _ => true
  | node _ _ => false

def isLowest : BoxTree α → Bool
  | entry _ _ => false
  | node _ children => children.head?.all isEntry

def spanFrom (start : Box α) (trees : List (BoxTree α)) : Box α :=
  trees.foldl (fun b t => b.join t.box) start

/-- The box around some trees that a node above them has. Its left and bottom sides are at most the
largest number and its other sides at least the least one, even if all trees lie at infinity. -/
def span (trees : List (BoxTree α)) : Box α :=
  spanFrom Box.nothing trees

/-- The box around some trees as it is, infinite sides included. -/
def extent : List (BoxTree α) → Box α
  | [] => Box.nothing
  | t :: rest => spanFrom t.box rest

def ofChildren (children : List (BoxTree α)) : BoxTree α :=
  node (span children) children

/-! ## The child to grow -/

/-- The number beside the least value, the first one of equal values; zero without a value below the
largest number. -/
def leastBelow (values : List (α × Nat)) : Nat :=
  (values.foldl (fun best value => if value.1 < best.1 then value else best) (Box.largest, 0)).2

def cheaper : List α → List α → Bool
  | a :: rest, b :: others => decide (a < b) || (a == b && cheaper rest others)
  | _, _ => false

def cheapest : List (List α) → Nat
  | [] => 0
  | first :: rest =>
    ((rest.zipIdx 1).foldl (fun best costs => if cheaper costs.1 best.1 then costs else best)
      (first, 0)).2

/-- What it costs that a child grows around a box: the area newly shared with other children, which
counts next to the entries only, the area won, and the area then. -/
def costs (box : Box α) (children : List (BoxTree α)) (place : Nat) (child : BoxTree α) : List α :=
  let grown := child.box.join box
  let shared (b : Box α) : α :=
    (children.eraseIdx place).foldl (fun total other => total + b.sharedArea other.box) 0
  let overlap := if child.isLowest then shared grown - shared child.box else 0
  [overlap, grown.area - child.box.area, grown.area]

/-- The place of the child into which a box goes: the least one that holds the box already, or else
the one that grows at the least cost. -/
def chosen (box : Box α) (children : List (BoxTree α)) : Nat :=
  match children.zipIdx.filter fun c => c.1.box.holds box with
  | [] => cheapest (children.zipIdx.map fun c => costs box children c.2 c.1)
  | holding => leastBelow (holding.map fun c => (c.1.box.area, c.2))

/-! ## Nodes that overflow -/

def capacity : Nat := 6

def fewest : Nat := 3

def takenOut : Nat := 2

/-- Cuts a list of children in two where the boxes around both parts share the least area, or else
where their areas are least. -/
def cut (children : List (BoxTree α)) : List (BoxTree α) × List (BoxTree α) :=
  let place := cheapest ([fewest, fewest + 1].map fun size =>
    let first := extent (children.take size)
    let second := extent (children.drop size)
    [first.sharedArea second, first.area + second.area])
  children.splitAt (fewest + place)

/-- Cuts the children of a node in two, across the axis along which the parts have shorter
borders. -/
def halves (children : List (BoxTree α)) : List (BoxTree α) × List (BoxTree α) :=
  let byLeft := children.mergeSort fun a b => a.box.left ≤ b.box.left
  let byBottom := byLeft.mergeSort fun a b => a.box.bottom ≤ b.box.bottom
  let borders (sorted : List (BoxTree α)) (axis : Nat) : List (α × Nat) :=
    [fewest, fewest + 1].map fun size =>
      ((span (sorted.take size)).girth + (span (sorted.drop size)).girth, axis)
  if leastBelow (borders byLeft 0 ++ borders byBottom 1) = 0 then
    cut (byBottom.mergeSort fun a b => a.box.left ≤ b.box.left)
  else cut byBottom

/-- What a tree that has grown leaves to be done: nothing, to put its second half beside it, or to
enter again what it has taken out. -/
inductive Growth (α : Type) where
  | settled
  | halved (second : BoxTree α)
  | loosened (entries : List (BoxTree α))

/-- A node that takes out the entries farthest from its center when it overflows. -/
def loosen (box : Box α) (children : List (BoxTree α)) : BoxTree α × Growth α :=
  if capacity < children.length then
    let sorted := children.mergeSort fun a b => box.offCenter a.box ≤ box.offCenter b.box
    let kept := children.length - takenOut
    (ofChildren (sorted.take kept), .loosened (sorted.drop kept).reverse)
  else (node box children, .settled)

def halve (box : Box α) (children : List (BoxTree α)) : BoxTree α × Growth α :=
  if capacity < children.length then
    let (first, second) := halves children
    (ofChildren first, .halved (ofChildren second))
  else (node box children, .settled)

/-! ## Entering and finding -/

mutual

/-- Adds an entry to a lowest node of a tree; `settle` makes a node from its box and children. -/
def add (settle : Box α → List (BoxTree α) → BoxTree α × Growth α) (e : BoxTree α) :
    BoxTree α → BoxTree α × Growth α
  | entry box place => (entry box place, .settled)
  | node box children =>
    let around := box.join e.box
    if (node box children).isLowest then settle around (children ++ [e])
    else
      match addAt settle e children (chosen e.box children) with
      | (children, .settled) => (node around children, .settled)
      | (children, .halved second) => settle (around.join second.box) (children ++ [second])
      | (children, .loosened entries) => (ofChildren children, .loosened entries)

def addAt (settle : Box α → List (BoxTree α) → BoxTree α × Growth α) (e : BoxTree α) :
    List (BoxTree α) → Nat → List (BoxTree α) × Growth α
  | [], _ => ([], .settled)
  | t :: rest, 0 =>
    let (t, growth) := add settle e t
    (t :: rest, growth)
  | t :: rest, place + 1 =>
    let (rest, growth) := addAt settle e rest place
    (t :: rest, growth)

end

/-- Enters what has been taken out again. A root that is cut in two gets a root above it. -/
def enterAgain (root e : BoxTree α) : BoxTree α :=
  match add halve e root with
  | (root, .halved second) => node (root.box.join second.box) [root, second]
  | (root, _) => root

def enter (root : BoxTree α) (box : Box α) (place : Nat) : BoxTree α :=
  match add loosen (entry box place) root with
  | (root, .loosened entries) => entries.foldl enterAgain root
  | (root, _) => root

def ofBoxes (boxes : List (Box α)) : BoxTree α :=
  boxes.zipIdx.foldl (fun root b => root.enter b.1 b.2) (node Box.nothing [])

mutual

def places (box : Box α) : BoxTree α → List Nat
  | entry own place => if own.meets box then [place] else []
  | node own children => if own.meets box then placesOfAll box children else []

def placesOfAll (box : Box α) : List (BoxTree α) → List Nat
  | [] => []
  | t :: rest => places box t ++ placesOfAll box rest

end

end BoxTree

end StreetLinking.Plane
