import StreetLinking.Number.Scalar
/-!
# Points, lines and boxes

A point has a longitude `x` and a latitude `y`, both in degrees. A line is the list of its points.
Boxes are closed: two boxes that touch meet. A box with an undefined side meets nothing.
-/
namespace StreetLinking.Plane

open Number

structure Point (α : Type) where
  x : α
  y : α
deriving BEq, DecidableEq

abbrev Line (α : Type) := List (Point α)

def segments {α : Type} : Line α → List (Point α × Point α)
  | a :: b :: rest => (a, b) :: segments (b :: rest)
  | _ => []

@[simp] theorem segments_nil {α : Type} : segments ([] : Line α) = [] := rfl

@[simp] theorem segments_singleton {α : Type} (a : Point α) : segments [a] = [] := rfl

@[simp] theorem segments_cons_cons {α : Type} (a b : Point α) (rest : Line α) :
    segments (a :: b :: rest) = (a, b) :: segments (b :: rest) := rfl

theorem length_segments {α : Type} (line : Line α) : (segments line).length = line.length - 1 := by
  induction line with
  | nil => rfl
  | cons a rest ih =>
    cases rest with
    | nil => rfl
    | cons b rest => simp_all [segments]

theorem getElem?_segments {α : Type} (points : Line α) (i : Nat) (a b : Point α) :
    (segments points)[i]? = some (a, b) ↔ points[i]? = some a ∧ points[i + 1]? = some b := by
  induction points generalizing i with
  | nil => simp
  | cons c rest ih =>
    cases rest with
    | nil => simp
    | cons d rest =>
      cases i with
      | zero => simp
      | succ i => simpa using ih i

variable {α : Type} [Scalar α]

structure Box (α : Type) where
  left : α
  bottom : α
  right : α
  top : α
deriving DecidableEq

namespace Box

def ofCorners (p q : Point α) : Box α where
  left := if p.x < q.x then p.x else q.x
  bottom := if p.y < q.y then p.y else q.y
  right := if q.x < p.x then p.x else q.x
  top := if q.y < p.y then p.y else q.y

def ofPoint (p : Point α) : Box α :=
  ⟨p.x, p.y, p.x, p.y⟩

def isDefined (b : Box α) : Bool :=
  !(Scalar.isUndefined b.left || Scalar.isUndefined b.bottom || Scalar.isUndefined b.right ||
    Scalar.isUndefined b.top)

def meets (a b : Box α) : Bool :=
  decide (a.left ≤ b.right) && decide (a.bottom ≤ b.top) &&
    decide (b.left ≤ a.right) && decide (b.bottom ≤ a.top)

def widen (range : α × α) (a : α) : α × α :=
  if range.2 < a then (range.1, a)
  else if a < range.1 then (a, range.2)
  else range

def around? : Line α → Option (Box α)
  | [] => none
  | p :: rest =>
    let (left, right) := rest.foldl (fun range q => widen range q.x) (p.x, p.x)
    let (bottom, top) := rest.foldl (fun range q => widen range q.y) (p.y, p.y)
    some ⟨left, bottom, right, top⟩

/-- The box around two boxes. Where a side is undefined, the side of `b` counts. -/
def join (a b : Box α) : Box α where
  left := if a.left < b.left then a.left else b.left
  bottom := if a.bottom < b.bottom then a.bottom else b.bottom
  right := if b.right < a.right then a.right else b.right
  top := if b.top < a.top then a.top else b.top

end Box

end StreetLinking.Plane
