import StreetLinking.Plane.Point
/-!
# Locations on a line

A location names a point of a line by the number of a segment and a fraction of that segment. The
end of a segment is the start of the next one, so the end of a line of `n` points has the segment
number `n - 1`. A cut at a location gives two lines that meet there and have at least two points
each.
-/
namespace StreetLinking.Plane

open Number

/-- A segment of a line and how far along it. -/
structure Location (α : Type) where
  segment : Nat
  fraction : α
deriving DecidableEq

namespace Location

variable {α : Type} [Scalar α]

/-- The location a fraction along a segment: past the end it is the start of the next segment,
before the start, or undefined, it is the start of this one. -/
def along (segment : Nat) (fraction : α) : Location α :=
  if 1 ≤ fraction then ⟨segment + 1, 0⟩
  else ⟨segment, if 0 < fraction then fraction else 0⟩

/-- Less than `epsilon` from the first point, as a fraction of the first segment. -/
def nearStart (l : Location α) (epsilon : α) : Bool :=
  l.segment == 0 && decide (l.fraction < epsilon)

/-- On the last point of a line of `points` points, or less than `epsilon` from it as a fraction of
the last segment. -/
def nearEnd (l : Location α) (points : Nat) (epsilon : α) : Bool :=
  points == 0 || decide (points - 1 ≤ l.segment) ||
    (decide (2 ≤ points) && l.segment == points - 2 && decide (1 - epsilon < l.fraction))

def between (a b : Point α) (fraction : α) : Point α :=
  ⟨a.x + (b.x - a.x) * fraction, a.y + (b.y - a.y) * fraction⟩

/-- The point of a line at a location; segments past the end stand for the last point. -/
def point? (l : Location α) (line : Line α) : Option (Point α) :=
  match line.drop l.segment with
  | a :: b :: _ => some (between a b l.fraction)
  | _ => line.getLast?

/-- Cuts a line of at least two points in two. The point of the cut ends the first part, unless a
point equal to it already does, and begins the second part. -/
def cut? (l : Location α) (line : Line α) : Option (Line α × Line α) :=
  if line.length < 2 then none
  else
    (l.point? line).map fun p =>
      let whole := min l.segment (line.length - 2) + 1
      let before := line.take whole
      let first := if whole < 2 || !(before.getLast? == some p) then before ++ [p] else before
      (first, p :: line.drop whole)

end Location

end StreetLinking.Plane
