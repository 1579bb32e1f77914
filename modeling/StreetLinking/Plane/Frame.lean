import StreetLinking.Plane.Location
/-!
# Local frames

Around a point, the surface of the earth is treated as a plane in degrees of latitude: longitudes
are scaled by one factor, fixed for all comparisons made around that point. Distances, the nearest
location on a line and the box to search are computed in that plane.
-/
namespace StreetLinking.Plane

open Number

/-- A plane in which longitudes count `xScale` degrees of latitude. -/
structure Frame (α : Type) where
  xScale : α
deriving DecidableEq

namespace Frame

variable {α : Type} [Scalar α]

def project (f : Frame α) (p : Point α) : Point α :=
  ⟨p.x * f.xScale, p.y⟩

/-- The box that reaches `radius` to the north and south of a point, and as far to the east and
west. -/
def searchBox (f : Frame α) (center : Point α) (radius : α) : Box α :=
  let dx := radius / f.xScale
  Box.ofCorners ⟨center.x - dx, center.y - radius⟩ ⟨center.x + dx, center.y + radius⟩

def span (p q : Point α) : α :=
  Scalar.hypot (p.x - q.x) (p.y - q.y)

def distance (f : Frame α) (p q : Point α) : α :=
  span (f.project p) (f.project q)

/-- The fraction along `a b` of the point nearest to `p`. A segment of no length is its start. -/
def footFraction (p a b : Point α) : α :=
  let dx := b.x - a.x
  let dy := b.y - a.y
  let square := dx * dx + dy * dy
  if square == 0 then 0
  else Scalar.unitClamp (((p.x - a.x) * dx + (p.y - a.y) * dy) / square)

def distanceAt (p a b : Point α) (fraction : α) : α :=
  span p ⟨a.x + fraction * (b.x - a.x), a.y + fraction * (b.y - a.y)⟩

def segmentDistance (p a b : Point α) : α :=
  distanceAt p a b (footFraction p a b)

def segmentDistances (f : Frame α) (p : Point α) (line : Line α) : List α :=
  (segments line).map fun s => segmentDistance (f.project p) (f.project s.1) (f.project s.2)

/-- Distance from a point to the nearest point of a line; a line without points is far away. -/
def distanceToLine (f : Frame α) (p : Point α) (line : Line α) : α :=
  match line with
  | [] => Scalar.far
  | [q] => f.distance p q
  | line => (f.segmentDistances p line).foldl Scalar.least Scalar.far

theorem distanceToLine_eq_foldl (f : Frame α) (p : Point α) {line : Line α}
    (hline : 2 ≤ line.length) :
    f.distanceToLine p line = (f.segmentDistances p line).foldl Scalar.least Scalar.far := by
  unfold distanceToLine
  split
  · simp at hline
  · simp at hline
  · rfl

structure Candidate (α : Type) where
  segment : Nat
  fraction : α
  distance : α

/-- Goes through the segments numbered from `next` on and keeps the first of the nearest ones. -/
def nearestFrom (p : Point α) : Nat → Candidate α → List (Point α × Point α) → Candidate α
  | _, best, [] => best
  | next, best, (a, b) :: rest =>
    let fraction := footFraction p a b
    let distance := distanceAt p a b fraction
    nearestFrom p (next + 1)
      (if distance < best.distance then ⟨next, fraction, distance⟩ else best) rest

/-- The location on a line that is nearest to a point; of equally near segments the first. -/
def locate (f : Frame α) (p : Point α) (line : Line α) : Location α :=
  let best := nearestFrom (f.project p) 0 ⟨0, 0, Scalar.far⟩
    ((segments line).map fun s => (f.project s.1, f.project s.2))
  Location.along best.segment best.fraction

end Frame

end StreetLinking.Plane
