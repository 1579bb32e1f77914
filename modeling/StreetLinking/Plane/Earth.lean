import StreetLinking.Plane.Frame
/-!
# Lengths on the earth

Lengths of streets are great-circle lengths in metres, kept as whole millimetres. Search radii are
given in metres and turned into degrees of latitude.
-/
namespace StreetLinking.Plane

open Number

def radians (degrees : Float) : Float :=
  degrees * (3.14159265358979323846 / 180.0)

def degreeLength : Float :=
  radians 6371010.0

def degreesOfMetres (metres : Float) : Float :=
  metres / degreeLength

def metresOfDegrees (degrees : Float) : Float :=
  degrees * degreeLength

/-- The smallest scale of longitudes; it keeps search boxes finite near the poles. -/
def smallestScale : Float := 1e-6

/-- The scale of longitudes at a latitude. It is a cosine, so it is at most one. -/
def scaleAtLatitude (latitude : Float) : Float :=
  let scale := (radians latitude).cos
  if smallestScale < scale then
    if scale < 1.0 then scale else 1.0
  else smallestScale

def Point.isFinite (p : Point Float) : Bool :=
  p.x.isFinite && p.y.isFinite

/-- An arc between two points, in radians. An arcsine is no more than a quarter of a turn, so that
only an undefined arc lies outside of these bounds. -/
def boundedArc (arc : Float) : Float :=
  if arc < 0.0 then 0.0
  else if 4.0 < arc then 4.0
  else arc

/-- Metres along the great circle between two points given by longitude and latitude, by the
haversine formula on a sphere of mean radius. Nothing can be computed of the functions of the
circle here, so the formula spells out what it relies on: the square of a sine does not depend on
the sign of the angle, the sine of zero is zero and that of an infinite angle is undefined. -/
def greatCircle (a b : Point Float) : Float :=
  if !(a.isFinite && b.isFinite) then 0.0 / 0.0
  else if a == b then 0.0
  else
    let latitude := (radians (b.y - a.y).abs / 2.0).sin
    let longitude := (radians (b.x - a.x).abs / 2.0).sin
    let h := latitude * latitude + (radians a.y).cos * (radians b.y).cos * (longitude * longitude)
    6371008.8 * boundedArc (2.0 * h.sqrt.asin)

def millimetres (metres : Float) : Nat :=
  round (metres * 1000.0)

variable {α : Type} [Scalar α]

def Point.toDouble (p : Point α) : Point Float :=
  ⟨Scalar.toDouble p.x, Scalar.toDouble p.y⟩

def metresBetween (a b : Point α) : Float :=
  greatCircle a.toDouble b.toDouble

def lineMetres (line : Line α) : Float :=
  (segments line).foldl (fun sum s => sum + metresBetween s.1 s.2) 0.0

def Frame.around (center : Point α) : Frame α :=
  ⟨Scalar.ofDouble (scaleAtLatitude (Scalar.toDouble center.y))⟩

end StreetLinking.Plane
