import StreetLinking.Number.Expansion
import StreetLinking.Plane.Point
/-!
# Turns

Which way three points turn is the sign of the area of their triangle. The rounded area is enough
when it is clearly not zero, measured by the products that it is the difference of. Otherwise it is
computed with more and more of what rounding leaves over, until it is clear or nothing is left over.
-/
namespace StreetLinking.Plane

open Number

inductive Turn where
  | left
  | right
  | straight
deriving DecidableEq

/-- The largest share of a double that rounding to it may change. -/
def roundingShare : Float := 1.1102230246251565e-16

/-- Whether an area is too large, signs apart, to be an effect of rounding. -/
def isClear (area bound : Float) : Bool :=
  bound ≤ area || bound ≤ -area

/-- Twice the area of the triangle `a b c`, computed with what rounding leaves over. The products of
which it is the difference have a sum of this size. -/
def refinedArea (a b c : Point Float) (size : Float) : Float :=
  let xa := Rounded.difference a.x c.x
  let ya := Rounded.difference a.y c.y
  let xb := Rounded.difference b.x c.x
  let yb := Rounded.difference b.y c.y
  let main := Expansion.crossProduct xa.value yb.value ya.value xb.value
  let area := main.foldl (fun total part => total + part) 0
  if isClear area ((2 + 12 * roundingShare) * roundingShare * size) then area
  else if xa.rest == 0 && ya.rest == 0 && xb.rest == 0 && yb.rest == 0 then area
  else
    let mixed := (xa.value * yb.rest + yb.value * xa.rest) -
      (ya.value * xb.rest + xb.value * ya.rest)
    let bound := (9 + 64 * roundingShare) * roundingShare * roundingShare * size +
      (3 + 8 * roundingShare) * roundingShare * area.abs
    if isClear (area + mixed) bound then area + mixed
    else
      let parts := [
        Expansion.crossProduct xa.rest yb.value ya.rest xb.value,
        Expansion.crossProduct xa.value yb.rest ya.value xb.rest,
        Expansion.crossProduct xa.rest yb.rest ya.rest xb.rest]
      Expansion.leading (parts.foldl Expansion.add main)

/-- Twice the area of the triangle `a b c`, positive for a left turn, negative for a right one. -/
def doubleArea (a b c : Point Float) : Float :=
  let plus := (a.x - c.x) * (b.y - c.y)
  let minus := (a.y - c.y) * (b.x - c.x)
  let area := plus - minus
  let size := (plus + minus).abs
  if isClear area (3.3306690621773722e-16 * size) then area else refinedArea a b c size

/-- Which way three points turn. An undefined area is no turn. -/
def turn (a b c : Point Float) : Turn :=
  let area := doubleArea a b c
  if 0 < area then .left else if area < 0 then .right else .straight

end StreetLinking.Plane
