/-!
# Sums and products of doubles without rounding

A number that no double holds can be written as an expansion: a list of doubles, the smallest one
first, whose exact sum it is. Adding, subtracting or multiplying two doubles gives an expansion of
two parts, the rounded result and what rounding left over. Nothing is lost as long as no result is
too large or too small for a double.
-/
namespace StreetLinking.Number

/-- A rounded result and what it falls short of the exact one. -/
structure Rounded where
  value : Float
  rest : Float

namespace Rounded

def sum (a b : Float) : Rounded :=
  let value := a + b
  let fromB := value - a
  let fromA := value - fromB
  ⟨value, (a - fromA) + (b - fromB)⟩

def difference (a b : Float) : Rounded :=
  let value := a - b
  let fromB := a - value
  let fromA := value + fromB
  ⟨value, (a - fromA) + (fromB - b)⟩

/-- Two to the power of twenty-seven, and one: multiplying by it separates the upper from the lower
half of the digits of a double. -/
def separator : Float := 134217729.0

def halves (a : Float) : Float × Float :=
  let wide := separator * a
  let upper := wide - (wide - a)
  (upper, a - upper)

def product (a b : Float) : Rounded :=
  let value := a * b
  let (upperA, lowerA) := halves a
  let (upperB, lowerB) := halves b
  let missing := value - upperA * upperB - lowerA * upperB - upperA * lowerB
  ⟨value, lowerA * lowerB - missing⟩

/-- The difference of two rounded results together with what these fall short. -/
def minus (a b : Rounded) : List Float :=
  let low := difference a.rest b.rest
  let carry := sum a.value low.value
  let middle := difference carry.rest b.value
  let high := sum carry.value middle.value
  [low.rest, middle.rest, high.rest, high.value]

end Rounded

namespace Expansion

def isNotLarger (a b : Float) : Bool :=
  (decide (a < b)) == decide (-a < b)

/-- Adds doubles to a running sum, keeping what each rounding leaves over unless it is zero. -/
def accumulate (total : Float) : List Float → List Float
  | [] => if total == 0 then [] else [total]
  | a :: rest =>
    let next := Rounded.sum total a
    if next.rest == 0 then accumulate next.value rest
    else next.rest :: accumulate next.value rest

def add (e f : List Float) : List Float :=
  match e.merge f isNotLarger with
  | [] => []
  | first :: rest => accumulate first rest

def crossProduct (a b c d : Float) : List Float :=
  (Rounded.product a b).minus (Rounded.product c d)

/-- The largest part of an expansion, which has the sign of the whole. -/
def leading (e : List Float) : Float :=
  e.getLastD 0

end Expansion

end StreetLinking.Number
