import StreetLinking.Number.Binary
/-!
# Numbers that coordinates may be made of

Geometry and the street graph are written over any type of numbers with the operations below, so
that one definition serves for doubles, on which the library runs, and for exact numbers. The class
holds operations only and no laws: doubles obey few. A number that differs from itself is undefined,
and comparisons with an undefined number fail.
-/
namespace StreetLinking.Number

/-- The operations that planar geometry needs of its numbers. -/
class Scalar (α : Type) extends Add α, Sub α, Mul α, Div α, Zero α, One α, BEq α, LT α, LE α where
  decideLT (a b : α) : Decidable (a < b)
  decideLE (a b : α) : Decidable (a ≤ b)
  /-- Length of the hypotenuse over two sides. -/
  hypot : α → α → α
  /-- A distance beyond every other. -/
  far : α
  /-- Total order for ranking. -/
  order : α → α → Ordering
  /-- The nearest double. -/
  toDouble : α → Float
  /-- The number that a double stands for. -/
  ofDouble : Float → α

attribute [reducible] Scalar.decideLT Scalar.decideLE

attribute [instance] Scalar.decideLT Scalar.decideLE

namespace Scalar

variable {α : Type} [Scalar α]

def isUndefined (a : α) : Bool :=
  !(a == a)

/-- The smaller of two numbers, or the other one if one of them is undefined. -/
def least (a b : α) : α :=
  if isUndefined a then b
  else if isUndefined b then a
  else if b < a then b
  else a

/-- Moves a number into the interval from zero to one; an undefined number stays. -/
def unitClamp (a : α) : α :=
  if a < 0 then 0
  else if 1 < a then 1
  else a

end Scalar

instance : Scalar Float where
  decideLT _ _ := inferInstance
  decideLE _ _ := inferInstance
  hypot := hypotenuse
  far := 1.0 / 0.0
  order := totalOrder
  toDouble x := x
  ofDouble x := x

end StreetLinking.Number
