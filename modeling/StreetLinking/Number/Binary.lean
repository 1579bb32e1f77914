/-!
# The exact content of a double

A finite double is a whole number of units of `2 ^ -1074`, the smallest positive double, with a sign
of its own so that the two zeros stay apart. Texts and the total order, which must be exact, are
computed on whole numbers. Conversions to counts are saturating: a count is a whole number that fits
sixty-four bits.
-/
namespace StreetLinking.Number

/-- The largest whole number that a count can hold: all of its sixty-four bits are set. -/
def maxCount : Nat := 0xFFFFFFFFFFFFFFFF

def signBit : Nat := 0x8000000000000000

/-- The value of the lowest bit above the fifty-two bits of the fraction of a double. -/
def fractionSpan : Nat := 0x10000000000000

/-- A decoded double: a finite one is `significand * 2 ^ exponent` units of `2 ^ -1074`. -/
inductive Content where
  | finite (negative : Bool) (significand exponent : Nat)
  | infinite (negative : Bool)
  | undefined
deriving DecidableEq

def content (x : Float) : Content :=
  let bits := x.toBits.toNat
  let negative := decide (signBit ≤ bits)
  let fraction := bits % fractionSpan
  let field := bits / fractionSpan % 2048
  if field = 2047 then
    if fraction = 0 then .infinite negative else .undefined
  else if field = 0 then .finite negative fraction 0
  else .finite negative (fractionSpan + fraction) (field - 1)

/-- The place of a double in the total order, in which negative zero comes before zero: all bits of
a negative double are turned over, and of any other one only the sign bit. -/
def orderKey (x : Float) : UInt64 :=
  let bits := x.toBits
  if 0x8000000000000000 ≤ bits then ~~~bits else bits ||| 0x8000000000000000

def totalOrder (x y : Float) : Ordering :=
  compare (orderKey x) (orderKey y)

/-- The whole part of a double as a count; negative and undefined doubles give zero. -/
def truncate (x : Float) : Nat :=
  x.toUInt64.toNat

/-- The count nearest to a double, a half going up; negative and undefined doubles give zero. -/
def round (x : Float) : Nat :=
  let whole := truncate x
  if x - Float.ofNat whole ≥ 0.5 then min (whole + 1) maxCount else whole

theorem truncate_le_maxCount (x : Float) : truncate x ≤ maxCount := by
  have := x.toUInt64.toNat_lt
  simp only [truncate, maxCount]
  omega

theorem round_le_maxCount (x : Float) : round x ≤ maxCount := by
  simp only [round]
  split
  · exact Nat.min_le_right _ _
  · exact truncate_le_maxCount x

def longLength : Float := 1e150

def shortLength : Float := 1e-130

def scaleUp : Float := Float.ofBits 0x6570000000000000

def scaleDown : Float := Float.ofBits 0x1A70000000000000

/-- The hypotenuse of a right triangle, without overflow or underflow on the way to it; infinite as
soon as one side is infinite. -/
def hypotenuse (x y : Float) : Float :=
  let a := x.abs
  let b := y.abs
  if a.isInf || b.isInf then 1.0 / 0.0
  else if a.isNaN || b.isNaN then a + b
  else
    let longer := if a < b then b else a
    let shorter := if a < b then a else b
    let scaled (scale back : Float) : Float :=
      (longer * scale * (longer * scale) + shorter * scale * (shorter * scale)).sqrt * back
    if longLength < longer then scaled scaleDown scaleUp
    else if longer < shortLength then scaled scaleUp scaleDown
    else (longer * longer + shorter * shorter).sqrt

end StreetLinking.Number
