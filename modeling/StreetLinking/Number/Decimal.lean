import StreetLinking.Number.Binary
/-!
# Decimal text of doubles

Two texts are needed: the shortest decimal that reads back as the same double, always written
positionally, and the exact value rounded to a fixed number of places. Both work on the exact
fraction that a double is, so no step rounds on the way. Rounding an exact quotient to a number of
significant digits serves both.
-/
namespace StreetLinking.Number

/-- The whole number nearest to `num / den`, a tie going to the even neighbour. -/
def roundQuotient (num den : Nat) : Nat :=
  let quotient := num / den
  let rest := 2 * (num % den)
  if rest < den then quotient
  else if den < rest then quotient + 1
  else quotient + quotient % 2

structure Decimal where
  coefficient : Nat
  scale : Int
deriving DecidableEq

namespace Decimal

/-- The number of units of `2 ^ -1076` in one; the neighbours of a double and the ends of the
interval that rounds to it are whole in this unit. -/
def one : Nat := 1 <<< 1076

def tenTo (k : Nat) : Nat := Nat.pow 10 k

def overPower (num den : Nat) (scale : Int) : Nat × Nat :=
  match scale with
  | .ofNat k => (num, den * tenTo k)
  | .negSucc k => (num * tenTo (k + 1), den)

def leadingExponent (num den : Nat) : Int :=
  if den ≤ num then ((Nat.toDigits 10 (num / den)).length : Int) - 1
  else
    let digits := (Nat.toDigits 10 (den / num)).length
    if den ≤ num * tenTo (digits - 1) then 1 - (digits : Int) else -(digits : Int)

def significant (digits significand exponent : Nat) : Decimal :=
  let value := (4 * significand) <<< exponent
  if value = 0 then ⟨0, 0⟩
  else
    let scale := leadingExponent value one + 1 - digits
    let (num, den) := overPower value one scale
    ⟨roundQuotient num den, scale⟩

/-- The interval of fractions that read back as the double, in units of `2 ^ -1076`: its two ends,
and whether the ends belong to it. -/
def readingInterval (significand exponent : Nat) : Nat × Nat × Bool :=
  let below := if significand = fractionSpan ∧ 0 < exponent then 1 else 2
  ((4 * significand - below) <<< exponent, (4 * significand + 2) <<< exponent, significand % 2 = 0)

def readsBack (interval : Nat × Nat × Bool) (d : Decimal) : Bool :=
  let (low, high, closed) := interval
  let (lowNum, lowDen) := overPower low one d.scale
  let (highNum, highDen) := overPower high one d.scale
  if closed then lowNum ≤ d.coefficient * lowDen && d.coefficient * highDen ≤ highNum
  else lowNum < d.coefficient * lowDen && d.coefficient * highDen < highNum

/-- The nearest decimal with `digits` digits that reads back as the double, if one of its two
neighbours with that many digits does; of two equally near ones the larger. -/
def atDigits? (significand exponent digits : Nat) : Option Decimal :=
  let value := (4 * significand) <<< exponent
  let scale := leadingExponent value one + 1 - digits
  let (num, den) := overPower value one scale
  let interval := readingInterval significand exponent
  let below : Decimal := ⟨num / den, scale⟩
  let above : Decimal := ⟨num / den + 1, scale⟩
  match readsBack interval below, readsBack interval above with
  | true, true => some (if den ≤ 2 * (num % den) then above else below)
  | true, false => some below
  | false, true => some above
  | false, false => none

/-- Tries longer and longer decimals, `tries` of them, from `digits` digits on. -/
def firstFrom (significand exponent : Nat) : Nat → Nat → Decimal
  | 0, digits => significant digits significand exponent
  | tries + 1, digits =>
    (atDigits? significand exponent digits).getD (firstFrom significand exponent tries (digits + 1))

/-- The shortest decimal that reads back as the double. Seventeen digits always do. -/
def shortest (significand exponent : Nat) : Decimal :=
  if significand = 0 then ⟨0, 0⟩ else firstFrom significand exponent 17 1

def withPoint (digits : List Char) (places : Nat) : List Char :=
  let padded := List.replicate (places + 1 - digits.length) '0' ++ digits
  padded.take (padded.length - places) ++ '.' :: padded.drop (padded.length - places)

def dropZeros : Nat → Nat → Nat → Nat × Nat
  | 0, coefficient, places => (coefficient, places)
  | fuel + 1, coefficient, places =>
    if 0 < places ∧ coefficient % 10 = 0 then dropZeros fuel (coefficient / 10) (places - 1)
    else (coefficient, places)

/-- All digits of a decimal, without an exponent and without needless zeros behind the point. -/
def positional (d : Decimal) : List Char :=
  match d.scale with
  | .ofNat k => Nat.toDigits 10 (d.coefficient * tenTo k)
  | .negSucc k =>
    match dropZeros (k + 1) d.coefficient (k + 1) with
    | (coefficient, 0) => Nat.toDigits 10 coefficient
    | (coefficient, places) => withPoint (Nat.toDigits 10 coefficient) places

end Decimal

def signedText (x : Float) (magnitude : Nat → Nat → List Char) : String :=
  let sign (negative : Bool) := if negative then "-" else ""
  match content x with
  | .undefined => "NaN"
  | .infinite negative => sign negative ++ "inf"
  | .finite negative significand exponent =>
    sign negative ++ String.ofList (magnitude significand exponent)

/-- The shortest text that reads back as the double, without an exponent: `0.7`, `-0`, `NaN`. -/
def plainText (x : Float) : String :=
  signedText x fun significand exponent => (Decimal.shortest significand exponent).positional

/-- The exact value with one decimal place, a tie going to the even neighbour; the sign is kept. -/
def tenthsText (x : Float) : String :=
  signedText x fun significand exponent =>
    let tenths := roundQuotient ((10 * significand) <<< exponent) (1 <<< 1074)
    Decimal.withPoint (Nat.toDigits 10 tenths) 1

end StreetLinking.Number
