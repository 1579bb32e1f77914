import StreetLinking.Toml.Value
/-!
# TOML numbers, dates and times

A value that is no string, array or table is one word: a truth value, a number, or a date, a time or
both. A number is refused if it cannot be held: integers beyond a hundred and twenty-eight bits and
floats beyond the largest double.
-/
namespace StreetLinking.Toml

def isDigit (c : Char) : Bool :=
  '0' ≤ c ∧ c ≤ '9'

def isOctal (c : Char) : Bool :=
  '0' ≤ c ∧ c ≤ '7'

def isBinary (c : Char) : Bool :=
  c = '0' ∨ c = '1'

def isHex (c : Char) : Bool :=
  isDigit c || ('a' ≤ c ∧ c ≤ 'f') || ('A' ≤ c ∧ c ≤ 'F')

def digitValue (c : Char) : Nat :=
  if isDigit c then c.toNat - 0x30
  else if 'a' ≤ c then c.toNat - 0x61 + 10
  else c.toNat - 0x41 + 10

def number (base : Nat) (digits : List Char) : Nat :=
  digits.foldl (fun n c => base * n + digitValue c) 0

/-- The digits of a number, between any two of which one underscore may stand. -/
def digits? (admits : Char → Bool) : List Char → Option (List Char)
  | [] => none
  | [c] => if admits c then some [c] else none
  | c :: '_' :: rest => if admits c then (digits? admits rest).map (c :: ·) else none
  | c :: rest => if admits c then (digits? admits rest).map (c :: ·) else none

def wholeDigits? (chars : List Char) : Option (List Char) :=
  match digits? isDigit chars with
  | some ['0'] => some ['0']
  | some ('0' :: _) => none
  | digits => digits

def signed : List Char → Bool × List Char
  | '-' :: rest => (true, rest)
  | '+' :: rest => (false, rest)
  | chars => (false, chars)

/-! ## Integers -/

def holds (n : Int) : Bool :=
  decide (-((1 <<< 127 : Nat) : Int) ≤ n) && decide (n < (1 <<< 128 : Nat))

def integer? (chars : List Char) : Option Int :=
  let value : Option Int := match chars with
    | '0' :: 'x' :: rest => (digits? isHex rest).map fun ds => (number 16 ds : Int)
    | '0' :: 'o' :: rest => (digits? isOctal rest).map fun ds => (number 8 ds : Int)
    | '0' :: 'b' :: rest => (digits? isBinary rest).map fun ds => (number 2 ds : Int)
    | _ =>
      let (negative, rest) := signed chars
      (wholeDigits? rest).map fun ds => if negative then -(number 10 ds : Int) else number 10 ds
  value.filter holds

/-! ## Floats -/

/-- The double nearest to `coefficient * 10 ^ exponent`, unless that lies beyond the largest one. -/
def double? (negative : Bool) (coefficient : Nat) (exponent : Int) : Option Float :=
  let sign (x : Float) := if negative then -x else x
  let digits : Int := (Nat.toDigits 10 coefficient).length
  if coefficient = 0 ∨ digits + exponent < -400 then some (sign 0.0)
  else if 400 < digits + exponent then none
  else
    let x := match exponent with
      | .ofNat n => Float.ofScientific coefficient false n
      | .negSucc n => Float.ofScientific coefficient true (n + 1)
    if x.isInf then none else some (sign x)

def fraction? : List Char → Option (List Char)
  | [] => some []
  | '.' :: rest => digits? isDigit rest
  | _ => none

def exponent? : List Char → Option Int
  | [] => some 0
  | _ :: rest =>
    let (negative, rest) := signed rest
    (digits? isDigit rest).map fun ds => if negative then -(number 10 ds : Int) else number 10 ds

def isExponentMark (c : Char) : Bool :=
  c = 'e' ∨ c = 'E'

def float? (chars : List Char) : Option Float :=
  let (negative, chars) := signed chars
  if chars == "inf".toList then some (if negative then -(1.0 / 0.0) else 1.0 / 0.0)
  else if chars == "nan".toList then some (0.0 / 0.0)
  else
    let mantissa := chars.takeWhile fun c => !isExponentMark c
    let mark := chars.dropWhile fun c => !isExponentMark c
    match wholeDigits? (mantissa.takeWhile (· != '.')), fraction? (mantissa.dropWhile (· != '.')),
        exponent? mark with
    | some whole, some places, some exponent =>
      if places.isEmpty && mark.isEmpty then none
      else double? negative (number 10 (whole ++ places)) (exponent - places.length)
    | _, _, _ => none

/-! ## Dates and times -/

def twoDigits? (low high : Nat) (a b : Char) : Option Nat :=
  let n := number 10 [a, b]
  if isDigit a && isDigit b && decide (low ≤ n) && decide (n ≤ high) then some n else none

def daysInMonth (year month : Nat) : Nat :=
  if month = 2 then
    if year % 4 = 0 ∧ (year % 100 ≠ 0 ∨ year % 400 = 0) then 29 else 28
  else if month = 4 ∨ month = 6 ∨ month = 9 ∨ month = 11 then 30
  else 31

def afterDate? : List Char → Option (List Char)
  | y1 :: y2 :: y3 :: y4 :: '-' :: m1 :: m2 :: '-' :: d1 :: d2 :: rest =>
    if [y1, y2, y3, y4].all isDigit then
      match twoDigits? 1 12 m1 m2 with
      | some month =>
        let days := daysInMonth (number 10 [y1, y2, y3, y4]) month
        (twoDigits? 1 days d1 d2).map fun _ => rest
      | none => none
    else none
  | _ => none

def afterFraction? : List Char → Option (List Char)
  | '.' :: rest =>
    match rest with
    | c :: _ => if isDigit c then some (rest.dropWhile isDigit) else none
    | [] => none
  | rest => some rest

def afterSeconds? : List Char → Option (List Char)
  | ':' :: s1 :: s2 :: rest => (twoDigits? 0 60 s1 s2).bind fun _ => afterFraction? rest
  | ':' :: _ => none
  | rest => some rest

def afterMinutes? : List Char → Option (List Char)
  | h1 :: h2 :: ':' :: m1 :: m2 :: rest =>
    (twoDigits? 0 23 h1 h2).bind fun _ => (twoDigits? 0 59 m1 m2).map fun _ => rest
  | _ => none

def afterTime? (chars : List Char) : Option (List Char) :=
  (afterMinutes? chars).bind afterSeconds?

def isZone : List Char → Bool
  | [] | ['Z'] | ['z'] => true
  | '+' :: rest | '-' :: rest => afterMinutes? rest == some []
  | _ => false

def isDateMark (c : Char) : Bool :=
  c = 'T' ∨ c = 't' ∨ c = ' '

def isMoment (chars : List Char) : Bool :=
  match afterDate? chars with
  | some [] => true
  | some (c :: rest) => isDateMark c && (afterTime? rest).any isZone
  | none => afterTime? chars == some []

/-! ## Words -/

/-- Characters of which truth values, numbers, dates and times are made. -/
def isWordChar (c : Char) : Bool :=
  isDigit c || ('a' ≤ c ∧ c ≤ 'z') || ('A' ≤ c ∧ c ≤ 'Z') ||
    ['_', '+', '-', '.', ':'].contains c

def word? (chars : List Char) : Option Value :=
  if chars == "true".toList then some (.boolean true)
  else if chars == "false".toList then some (.boolean false)
  else if isMoment chars then some .moment
  else
    match integer? chars with
    | some n => some (.integer n)
    | none => (float? chars).map .float

/-- A word that begins here; a date goes on behind one space if a digit follows. -/
def scalar? (chars : List Char) : Option (Value × List Char) :=
  let word := chars.takeWhile isWordChar
  let rest := chars.dropWhile isWordChar
  let single := (word? word).map (·, rest)
  match afterDate? word, rest with
  | some [], ' ' :: c :: more =>
    if isDigit c then
      let time := (c :: more).takeWhile isWordChar
      (word? (word ++ ' ' :: time)).map (·, (c :: more).dropWhile isWordChar)
    else single
  | _, _ => single

end StreetLinking.Toml
