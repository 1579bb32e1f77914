/-!
# TOML keys and strings

Basic strings have escapes, literal strings have none, and both have a form over several lines. A
reader takes the characters after the opening quotes and answers the text with what follows the
closing quotes, or nothing if the string is malformed.
-/
namespace StreetLinking.Toml

/-- Characters that may stand for themselves in strings and comments: all but control characters, of
which the tab is allowed. -/
def isPlain (c : Char) : Bool :=
  c == '\t' || (decide (0x20 ≤ c.toNat) && c.toNat != 0x7F)

def isBlank (c : Char) : Bool :=
  c == ' ' || c == '\t'

def newline? : List Char → Option (List Char)
  | '\n' :: rest => some rest
  | '\r' :: '\n' :: rest => some rest
  | _ => none

def hexDigit? (c : Char) : Option Nat :=
  if '0' ≤ c ∧ c ≤ '9' then some (c.toNat - 0x30)
  else if 'a' ≤ c ∧ c ≤ 'f' then some (c.toNat - 0x61 + 10)
  else if 'A' ≤ c ∧ c ≤ 'F' then some (c.toNat - 0x41 + 10)
  else none

def hexNumber? (digits : List Char) : Option Nat :=
  (digits.mapM hexDigit?).map fun values => values.foldl (fun n d => 16 * n + d) 0

def codePoint? (digits : Nat) (chars : List Char) : Option (Char × List Char) :=
  if chars.length < digits then none
  else
    match hexNumber? (chars.take digits) with
    | some n => if n.isValidChar then some (Char.ofNat n, chars.drop digits) else none
    | none => none

/-- The character that an escape stands for, given what follows the backslash. -/
def escape? : List Char → Option (Char × List Char)
  | 'b' :: rest => some ('\x08', rest)
  | 't' :: rest => some ('\t', rest)
  | 'n' :: rest => some ('\n', rest)
  | 'f' :: rest => some ('\x0c', rest)
  | 'r' :: rest => some ('\r', rest)
  | 'e' :: rest => some ('\x1b', rest)
  | '\x22' :: rest => some ('\x22', rest)
  | '\\' :: rest => some ('\\', rest)
  | 'x' :: rest => codePoint? 2 rest
  | 'u' :: rest => codePoint? 4 rest
  | 'U' :: rest => codePoint? 8 rest
  | _ => none

/-- A text read from the front of a list of characters, with what follows it. -/
abbrev Reading := Option (List Char × List Char)

def Reading.cons (c : Char) (r : Reading) : Reading :=
  r.map fun (text, rest) => (c :: text, rest)

/-- A basic string on one line; `fuel` bounds its length. -/
def basicLine : Nat → List Char → Reading
  | fuel + 1, c :: rest =>
    if c == '\x22' then some ([], rest)
    else if c == '\\' then
      match escape? rest with
      | some (e, rest) => Reading.cons e (basicLine fuel rest)
      | none => none
    else if isPlain c then Reading.cons c (basicLine fuel rest)
    else none
  | _, _ => none

def literalLine : List Char → Reading
  | [] => none
  | c :: rest =>
    if c == '\x27' then some ([], rest)
    else if isPlain c then Reading.cons c (literalLine rest)
    else none

/-- The end of a string over several lines: three quotes, before which the text may end with up to
two more. -/
def closing? (quote : Char) (chars : List Char) : Reading :=
  let quotes := (chars.takeWhile (· == quote)).length
  if quotes < 3 then none
  else
    let inner := min (quotes - 3) 2
    some (List.replicate inner quote, chars.drop (inner + 3))

def skipSpace : List Char → List Char
  | '\r' :: '\n' :: rest => skipSpace rest
  | c :: rest => if isBlank c || c == '\n' then skipSpace rest else c :: rest
  | [] => []

/-- A line that a backslash ends goes on at the next character that is no space. -/
def continued? (chars : List Char) : Option (List Char) :=
  (newline? (chars.dropWhile isBlank)).map skipSpace

def basicLines : Nat → List Char → Reading
  | fuel + 1, c :: rest =>
    if c == '\x22' then
      match closing? '\x22' (c :: rest) with
      | some r => some r
      | none => Reading.cons c (basicLines fuel rest)
    else if c == '\\' then
      match continued? rest with
      | some rest => basicLines fuel rest
      | none =>
        match escape? rest with
        | some (e, rest) => Reading.cons e (basicLines fuel rest)
        | none => none
    else
      match newline? (c :: rest) with
      | some rest => Reading.cons '\n' (basicLines fuel rest)
      | none => if isPlain c then Reading.cons c (basicLines fuel rest) else none
  | _, _ => none

def literalLines : Nat → List Char → Reading
  | fuel + 1, c :: rest =>
    if c == '\x27' then
      match closing? '\x27' (c :: rest) with
      | some r => some r
      | none => Reading.cons c (literalLines fuel rest)
    else
      match newline? (c :: rest) with
      | some rest => Reading.cons '\n' (literalLines fuel rest)
      | none => if isPlain c then Reading.cons c (literalLines fuel rest) else none
  | _, _ => none

/-- Text over several lines leaves out a line end right after the opening quotes. -/
def afterOpening (chars : List Char) : List Char :=
  (newline? chars).getD chars

def string? : List Char → Reading
  | '\x22' :: '\x22' :: '\x22' :: rest => basicLines (rest.length + 1) (afterOpening rest)
  | '\x27' :: '\x27' :: '\x27' :: rest => literalLines (rest.length + 1) (afterOpening rest)
  | '\x22' :: rest => basicLine (rest.length + 1) rest
  | '\x27' :: rest => literalLine rest
  | _ => none

/-! ## Keys -/

def isBareKey (c : Char) : Bool :=
  ('a' ≤ c ∧ c ≤ 'z') ∨ ('A' ≤ c ∧ c ≤ 'Z') ∨ ('0' ≤ c ∧ c ≤ '9') ∨ c = '_' ∨ c = '-'

def simpleKey? (chars : List Char) : Option (String × List Char) :=
  match chars with
  | '\x22' :: rest =>
    (basicLine (rest.length + 1) rest).map fun (text, rest) => (String.ofList text, rest)
  | '\x27' :: rest => (literalLine rest).map fun (text, rest) => (String.ofList text, rest)
  | _ =>
    match chars.takeWhile isBareKey with
    | [] => none
    | name => some (String.ofList name, chars.dropWhile isBareKey)

/-- A key of parts joined by points, as the parts before the last one and the last one; `fuel`
bounds how many there are. -/
def dottedKey? : Nat → List Char → Option ((List String × String) × List Char)
  | 0, _ => none
  | fuel + 1, chars =>
    match simpleKey? (chars.dropWhile isBlank) with
    | none => none
    | some (part, rest) =>
      match rest.dropWhile isBlank with
      | '.' :: rest =>
        (dottedKey? fuel rest).map fun ((parts, last), rest) => ((part :: parts, last), rest)
      | rest => some (([], part), rest)

end StreetLinking.Toml
