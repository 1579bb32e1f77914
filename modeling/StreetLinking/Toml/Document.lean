import StreetLinking.Toml.Scalar
import StreetLinking.Toml.Text
/-!
# TOML documents

A document is read line by line: a line holds a key with its value, or the header of a table, or
nothing. Arrays and inline tables may go over several lines and end with a comma. They may not be
nested too deeply, and keys may not have too many parts.
-/
namespace StreetLinking.Toml

/-- Something read from the front of a list of characters, with what follows it. -/
abbrev Parsed (β : Type) := Option (β × List Char)

/-- What follows a comment, which ends with its line; the line end is left. -/
def afterComment? : List Char → Option (List Char)
  | [] => some []
  | c :: rest =>
    match newline? (c :: rest) with
    | some _ => some (c :: rest)
    | none => if isPlain c then afterComment? rest else none

def afterLine? (chars : List Char) : Option (List Char) :=
  let ended : List Char → Option (List Char)
    | [] => some []
    | rest => newline? rest
  match chars.dropWhile isBlank with
  | '#' :: rest => (afterComment? rest).bind ended
  | rest => ended rest

/-- Passes over blanks, which never fails. -/
def skipBlanks (chars : List Char) : Option (List Char) :=
  some (chars.dropWhile isBlank)

def skipSpaces? (inComment : Bool) : List Char → Option (List Char)
  | [] => some []
  | '\n' :: rest => skipSpaces? false rest
  | '\r' :: '\n' :: rest => skipSpaces? false rest
  | c :: rest =>
    if inComment then
      if isPlain c then skipSpaces? true rest else none
    else if isBlank c then skipSpaces? false rest
    else if c == '#' then skipSpaces? true rest
    else some (c :: rest)

/-- The items of an array, given what follows the opening bracket or a comma. -/
def items? (value : List Char → Parsed Value) : Nat → List Char → Parsed (List Value)
  | 0, _ => none
  | fuel + 1, chars =>
    match skipSpaces? false chars with
    | none => none
    | some (']' :: rest) => some ([], rest)
    | some chars =>
      match value chars with
      | none => none
      | some (v, rest) =>
        match skipSpaces? false rest with
        | some (',' :: rest) => (items? value fuel rest).map fun (vs, rest) => (v :: vs, rest)
        | some (']' :: rest) => some ([v], rest)
        | _ => none

/-- How deep arrays and inline tables may be nested, and how many parts a dotted key may have. -/
def maxDepth : Nat := 80

def key? (chars : List Char) : Parsed (List String × String) :=
  (dottedKey? (chars.length + 1) chars).filter fun ((path, _), _) => path.length < maxDepth

/-- A key and its value, given a reader for values and what may be passed over on both sides of the
equals sign. -/
def keyValue? (skip : List Char → Option (List Char)) (value : List Char → Parsed Value)
    (chars : List Char) : Parsed ((List String × String) × Value) :=
  match key? chars with
  | none => none
  | some (key, rest) =>
    match skip rest with
    | some ('=' :: rest) =>
      ((skip rest).bind value).map fun (v, rest) => ((key, v), rest)
    | _ => none

def fields? (value : List Char → Parsed Value) : Nat → Entries → List Char → Parsed Entries
  | 0, _, _ => none
  | fuel + 1, entries, chars =>
    match skipSpaces? false chars with
    | none => none
    | some ('\x7d' :: rest) => some (entries, rest)
    | some chars =>
      match keyValue? (skipSpaces? false) value chars with
      | none => none
      | some (((path, key), v), rest) =>
        match entries.addDotted path key v, skipSpaces? false rest with
        | some entries, some (',' :: rest) => fields? value fuel entries rest
        | some entries, some ('\x7d' :: rest) => some (entries, rest)
        | _, _ => none

def stringValue? (chars : List Char) : Parsed Value :=
  (string? chars).map fun (text, rest) => (.text (String.ofList text), rest)

/-- A value that begins here; arrays and inline tables in it are nested at most `depth` deep. -/
def value? : Nat → List Char → Parsed Value
  | _, '\x22' :: rest => stringValue? ('\x22' :: rest)
  | _, '\x27' :: rest => stringValue? ('\x27' :: rest)
  | depth + 1, '[' :: rest =>
    (items? (value? depth) (rest.length + 1) rest).map fun (vs, rest) => (.array false vs, rest)
  | depth + 1, '\x7b' :: rest =>
    (fields? (value? depth) (rest.length + 1) [] rest).map fun (entries, rest) =>
      (.table .inline entries, rest)
  | _, chars => scalar? chars

/-- A document while it is being read: its table, and the table that the last header opened. -/
structure Draft where
  entries : Entries := []
  openPath : List String := []

namespace Draft

def add (d : Draft) (path : List String) (key : String) (value : Value) : Option Draft :=
  let add (_ : Origin) (inner : Entries) : Option Entries := inner.addDotted path key value
  (d.entries.changeAt false add d.openPath .header).map fun entries => { d with entries }

def openSection (d : Draft) (isItem : Bool) (path : List String) (key : String) : Option Draft :=
  let opened (_ : Origin) (inner : Entries) : Option Entries :=
    if isItem then inner.openItem key else inner.openTable key
  (d.entries.changeAt false opened path .header).map fun entries => ⟨entries, path ++ [key]⟩

end Draft

def header? (chars : List Char) : Parsed (Bool × List String × String) :=
  match chars with
  | '[' :: rest =>
    match key? rest with
    | some ((path, key), ']' :: ']' :: rest) => some ((true, path, key), rest)
    | _ => none
  | _ =>
    match key? chars with
    | some ((path, key), ']' :: rest) => some ((false, path, key), rest)
    | _ => none

def line? (d : Draft) (chars : List Char) : Parsed Draft :=
  let read : Parsed Draft := match chars.dropWhile isBlank with
    | '[' :: rest =>
      (header? rest).bind fun ((isItem, path, key), rest) =>
        (d.openSection isItem path key).map (·, rest)
    | rest =>
      match rest with
      | [] => some (d, [])
      | c :: _ =>
        if c == '#' || (newline? rest).isSome then some (d, rest)
        else
          (keyValue? skipBlanks (value? maxDepth) rest).bind fun (((path, key), v), rest) =>
            (d.add path key v).map (·, rest)
  read.bind fun (d, rest) => (afterLine? rest).map (d, ·)

def lines? : Nat → Draft → List Char → Option Draft
  | _, d, [] => some d
  | 0, _, _ => none
  | fuel + 1, d, chars => (line? d chars).bind fun (d, rest) => lines? fuel d rest

/-- The table that a text stands for, if it is a document. A byte order mark in front is passed
over. -/
def parse? (source : String) : Option Entries :=
  let chars := match source.toList with
    | '\ufeff' :: rest => rest
    | chars => chars
  (lines? (chars.length + 1) {} chars).map (·.entries)

end StreetLinking.Toml
