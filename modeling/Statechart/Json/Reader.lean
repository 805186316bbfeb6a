import Statechart.Json

/-!
Reading JSON texts. A reader takes what it needs from the front of the text and hands back the rest.
-/

namespace Statechart.Json

/-! ### Strings -/

/-- Splits a text after an opening quote at the closing one. Controls have to be escaped, and a
backslash starts a letter or four hexadecimal digits. -/
def scanText : List Char → Option (List Char × List Char)
  | [] => none
  | '"' :: rest => some ([], rest)
  | '\\' :: 'u' :: a :: b :: c :: d :: rest => do
    let _ ← hex4? a b c d
    let (raw, rest) ← scanText rest
    return ('\\' :: 'u' :: a :: b :: c :: d :: raw, rest)
  | '\\' :: c :: rest => do
    let _ ← unescape? c
    let (raw, rest) ← scanText rest
    return ('\\' :: c :: raw, rest)
  | c :: rest =>
    if c = '\\' ∨ c.toNat < 32 then none
    else do
      let (raw, rest) ← scanText rest
      return (c :: raw, rest)

/-! ### Numbers -/

/-- Splits off the digits at the front of a text. -/
def splitDigits (s : List Char) : List Char × List Char :=
  (s.takeWhile Char.isDigit, s.dropWhile Char.isDigit)

/-- Splits off the integer part of a number: no zero stands in front of another digit. -/
def scanWhole (s : List Char) : Option (List Char × List Char) :=
  match splitDigits s with
  | ([], _) => none
  | ('0' :: _ :: _, _) => none
  | e => some e

/-- Splits off a fraction, if there is one. -/
def scanFraction : List Char → Option (List Char × List Char)
  | '.' :: rest =>
    match splitDigits rest with
    | ([], _) => none
    | (digits, rest) => some ('.' :: digits, rest)
  | s => some ([], s)

/-- Splits off the sign of an exponent. -/
def scanSign : List Char → List Char × List Char
  | '+' :: rest => (['+'], rest)
  | '-' :: rest => (['-'], rest)
  | s => ([], s)

/-- Splits off an exponent, if there is one. -/
def scanExponent (s : List Char) : Option (List Char × List Char) :=
  match s with
  | c :: rest =>
    if c = 'e' ∨ c = 'E' then
      let (sign, rest) := scanSign rest
      match splitDigits rest with
      | ([], _) => none
      | (digits, rest) => some (c :: sign ++ digits, rest)
    else some ([], s)
  | [] => some ([], [])

/-- Splits off a number. -/
def scanNumber (s : List Char) : Option (List Char × List Char) := do
  let (sign, s) := match s with
    | '-' :: rest => (['-'], rest)
    | s => ([], s)
  let (whole, s) ← scanWhole s
  let (fraction, s) ← scanFraction s
  let (exponent, s) ← scanExponent s
  return (sign ++ whole ++ fraction ++ exponent, s)

/-! ### Values -/

/-- The characters that may stand around values. -/
def isBlank (c : Char) : Bool := c = ' ' || c = '\n' || c = '\t' || c = '\r'

def skip (s : List Char) : List Char := s.dropWhile isBlank

mutual

/-- Reads a value after blanks. The number bounds the depth of the reading. -/
def readValue : Nat → List Char → Option (Json × List Char)
  | 0, _ => none
  | fuel + 1, s =>
    match skip s with
    | 'n' :: 'u' :: 'l' :: 'l' :: rest => some (null, rest)
    | 't' :: 'r' :: 'u' :: 'e' :: rest => some (bool true, rest)
    | 'f' :: 'a' :: 'l' :: 's' :: 'e' :: rest => some (bool false, rest)
    | '"' :: rest => (scanText rest).map fun e => (text e.1, e.2)
    | '[' :: rest =>
      match skip rest with
      | ']' :: rest => some (array [], rest)
      | rest => (readItems fuel rest).map fun e => (array e.1, e.2)
    | '{' :: rest =>
      match skip rest with
      | '}' :: rest => some (object [], rest)
      | rest => (readMembers fuel rest).map fun e => (object e.1, e.2)
    | s => (scanNumber s).map fun e => (number e.1, e.2)

/-- Reads the items of an array up to its end. -/
def readItems : Nat → List Char → Option (List Json × List Char)
  | 0, _ => none
  | fuel + 1, s => do
    let (item, s) ← readValue fuel s
    match skip s with
    | ',' :: rest => do
      let (items, rest) ← readItems fuel rest
      return (item :: items, rest)
    | ']' :: rest => return ([item], rest)
    | _ => none

/-- Reads the members of an object up to its end. -/
def readMembers : Nat → List Char → Option (List (List Char × Json) × List Char)
  | 0, _ => none
  | fuel + 1, s =>
    match skip s with
    | '"' :: rest => do
      let (name, rest) ← scanText rest
      match skip rest with
      | ':' :: rest => do
        let (value, rest) ← readValue fuel rest
        match skip rest with
        | ',' :: rest => do
          let (members, rest) ← readMembers fuel rest
          return ((name, value) :: members, rest)
        | '}' :: rest => return ([(name, value)], rest)
        | _ => none
      | _ => none
    | _ => none

end

/-- The value that a text denotes; nothing but blanks may follow it. No nesting is too deep: the
number given to the reader is more than the text can use up. -/
def ofText? (s : List Char) : Option Json := do
  let (v, rest) ← readValue (s.length + 1) s
  if (skip rest).isEmpty then some v else none

end Statechart.Json
