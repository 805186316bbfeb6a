import Statechart.Timestamp

/-!
Reading points in time: a date, a time of day and an offset from UTC, with some freedom in blanks,
in the number of digits and in how the offset is spelled.
-/

namespace Statechart.Timestamp

open Text (skipBlanks readNumber readDigits expect)

/-- Reads a year: up to four digits, or a sign and any number of digits. -/
def readYear (s : List Char) : Option (Int × List Char) :=
  match s with
  | '-' :: rest => (readNumber rest.length rest).map fun e => (-(e.1 : Int), e.2)
  | '+' :: rest => (readNumber rest.length rest).map fun e => ((e.1 : Int), e.2)
  | _ => (readNumber 4 s).map fun e => ((e.1 : Int), e.2)

/-- Reads a field of one or two digits, after blanks. -/
def readField (s : List Char) : Option (Nat × List Char) := readNumber 2 (skipBlanks s)

def readDate (s : List Char) : Option (Calendar.Date × List Char) := do
  let (year, s) ← readYear (skipBlanks s)
  let s ← expect '-' (skipBlanks s)
  let (month, s) ← readField s
  let s ← expect '-' (skipBlanks s)
  let (day, s) ← readField s
  let date : Calendar.Date := ⟨year, month, day⟩
  if date.Exists then some (date, s) else none

/-- Reads what stands between date and time. -/
def readSeparator : List Char → Option (List Char)
  | 'T' :: rest | 't' :: rest | ' ' :: rest => some rest
  | _ => none

/-- Reads a fraction of a second; digits after the ninth do not count. -/
def readFraction : List Char → Option (Nat × List Char)
  | '.' :: rest => do
    let (digits, rest) ← readDigits rest.length rest
    let nine := digits.take 9
    return (Text.value nine * Nat.pow 10 (9 - nine.length), rest)
  | s => some (0, s)

/-- Reads a time of day as seconds and nanoseconds; the sixtieth second is a leap second. -/
def readTime (s : List Char) : Option (Nat × Nat × List Char) := do
  let (hour, s) ← readField s
  let s ← expect ':' (skipBlanks s)
  let (minute, s) ← readField s
  let s ← expect ':' (skipBlanks s)
  let (second, s) ← readField s
  let (nanos, s) ← readFraction s
  if hour < 24 ∧ minute < 60 ∧ second ≤ 60 then
    if second = 60 then some (hour * 3600 + minute * 60 + 59, nanos + perSecond, s)
    else some (hour * 3600 + minute * 60 + second, nanos, s)
  else none

/-- Reads the two digits of the hours or the minutes of an offset. -/
def readPair : List Char → Option (Nat × List Char)
  | c :: d :: rest => if c.isDigit && d.isDigit then some (Text.value [c, d], rest) else none
  | _ => none

/-- Reads hours and minutes of an offset, as seconds below a day. -/
def readOffsetSize (s : List Char) : Option (Nat × List Char) := do
  let (hours, s) ← readPair s
  let s := s.dropWhile fun c => c = ':' || Text.isBlank c
  let (minutes, s) ← readPair s
  if minutes < 60 ∧ hours < 24 then some (hours * 3600 + minutes * 60, s) else none

/-- Reads an offset from UTC in seconds: `UTC` in any case, `Z`, or a signed time. -/
def readOffset : List Char → Option (Int × List Char)
  | 'Z' :: rest | 'z' :: rest => some (0, rest)
  | '+' :: rest => (readOffsetSize rest).map fun e => ((e.1 : Int), e.2)
  | '-' :: rest | '−' :: rest => (readOffsetSize rest).map fun e => (-(e.1 : Int), e.2)
  | c :: d :: e :: rest =>
    if [c.toUpper, d.toUpper, e.toUpper] = ['U', 'T', 'C'] then some (0, rest) else none
  | _ => none

/-- Reads a point in time. Both the local date and the date in UTC have to be representable. -/
def ofText? (s : List Char) : Option Timestamp := do
  let (date, s) ← readDate s
  let s ← readSeparator s
  let (inDay, nanos, s) ← readTime s
  let (offset, s) ← readOffset (skipBlanks s)
  if (skipBlanks s).isEmpty then
    let here ← ofParts? (date.number * 86400 + inDay) nanos
    ofParts? (here.seconds - offset) nanos
  else none

end Statechart.Timestamp
