import Statechart.Text

/-!
Why a value could not be written as JSON: a message, and a position in the text if one is known. A
position that stands at the end of a message is read off it.
-/

namespace Statechart.Json

/-- A message with a position. No text has a line zero, so that a position there is none. -/
structure Fault where
  message : List Char
  line : Nat := 0
  column : Nat := 0
  deriving DecidableEq

namespace Fault

/-- What stands in front of a line. -/
def lineMark : List Char := " at line ".toList

/-- What stands between line and column. -/
def columnMark : List Char := " column ".toList

/-- Splits a text at the last place where `mark` stands: what is in front of it, and what follows
it. -/
def splitLast (mark : List Char) : List Char → Option (List Char × List Char)
  | [] => none
  | c :: rest =>
    match splitLast mark rest with
    | some (front, back) => some (c :: front, back)
    | none => (mark.isPrefixOf? (c :: rest)).map fun back => ([], back)

/-- The number of a run of digits, if it fits a word of 64 bits. -/
def number? (digits : List Char) : Option Nat :=
  if digits.isEmpty ∨ UInt64.size ≤ Text.value digits then none else some (Text.value digits)

/-- Reads a line and a column, with nothing behind them. -/
def position? (s : List Char) : Option (Nat × Nat) := do
  let rest ← columnMark.isPrefixOf? (s.dropWhile Char.isDigit)
  if rest.all Char.isDigit then
    return (← number? (s.takeWhile Char.isDigit), ← number? rest)
  else none

/-- The fault of a message, which may end with a position. -/
def ofMessage (s : List Char) : Fault :=
  match splitLast lineMark s with
  | none => { message := s }
  | some (message, back) =>
    match position? back with
    | none => { message := s }
    | some (line, column) => { message, line, column }

/-- The wording: the message, and the position if there is one. -/
def text (f : Fault) : List Char :=
  if f.line = 0 then f.message
  else f.message ++ lineMark ++ Nat.toDigits 10 f.line ++ columnMark ++ Nat.toDigits 10 f.column

end Fault

end Statechart.Json
