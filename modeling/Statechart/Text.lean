/-!
Texts: the display form of values, numbers as runs of decimal digits, and white space.
-/

namespace Statechart.Text

/-! ### Display form: quoted texts, lists in brackets, records with named fields -/

/-- The digits of a number in base sixteen, in lower case. -/
def hex (n : Nat) : List Char := Nat.toDigits 16 n

/-- A character as it stands between the quotes of a displayed text: the quote, the backslash and
the common controls after a backslash, other controls by their number. -/
def escape (c : Char) : List Char :=
  if c = '"' then ['\\', '"']
  else if c = '\\' then ['\\', '\\']
  else if c = '\n' then ['\\', 'n']
  else if c = '\t' then ['\\', 't']
  else if c = '\r' then ['\\', 'r']
  else if c = '\x00' then ['\\', '0']
  else if c.val < 32 ∨ c.val = 127 then ['\\', 'u', '\x7b'] ++ hex c.toNat ++ ['\x7d']
  else [c]

def quoted (s : String) : String :=
  String.ofList ('"' :: s.toList.flatMap escape ++ ['"'])

def bracketed (items : List String) : String :=
  "[" ++ String.intercalate ", " items ++ "]"

def mapped (entries : List (String × String)) : String :=
  "\x7b" ++ String.intercalate ", " (entries.map fun e => e.1 ++ ": " ++ e.2) ++ "\x7d"

/-- A record: its name and its named fields. -/
def record (name : String) (fields : List (String × String)) : String :=
  name ++ " \x7b " ++ String.intercalate ", " (fields.map fun f => f.1 ++ ": " ++ f.2) ++ " \x7d"

/-- A value under a constructor's name. -/
def wrapped (name : String) (inner : String) : String := name ++ "(" ++ inner ++ ")"

def flag (b : Bool) : String := if b then "true" else "false"

def optional (o : Option String) : String :=
  match o with
  | none => "None"
  | some s => wrapped "Some" s

def isAscii (s : String) : Bool := s.toList.all fun c => c.val < 128

/-! ### Runs of digits: writing with a fixed or a least width, and reading back -/

/-- The last `width` decimal digits of a number. -/
def fixed : Nat → Nat → List Char
  | 0, _ => []
  | width + 1, n => fixed width (n / 10) ++ [Nat.digitChar (n % 10)]

/-- The decimal digits of a number, with zeros in front up to the width. -/
def padded (width n : Nat) : List Char :=
  let digits := Nat.toDigits 10 n
  List.replicate (width - digits.length) '0' ++ digits

/-- The value of a run of decimal digits. -/
def value (digits : List Char) : Nat := Nat.ofDigitChars 10 digits 0

/-- Reads a run of at least one and at most `most` digits. -/
def readDigits (most : Nat) (s : List Char) : Option (List Char × List Char) :=
  let digits := (s.take most).takeWhile Char.isDigit
  if digits.isEmpty then none else some (digits, s.drop digits.length)

/-- Reads a number of at least one and at most `most` digits. -/
def readNumber (most : Nat) (s : List Char) : Option (Nat × List Char) :=
  (readDigits most s).map fun e => (value e.1, e.2)

/-- Reads one character that is expected. -/
def expect (c : Char) : List Char → Option (List Char)
  | [] => none
  | d :: rest => if d = c then some rest else none

/-! ### White space -/

/-- Whether a character is white space: the controls from tab to carriage return, the blank, and
the separators outside ASCII. -/
def isBlank (c : Char) : Bool :=
  let n := c.toNat
  (9 ≤ n && n ≤ 13) || n = 0x20 || n = 0x85 || n = 0xA0 || n = 0x1680 ||
    (0x2000 ≤ n && n ≤ 0x200A) || n = 0x2028 || n = 0x2029 || n = 0x202F || n = 0x205F || n = 0x3000

def skipBlanks (s : List Char) : List Char := s.dropWhile isBlank

end Statechart.Text
