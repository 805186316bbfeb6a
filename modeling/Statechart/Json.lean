import Statechart.Json.Text

/-!
JSON values as trees, and their text. Strings and numbers are kept as they are written, so that a
tree says all that a reader of its parts may ask for.
-/

namespace Statechart

inductive Json where
  | null
  | bool (b : Bool)
  /-- A number as it is written. -/
  | number (lexeme : List Char)
  /-- A string as it is written between the quotes. -/
  | text (raw : List Char)
  | array (items : List Json)
  /-- The members in order, each with its name as it is written between the quotes. -/
  | object (members : List (List Char × Json))

namespace Json

def ofString (s : String) : Json := text (encode s.toList)

def ofInt (n : Int) : Json :=
  number (if n < 0 then '-' :: Nat.toDigits 10 n.natAbs else Nat.toDigits 10 n.natAbs)

def string? : Json → Option String
  | text raw => (decode raw).map String.ofList
  | _ => none

/-- The integer of a number that is written without fraction and exponent. There is no negative
zero among the integers. -/
def int? : Json → Option Int
  | number ('-' :: digits) =>
    if digits.all Char.isDigit ∧ digits ≠ ['0'] then some (-(Nat.ofDigitChars 10 digits 0 : Int))
    else none
  | number digits =>
    if digits.all Char.isDigit then some (Nat.ofDigitChars 10 digits 0 : Int) else none
  | _ => none

def items? : Json → Option (List Json)
  | array items => some items
  | _ => none

/-- The only one of the members called `name`: nothing if there are two, and nothing inside if there
is none. -/
def member? (members : List (String × Json)) (name : String) : Option (Option Json) :=
  match members.filter fun e => e.1 = name with
  | [] => some none
  | [e] => some (some e.2)
  | _ => none

/-- The values of a record with these fields: the members of an object, in any order and among
others, or the items of an array. A field stands at most once in an object; in an array all stand,
and nothing else. -/
def record? (fields : List String) : Json → Option (List (Option Json))
  | array items => if items.length = fields.length then some (items.map some) else none
  | object members => do
    let members ← members.mapM fun e => (decode e.1).map fun name => (String.ofList name, e.2)
    fields.mapM (member? members)
  | _ => none

/-! ### Writing -/

mutual

/-- The written form without blanks. -/
def print : Json → List Char
  | null => ['n', 'u', 'l', 'l']
  | bool true => ['t', 'r', 'u', 'e']
  | bool false => ['f', 'a', 'l', 's', 'e']
  | number lexeme => lexeme
  | text raw => '"' :: raw ++ ['"']
  | array items => '[' :: printItems items ++ [']']
  | object members => '{' :: printMembers members ++ ['}']

/-- The items of an array with commas between them. -/
def printItems : List Json → List Char
  | [] => []
  | [item] => item.print
  | item :: rest => item.print ++ ',' :: printItems rest

/-- The members of an object with commas between them. -/
def printMembers : List (List Char × Json) → List Char
  | [] => []
  | [(name, value)] => '"' :: name ++ '"' :: ':' :: value.print
  | (name, value) :: rest => '"' :: name ++ '"' :: ':' :: value.print ++ ',' :: printMembers rest

end

end Json

end Statechart
