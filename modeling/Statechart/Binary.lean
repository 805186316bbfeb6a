/-!
Values as bytes, the least significant first. Every reader takes what it needs from the front of the
bytes and hands back the rest.
-/

namespace Statechart.Binary

/-- The bytes of a value. -/
abbrev Bytes := List UInt8

/-- The last `width` bytes of a number. -/
def ofNat : Nat → Nat → Bytes
  | 0, _ => []
  | width + 1, n => UInt8.ofNat n :: ofNat width (n / 256)

def readNat : Nat → Bytes → Option (Nat × Bytes)
  | 0, s => some (0, s)
  | _ + 1, [] => none
  | width + 1, b :: s => (readNat width s).map fun e => (b.toNat + 256 * e.1, e.2)

def ofWord (n : UInt32) : Bytes := ofNat 4 n.toNat

def readWord (s : Bytes) : Option (UInt32 × Bytes) :=
  (readNat 4 s).map fun e => (UInt32.ofNat e.1, e.2)

/-- A signed word of 64 bits, in two's complement. -/
def ofInt (n : Int64) : Bytes := ofNat 8 n.toUInt64.toNat

def readInt (s : Bytes) : Option (Int64 × Bytes) :=
  (readNat 8 s).map fun e => ((UInt64.ofNat e.1).toInt64, e.2)

/-- A text: how many bytes it has, and its bytes in UTF-8. -/
def ofText (s : String) : Bytes :=
  let bytes := s.toByteArray.toList
  ofNat 8 bytes.length ++ bytes

def readText (s : Bytes) : Option (String × Bytes) := do
  let (n, s) ← readNat 8 s
  let bytes := s.take n
  if bytes.length < n then none
  else
    let text ← String.fromUTF8? ⟨bytes.toArray⟩
    return (text, s.drop n)

/-- A value that may be absent, after a byte that says whether it is there. -/
def ofOption {α : Type} (write : α → Bytes) : Option α → Bytes
  | none => [0]
  | some a => 1 :: write a

def readOption {α : Type} (read : Bytes → Option (α × Bytes)) : Bytes → Option (Option α × Bytes)
  | 0 :: s => some (none, s)
  | 1 :: s => (read s).map fun e => (some e.1, e.2)
  | _ => none

/-- Values one after another. -/
def ofItems {α : Type} (write : α → Bytes) (items : List α) : Bytes :=
  ofNat 8 items.length ++ items.flatMap write

def readMany {α : Type} (read : Bytes → Option (α × Bytes)) : Nat → Bytes → Option (List α × Bytes)
  | 0, s => some ([], s)
  | n + 1, s =>
    match read s with
    | none => none
    | some (a, s) => (readMany read n s).map fun e => (a :: e.1, e.2)

/-- Reads values one after another, after their number. -/
def readItems {α : Type} (read : Bytes → Option (α × Bytes)) (s : Bytes) :
    Option (List α × Bytes) := do
  let (n, s) ← readNat 8 s
  readMany read n s

end Statechart.Binary
