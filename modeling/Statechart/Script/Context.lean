import Statechart.Text
import Statechart.Checkpoint

/-!
The context that scripts work with: a counter, an optional tag, and a list of items; and its
written forms.
-/

namespace Statechart.Script

/-- A counter, a tag, and items. -/
structure Ctx where
  n : Int64 := 0
  tag : Option String := none
  items : List String := []
  deriving DecidableEq

/-- The display form of a context. -/
def Ctx.text (c : Ctx) : String :=
  Text.record "Ctx"
    [("n", toString c.n.toInt),
     ("tag", Text.optional (c.tag.map Text.quoted)),
     ("items", Text.bracketed (c.items.map Text.quoted))]

namespace Ctx

/-- The fields of a context in the order in which they are written. -/
def fields : List String := ["n", "tag", "items"]

def tree (c : Ctx) : Json :=
  .object
    ((fields.map fun f => Json.encode f.toList).zip
      [.ofInt c.n.toInt, (c.tag.map Json.ofString).getD .null,
        .array (c.items.map Json.ofString)])

def counter? (v : Json) : Option Int64 := do
  let n ← v.int?
  if Int64.minValue.toInt ≤ n ∧ n ≤ Int64.maxValue.toInt then some (Int64.ofInt n) else none

def tag? : Json → Option (Option String)
  | .null => some none
  | v => v.string?.map some

/-- The context of an object; only the tag may be missing. -/
def ofTree? (v : Json) : Option Ctx := do
  match ← v.record? fields with
  | [some n, tag, some items] =>
    return ⟨← counter? n, ← tag? (tag.getD .null), ← (← items.items?).mapM Json.string?⟩
  | _ => none

def encoded (c : Ctx) : Binary.Bytes :=
  Binary.ofInt c.n ++ Binary.ofOption Binary.ofText c.tag ++ Binary.ofItems Binary.ofText c.items

def decode? (s : Binary.Bytes) : Option (Ctx × Binary.Bytes) := do
  let (n, s) ← Binary.readInt s
  let (tag, s) ← Binary.readOption Binary.readText s
  let (items, s) ← Binary.readItems Binary.readText s
  return (⟨n, tag, items⟩, s)

def codec : Codec Ctx where
  toJson c := .ok c.tree
  ofJson? := ofTree?
  toBytes c := .ok c.encoded
  ofBytes? := decode?

end Ctx

end Statechart.Script
