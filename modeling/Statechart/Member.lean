import Statechart.Signature
import Statechart.Checkpoint

/-!
Identifiers that are drawn from a fixed list of names, and the alphabets of texts and of such
members.
-/

namespace Statechart

/-- One of the names of a list. -/
structure Member (names : List String) where
  index : Fin names.length
  deriving DecidableEq

namespace Member

variable {names : List String}

def name (m : Member names) : String := names[m.index]

def ofName? (s : String) : Option (Member names) := (names.findFinIdx? (· = s)).map Member.mk

def ofIndex? (n : Nat) : Option (Member names) := if h : n < names.length then some ⟨n, h⟩ else none

/-- Reads a member: its name, or an object with nothing under its name. -/
def ofJson? : Json → Option (Member names)
  | .object [(raw, .null)] => (Json.decode raw).bind fun s => ofName? (String.ofList s)
  | v => v.string?.bind ofName?

/-- Members are written by name in JSON, and by position as bytes. -/
def codec : Codec (Member names) where
  toJson m := .ok (.ofString m.name)
  ofJson? := ofJson?
  toBytes m := .ok (Binary.ofWord (UInt32.ofNat m.index))
  ofBytes? s := do
    let (n, s) ← Binary.readWord s
    let m ← ofIndex? n.toNat
    return (m, s)

end Member

/-- States and actions that are texts. -/
abbrev Alphabet.text : Alphabet where
  State := String
  Action := String
  stateName := id
  actionName := id
  stateText := Text.quoted
  actionText := Text.quoted

/-- States and actions that are drawn from lists of names. -/
abbrev Alphabet.members (states actions : List String) : Alphabet where
  State := Member states
  Action := Member actions
  stateName := Member.name
  actionName := Member.name
  stateText := Member.name
  actionText := Member.name

end Statechart
