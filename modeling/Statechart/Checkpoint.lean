import Statechart.Binary
import Statechart.Error
import Statechart.Json.Fault
import Statechart.Json.Reader
import Statechart.Timestamp.Reader

/-!
Checkpoints: state and context of an instance, stamped with a version, an id and the time. A
checkpoint is written as JSON or as bytes, by the codecs of its state and context. What is read has
to be complete, and its version known.
-/

namespace Statechart

open Binary (Bytes)

/-! ### Codecs -/

/-- The written forms of a type. Writing may fail with a message. -/
structure Codec (α : Type) where
  toJson : α → Except String Json
  ofJson? : Json → Option α
  toBytes : α → Except String Bytes
  /-- Reads a value from the front of the bytes. -/
  ofBytes? : Bytes → Option (α × Bytes)

namespace Codec

def text : Codec String where
  toJson s := .ok (.ofString s)
  ofJson? := Json.string?
  toBytes s := .ok (Binary.ofText s)
  ofBytes? := Binary.readText

/-- A type whose values cannot be written, for the reason `message`. -/
def unwritable (message : String) : Codec Unit where
  toJson _ := .error message
  ofJson? _ := none
  toBytes _ := .error message
  ofBytes? _ := none

end Codec

/-- The codec of points in time: their text. -/
def Timestamp.codec : Codec Timestamp where
  toJson t := .ok (.text (Json.encode t.text))
  ofJson? v := v.string?.bind fun s => ofText? s.toList
  toBytes t := .ok (Binary.ofText (String.ofList t.text))
  ofBytes? s := do
    let (text, s) ← Binary.readText s
    let t ← ofText? text.toList
    return (t, s)

/-! ### Checkpoints -/

/-- What an instance is recovered from. -/
structure Checkpoint (S C : Type) where
  version : UInt32
  id : String
  timestamp : Timestamp
  state : S
  context : C

namespace Checkpoint

variable {S C : Type}

/-- The version that is written and read. -/
def supported : UInt32 := 1

/-- The fields of a checkpoint in the order in which they are written. -/
def fields : List String := ["version", "id", "timestamp", "state", "context"]

def checkVersion (c : Checkpoint S C) : Except CheckpointError (Checkpoint S C) :=
  if c.version = supported then .ok c else .error (.unsupportedVersion c.version supported)

/-! ### JSON -/

def version? (v : Json) : Option UInt32 := do
  let n ← v.int?
  if 0 ≤ n ∧ n.toNat < UInt32.size then some (UInt32.ofNat n.toNat) else none

def tree (states : Codec S) (contexts : Codec C) (c : Checkpoint S C) : Except String Json := do
  let timestamp ← Timestamp.codec.toJson c.timestamp
  let state ← states.toJson c.state
  let context ← contexts.toJson c.context
  return .object
    ((fields.map fun f => Json.encode f.toList).zip
      [.ofInt c.version.toNat, .ofString c.id, timestamp, state, context])

def ofTree? (states : Codec S) (contexts : Codec C) (v : Json) : Option (Checkpoint S C) := do
  match ← v.record? fields with
  | [some version, some id, some timestamp, some state, some context] =>
    return ⟨← version? version, ← id.string?, ← Timestamp.codec.ofJson? timestamp,
      ← states.ofJson? state, ← contexts.ofJson? context⟩
  | _ => none

/-- The JSON text of a checkpoint. The message of a failure is worded as a fault. -/
def toJson (states : Codec S) (contexts : Codec C) (c : Checkpoint S C) :
    Except CheckpointError String :=
  match c.tree states contexts with
  | .error message =>
    .error (.serializationFailed (String.ofList (Json.Fault.ofMessage message.toList).text))
  | .ok v => .ok (String.ofList v.print)

def ofJson (states : Codec S) (contexts : Codec C) (s : String) :
    Except CheckpointError (Checkpoint S C) :=
  match (Json.ofText? s.toList).bind (ofTree? states contexts) with
  | none => .error .deserializationFailed
  | some c => c.checkVersion

/-! ### Bytes -/

def encoded (states : Codec S) (contexts : Codec C) (c : Checkpoint S C) : Except String Bytes := do
  let timestamp ← Timestamp.codec.toBytes c.timestamp
  let state ← states.toBytes c.state
  let context ← contexts.toBytes c.context
  return Binary.ofWord c.version ++ Binary.ofText c.id ++ timestamp ++ state ++ context

def decode? (states : Codec S) (contexts : Codec C) (s : Bytes) :
    Option (Checkpoint S C × Bytes) := do
  let (version, s) ← Binary.readWord s
  let (id, s) ← Binary.readText s
  let (timestamp, s) ← Timestamp.codec.ofBytes? s
  let (state, s) ← states.ofBytes? s
  let (context, s) ← contexts.ofBytes? s
  return (⟨version, id, timestamp, state, context⟩, s)

def toBinary (states : Codec S) (contexts : Codec C) (c : Checkpoint S C) :
    Except CheckpointError Bytes :=
  match c.encoded states contexts with
  | .error message => .error (.serializationFailed message)
  | .ok bytes => .ok bytes

/-- The checkpoint of bytes; what follows it is ignored. -/
def ofBinary (states : Codec S) (contexts : Codec C) (s : Bytes) :
    Except CheckpointError (Checkpoint S C) :=
  match decode? states contexts s with
  | none => .error .deserializationFailed
  | some (c, _) => c.checkVersion

end Checkpoint

end Statechart
