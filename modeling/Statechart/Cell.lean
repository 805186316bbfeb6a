import Statechart.Table

/-!
Observable cells: a value, and the observers that are told of every write. Named cells have
observers that work on the cells themselves: what such code does, operation by operation, and the
agenda of what is still to be done. A write puts the observers that it reaches in front of
everything else.
-/

namespace Statechart

/-- The number under which an observer is registered. -/
abbrev SubscriptionId := UInt64

/-- A value with its observers, in the order in which they subscribed. -/
structure Cell (α β : Type) where
  value : α
  observers : List (SubscriptionId × β) := []

namespace Cell

variable {α β : Type}

def write (c : Cell α β) (a : α) : Cell α β := { c with value := a }

def subscribe (c : Cell α β) (id : SubscriptionId) (b : β) : Cell α β :=
  { c with observers := c.observers ++ [(id, b)] }

def observes (c : Cell α β) (id : SubscriptionId) : Bool := c.observers.any fun o => o.1 = id

def unsubscribe (c : Cell α β) (id : SubscriptionId) : Cell α β :=
  { c with observers := c.observers.filter fun o => o.1 ≠ id }

end Cell

/-! ### Cells by name, and nested writes -/

/-- Code that works on cells, as the tree of its operations. -/
inductive CellCode (α ν : Type) : Type where
  | done
  | emit (note : ν) (next : CellCode α ν)
  /-- Looks at a cell: its value and the number of its observers. -/
  | look (cell : String) (next : Option (α × Nat) → CellCode α ν)
  | set (cell : String) (value : α) (next : CellCode α ν)
  /-- Subscribes to a cell and keeps the id under a name. -/
  | subscribe (cell name : String) (observer : α → CellCode α ν) (next : CellCode α ν)
  /-- Removes the subscription kept under a name from a cell. -/
  | unsubscribe (cell name : String) (next : Option Bool → CellCode α ν)
  /-- Looks for the id kept under a name. -/
  | named (name : String) (next : Option SubscriptionId → CellCode α ν)

/-- What has happened to cells. -/
inductive CellEvent (α ν : Type) where
  | note (n : ν)
  | wrote (cell : String) (value : α)
  | told (cell : String) (id : SubscriptionId) (value : α)
  | subscribed (cell : String) (id : SubscriptionId)
  | removed (cell : String) (id : SubscriptionId)

/-- The cells, and the names under which subscriptions are kept. -/
structure CellWorld (α ν : Type) where
  cells : Table String (Cell α (α → CellCode α ν))
  names : Table String SubscriptionId := .empty
  nextSubscription : SubscriptionId := 0
  /-- What has happened, the latest first. -/
  journal : List (CellEvent α ν) := []

inductive CellTask (α ν : Type) where
  | run (code : CellCode α ν)
  | tell (cell : String) (id : SubscriptionId) (value : α) (observer : α → CellCode α ν)

/-- The cells together with what is still to be done, in order. -/
structure Agenda (α ν : Type) where
  world : CellWorld α ν
  tasks : List (CellTask α ν)

variable {α ν : Type}

namespace CellWorld

def record (w : CellWorld α ν) (e : CellEvent α ν) : CellWorld α ν :=
  { w with journal := e :: w.journal }

def put (w : CellWorld α ν) (name : String) (c : Cell α (α → CellCode α ν)) : CellWorld α ν :=
  { w with cells := w.cells.insert name c }

/-- One operation, with `rest` to be done after the code. -/
def perform (w : CellWorld α ν) (rest : List (CellTask α ν)) : CellCode α ν → Agenda α ν
  | .done => ⟨w, rest⟩
  | .emit n next => ⟨w.record (.note n), .run next :: rest⟩
  | .look cell next =>
    ⟨w, .run (next ((w.cells.get? cell).map fun c => (c.value, c.observers.length))) :: rest⟩
  | .set cell value next =>
    match w.cells.get? cell with
    | none => ⟨w, .run next :: rest⟩
    | some c =>
      ⟨(w.put cell (c.write value)).record (.wrote cell value),
        c.observers.map (fun o => .tell cell o.1 value o.2) ++ .run next :: rest⟩
  | .subscribe cell name observer next =>
    match w.cells.get? cell with
    | none => ⟨w, .run next :: rest⟩
    | some c =>
      let id := w.nextSubscription
      let w := { w.put cell (c.subscribe id observer) with
        names := w.names.insert name id
        nextSubscription := id + 1 }
      ⟨w.record (.subscribed cell id), .run next :: rest⟩
  | .unsubscribe cell name next =>
    match w.cells.get? cell, w.names.get? name with
    | some c, some id =>
      if c.observes id then
        ⟨(w.put cell (c.unsubscribe id)).record (.removed cell id),
          .run (next (some true)) :: rest⟩
      else ⟨w, .run (next (some false)) :: rest⟩
    | _, _ => ⟨w, .run (next none) :: rest⟩
  | .named name next => ⟨w, .run (next (w.names.get? name)) :: rest⟩

end CellWorld

namespace Agenda

/-- One step; there is none when nothing is left to be done. -/
def step (a : Agenda α ν) : Option (Agenda α ν) :=
  match a.tasks with
  | [] => none
  | .run code :: rest => some (a.world.perform rest code)
  | .tell cell id value observer :: rest =>
    some ⟨a.world.record (.told cell id value), .run (observer value) :: rest⟩

def steps : Nat → Agenda α ν → Agenda α ν
  | 0, a => a
  | fuel + 1, a =>
    match a.step with
    | none => a
    | some a' => steps fuel a'

end Agenda

end Statechart
