import Statechart.Signature
import Statechart.Error

/-!
The code that users attach to states and observers: effect bodies, cleanups, abort observers,
futures. A piece of code is the tree of the operations it performs, each with what it does next for
every answer of the operation.
-/

namespace Statechart

/-- The answer of a call: nothing when the call names what is not there, else how it ended. -/
abbrev Reply := Option (Except MachineError Unit)

/-- What code sees of the activation it works on. -/
structure View (σ : Signature) where
  state : σ.State
  /-- The context of the instance, as it is now. -/
  context : σ.Context
  aborted : Bool
  /-- Whether the window for context writes has not been closed. -/
  windowOpen : Bool
  /-- The trigger and the payload of the entry; only an effect body sees them. -/
  entry : Option (Trigger σ.Action × Option σ.Payload)

/-- Whether a context write would be accepted now. -/
def View.canSetContext {σ : Signature} (v : View σ) : Bool := v.windowOpen && !v.aborted

/-- What an instance shows of itself. -/
structure Snapshot (σ : Signature) where
  state : σ.State
  context : σ.Context
  isFinal : Bool

/-- The values with which a new instance is placed. -/
inductive Origin (σ : Signature) where
  /-- The machine's own. -/
  | fresh
  /-- Persisted ones, the machine's own where they are missing. -/
  | recovered (state : Option σ.State) (context : Option σ.Context)
  /-- Those of a checkpoint. -/
  | resumed (state : σ.State) (context : σ.Context)

mutual

/-- User code, as the tree of its operations. -/
inductive Code (σ : Signature) : Type where
  /-- Ends with an outcome, which only the end of an effect body is asked for. -/
  | finish (outcome : Outcome σ)
  | raise (error : MachineError)
  | emit (note : σ.Note) (next : Code σ)
  | look (next : Option (View σ) → Code σ)
  | setContext (context : σ.Context) (next : Code σ)
  /-- Dispatches an action on the owner of the activation. -/
  | dispatch (action : σ.Action) (payload : Option σ.Payload) (next : Reply → Code σ)
  /-- Moves the payload out of the environment. -/
  | takePayload (next : Option σ.Payload → Code σ)
  /-- Puts an observer into the slot of the abort signal. -/
  | onAbort (observer : Code σ) (next : Code σ)
  | clearAbort (next : Code σ)
  | keep (name : String) (next : Code σ)
  /-- Runs `body` on the handle kept under a name. -/
  | within (name : String) (body : Code σ) (next : Reply → Code σ)
  /-- Runs `body` on nothing, with a share in the ownership of the instance that the slot holds now,
  if it holds one. -/
  | holding (slot : String) (body : Code σ) (next : Reply → Code σ)
  /-- Places a new instance and stores it in a slot. -/
  | place (slot : String) (origin : Origin σ) (next : Reply → Code σ)
  /-- Dispatches an action on the instance in a slot. -/
  | send (slot : String) (action : σ.Action) (payload : Option σ.Payload) (next : Reply → Code σ)
  /-- Empties a slot; the answer is whether it held an instance. -/
  | drop (slot : String) (next : Bool → Code σ)
  | peek (slot : String) (next : Option (Snapshot σ) → Code σ)
  /-- Subscribes to the state of the instance in a slot and keeps the id under a name. -/
  | watchState (slot name : String) (observer : σ.State → Code σ) (next : Bool → Code σ)
  /-- Subscribes to the context of the instance in a slot and keeps the id under a name. -/
  | watchContext (slot name : String) (observer : σ.Context → Code σ) (next : Bool → Code σ)
  /-- Removes the subscription kept under a name from the instance in a slot. -/
  | unwatch (slot name : String) (next : Option Bool → Code σ)

/-- What an effect body hands back. -/
inductive Outcome (σ : Signature) : Type where
  /-- There is nothing to tear down. -/
  | done
  /-- This is to run when the state is exited. -/
  | cleanup (code : Code σ)
  /-- The effect goes on as this future. -/
  | pending (future : Future σ)

/-- The asynchronous part of an effect. Where it suspends, it may own something whose destructor
runs code: `last` runs if the future is let go there. What it still owns when it is over is gone by
then, since its last poll has ended with the destructors. -/
inductive Future (σ : Signature) : Type where
  | resolved
  /-- Is over, and asks for a cleanup. -/
  | resolvedWith (cleanup : Code σ)
  /-- Runs code on the handle of its activation, and goes on by how the code ended. -/
  | act (code : Code σ) (next : Except MachineError Unit → Future σ)
  /-- Suspends once, after it has asked to be polled again. -/
  | yield (next : Future σ) (last : Option (Code σ))
  | never (last : Option (Code σ))
  /-- Waits for the abort signal of its own activation, or of the handle kept under a name. -/
  | awaitAbort (name : Option String) (next : Future σ) (last : Option (Code σ))

end

abbrev Ending (σ : Signature) := Except MachineError (Outcome σ)

/-- The ending of an operation that has nothing to hand back. -/
abbrev Ending.done {σ : Signature} : Ending σ := Except.ok Outcome.done

/-- The answer that a call with this ending gives. -/
def Ending.reply {σ : Signature} : Ending σ → Except MachineError Unit
  | .ok _ => .ok ()
  | .error e => .error e

/-- The end of code that hands on the answer of its only call. -/
def Code.ofReply {σ : Signature} : Reply → Code σ
  | some (.error e) => .raise e
  | _ => .finish .done

end Statechart
