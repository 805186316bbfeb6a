import Statechart.Cell
import Statechart.Signal
import Statechart.Code

/-!
The journal of a run: what has happened, in terms of instances and activations, and the log lines
that report some of it. Events without a log line are seen by no one, but a law about the order of
things can speak of them.
-/

namespace Statechart

/-- The number of an instance, in the order of placement. -/
abbrev InstanceId := Nat

/-- The number of an activation, in the order of entry. -/
abbrev ActivationId := Nat

/-- Through what an action was dispatched. -/
inductive Caller where
  | owner
  | handle (k : ActivationId)
  deriving DecidableEq

inductive Event (σ : Signature) where
  | note (n : σ.Note)
  | placed (i : InstanceId) (state : σ.State)
  | resuming (state : σ.State)
  /-- The last owner of an instance let it go. -/
  | released (i : InstanceId)
  | ignored (i : InstanceId) (state : σ.State) (action : σ.Action)
  /-- An action that the current state accepts, with its target. -/
  | transition (i : InstanceId) (caller : Caller) (source target : σ.State) (action : σ.Action)
  | wrote (i : InstanceId) (source target : σ.State) (action : σ.Action)
      (payload : Option σ.Payload)
  | toldState (i : InstanceId) (id : SubscriptionId) (state : σ.State)
  | toldContext (i : InstanceId) (id : SubscriptionId) (context : σ.Context)
  /-- The entry into a state without effect. -/
  | entered (i : InstanceId) (state : σ.State) (trigger : Trigger σ.Action)
      (payload : Option σ.Payload)
  /-- The entry into a state with an effect, which starts an activation. -/
  | started (i : InstanceId) (k : ActivationId) (state : σ.State) (trigger : Trigger σ.Action)
      (payload : Option σ.Payload)
  /-- An activation lost its place to another one without being exited. -/
  | displaced (k : ActivationId)
  /-- The exit of an activation begins, while the instance is in `state`. -/
  | exiting (i : InstanceId) (k : ActivationId) (state : σ.State)
  | aborted (k : ActivationId)
  | observing (k : ActivationId)
  | woken (t : TaskId)
  | cleanupGiven (k : ActivationId)
  /-- The cleanup that `author` handed back runs in the exit of `k`. -/
  | cleanupRun (author k : ActivationId)
  /-- The cleanup of an activation that is over already runs at once. -/
  | cleanupAtOnce (k : ActivationId) (state : σ.State)
  /-- A future resolved to a cleanup, which is dropped. -/
  | cleanupIgnored (k : ActivationId) (state : σ.State)
  | polled (k : ActivationId)
  | spawned (k : ActivationId)
  /-- An unfinished future was dropped, since there is no spawner. -/
  | noSpawner (k : ActivationId) (state : σ.State)
  | refused (k : ActivationId)
  | contextSet (i : InstanceId) (k : ActivationId) (context : σ.Context)
  /-- A context write after the exit. -/
  | contextExpired (k : ActivationId) (state : σ.State)
  /-- A context write after the window was closed. -/
  | contextLate (k : ActivationId) (state : σ.State)
  /-- A dispatch after the exit. -/
  | dispatchExpired (k : ActivationId) (state : σ.State) (action : σ.Action)
  /-- A dispatch on an instance that is gone. -/
  | dispatchOrphaned (k : ActivationId) (state : σ.State) (action : σ.Action)
  /-- An abort observer for a signal that has fired. -/
  | observerLate (k : ActivationId)

inductive Level where
  | trace
  | debug
  | warn
  deriving DecidableEq

/-- A number that grows with the severity. -/
def Level.rank : Level → Nat
  | trace => 0
  | debug => 1
  | warn => 2

def Level.name : Level → String
  | trace => "TRACE"
  | debug => "DEBUG"
  | warn => "WARN"

structure LogLine where
  level : Level
  message : String
  fields : List (String × String)
  deriving DecidableEq

namespace Event

variable {σ : Signature}

def stateField (s : σ.State) : String × String := ("state", σ.stateName s)

def actionField (a : σ.Action) : String × String := ("action", σ.actionName a)

def triggerField (t : Trigger σ.Action) : String × String := ("trigger", t.name σ.actionName)

/-- The log line that reports an event. -/
def line? : Event σ → Option LogLine
  | resuming s =>
    some ⟨.debug, "resuming from checkpoint", [("id", "<id>"), stateField s]⟩
  | ignored _ s a =>
    some ⟨.trace, "ignoring action not accepted in current state", [stateField s, actionField a]⟩
  | transition _ _ s t a =>
    some ⟨.debug, "transition",
      [("from", σ.stateName s), ("to", σ.stateName t), actionField a]⟩
  | entered _ s t _ =>
    some ⟨.debug, "entered state without effect", [stateField s, triggerField t]⟩
  | started _ _ s t _ => some ⟨.debug, "starting effect", [stateField s, triggerField t]⟩
  | exiting _ _ s => some ⟨.debug, "exiting effect", [stateField s]⟩
  | cleanupAtOnce _ s =>
    some ⟨.debug, "running cleanup of an effect exited during its own entry", [stateField s]⟩
  | cleanupIgnored _ s =>
    some ⟨.warn, "ignoring cleanup resolved by an asynchronous effect", [stateField s]⟩
  | noSpawner _ s =>
    some ⟨.warn, "no spawner configured; dropping pending effect", [stateField s]⟩
  | refused _ =>
    some ⟨.warn, "executor rejected pending effect", [("error", "Executor is shutdown")]⟩
  | contextExpired _ s =>
    some ⟨.warn, "Context cannot be set after the effect has expired", [stateField s]⟩
  | contextLate _ s =>
    some ⟨.warn, "Context can only be set synchronously during effect initialisation",
      [stateField s]⟩
  | dispatchExpired _ s a =>
    some ⟨.warn, "Cannot dispatch an action after the effect has expired",
      [stateField s, actionField a]⟩
  | dispatchOrphaned _ s a =>
    some ⟨.warn, "Cannot dispatch an action on a dropped instance",
      [stateField s, actionField a]⟩
  | observerLate _ =>
    some ⟨.debug, "abort observer registered on an already aborted signal", []⟩
  | _ => none

end Event

/-- What a listener gets to see of a run: the log lines from a level on, and the notes. -/
inductive Report (σ : Signature) where
  | line (l : LogLine)
  | note (n : σ.Note)

/-- What a listener from level `least` on gets to see of an event; without a level, notes alone. -/
def Event.report? {σ : Signature} (least : Option Level) (e : Event σ) : Option (Report σ) :=
  match e with
  | .note n => some (.note n)
  | e =>
    match least, e.line? with
    | some level, some l => if level.rank ≤ l.level.rank then some (.line l) else none
    | _, _ => none

end Statechart
