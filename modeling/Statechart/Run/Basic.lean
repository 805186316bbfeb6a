import Statechart.Machine
import Statechart.World

/-!
Runs of a machine at one moment: the world, what happens next, and what is still to be done after
that. The stack also tells who owns an instance, and what keeps one alive.
-/

namespace Statechart

variable {σ : Signature}

/-- Who polls a future, and with what waker. -/
inductive Poller where
  /-- The entry into the state, once, while the window is open. -/
  | entry
  /-- A spawner that polls on the spot. -/
  | spawner
  /-- The executor, with the waker of the task. -/
  | executor (t : TaskId)
  deriving DecidableEq

/-- The waker of a poll. -/
def Poller.waker : Poller → Waker
  | .executor t => .task t
  | _ => .idle

/-- What happens next. -/
inductive Control (σ : Signature) where
  | code (t : Target σ) (c : Code σ)
  /-- The future of activation `k` goes on. -/
  | future (p : Poller) (k : ActivationId) (progress : Progress σ)
  /-- Something has ended, and the topmost frame goes on. -/
  | ended (r : Ending σ)

/-- That an observer is told of a write. -/
inductive Notice (σ : Signature) where
  | state (i : InstanceId) (id : SubscriptionId) (value : σ.State)
  | context (i : InstanceId) (id : SubscriptionId) (value : σ.Context)

/-- The event that reports a notice. -/
def Notice.event : Notice σ → Event σ
  | state i id s => .toldState i id s
  | context i id c => .toldContext i id c

/-- What is to be done when something has ended. -/
inductive Frame (σ : Signature) where
  /-- User code goes on with the answer of its call. -/
  | resume (t : Target σ) (next : Reply → Code σ)
  /-- An operation gives back its share in the ownership of instance `i`. -/
  | owning (i : InstanceId)
  /-- A call through a handle stops keeping instance `i` alive. -/
  | pinning (i : InstanceId)
  /-- After the exit that the last owner of instance `i` causes, the owner is gone; the ending is
  `r`. -/
  | farewell (i : InstanceId) (r : Ending σ)
  /-- After a cleanup that had to run at once, the ending is `r`. -/
  | settle (r : Ending σ)
  /-- After its abort observer, the exit of `k` wakes those who wait and runs the cleanup. -/
  | exiting (k : ActivationId) (wakers : List Waker) (cleanup : Option (Cleanup σ))
  /-- After the exit, the transition writes the state variable and enters the target. -/
  | changing (i : InstanceId) (target : σ.State) (action : σ.Action) (payload : Option σ.Payload)
  /-- The remaining observers of a write run, each after the event that reports its call. -/
  | notifying (calls : List (Notice σ × Code σ))
  /-- After the observers, the current state is entered. -/
  | entering (i : InstanceId) (trigger : Trigger σ.Action) (payload : Option σ.Payload)
  /-- After the body, the entry that started `k` deals with the outcome. -/
  | body (k : ActivationId)
  /-- After its destructors, the future of `k` is gone, which a spawner may have to report. -/
  | dropping (k : ActivationId)
  /-- After a piece of its code, the future of `k` goes on. -/
  | acting (p : Poller) (k : ActivationId) (next : Except MachineError Unit → Future σ)
  /-- After its first entry, the new instance is stored or dropped. -/
  | placing (i : InstanceId) (slot : String)

/-- A run at one moment. -/
structure Run (σ : Signature) where
  world : World σ
  control : Control σ
  stack : List (Frame σ)

/-- Whether a frame has a share in the ownership of an instance. -/
def Frame.owns (i : InstanceId) : Frame σ → Bool
  | .owning j => i = j
  | .placing j _ => i = j
  | _ => false

/-- Whether a frame keeps an instance alive. -/
def Frame.pins (i : InstanceId) : Frame σ → Bool
  | .pinning j => i = j
  | .farewell j _ => i = j
  | f => f.owns i

/-- Whether someone owns the instance: a slot, or a running operation. -/
def owned (w : World σ) (stack : List (Frame σ)) (i : InstanceId) : Bool :=
  w.slots.entries.any (·.2 = i) || stack.any (Frame.owns i)

/-- Whether the instance can still be reached through handles. -/
def alive (w : World σ) (stack : List (Frame σ)) (i : InstanceId) : Bool :=
  w.slots.entries.any (·.2 = i) || stack.any (Frame.pins i)

end Statechart
