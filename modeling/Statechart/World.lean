import Statechart.Table
import Statechart.Roster
import Statechart.Event

/-!
The world that user code works in: the instances, their activations, the tasks of the executor, the
names under which instances, handles and subscriptions are kept, and the journal.
-/

namespace Statechart

variable {σ : Signature}

/-- A running instance of a machine. -/
structure Instance (σ : Signature) where
  state : Cell σ.State (σ.State → Code σ)
  context : Cell σ.Context (σ.Context → Code σ)
  /-- The activation of the current state, if its effect has been started. -/
  active : Option ActivationId := none

/-- A cleanup, with the activation whose effect handed it back. -/
structure Cleanup (σ : Signature) where
  author : ActivationId
  code : Code σ

/-- One entry into a state with an effect. -/
structure Activation (σ : Signature) where
  owner : InstanceId
  state : σ.State
  signal : Signal (Code σ) := {}
  /-- Whether the context may be written; once closed, the window stays so. -/
  windowOpen : Bool := true
  cleanup : Option (Cleanup σ) := none

/-- How far a future has come. -/
inductive Progress (σ : Signature) where
  | ready (rest : Future σ)
  | stalled
  /-- It goes on when the signal of an activation has fired; `last` runs if it is let go before. -/
  | awaiting (k : ActivationId) (rest : Future σ) (last : Option (Code σ))

/-- A future in the hands of the executor. -/
structure Task (σ : Signature) where
  /-- The activation whose effect handed the future back. -/
  activation : ActivationId
  /-- How far it has come; nothing when it is finished. -/
  progress : Option (Progress σ)

def Task.finished (t : Task σ) : Bool := t.progress.isNone

/-- What exists besides the code that is running. -/
structure World (σ : Signature) where
  instances : Roster (Instance σ) := .empty
  activations : Roster (Activation σ) := .empty
  tasks : Roster (Task σ) := .empty
  /-- The tasks to poll, in order. -/
  ready : List TaskId := []
  /-- The instances that are owned by a name. -/
  slots : Table String InstanceId := .empty
  handles : Table String ActivationId := .empty
  subscriptions : Table String SubscriptionId := .empty
  nextSubscription : SubscriptionId := 0
  /-- What has happened, the latest first. -/
  journal : List (Event σ) := []

/-- On what code runs: the environment of an effect body, a handle, or nothing. -/
inductive Target (σ : Signature) where
  | environment (k : ActivationId) (trigger : Trigger σ.Action) (payload : Option σ.Payload)
  | handle (k : ActivationId)
  | bare

/-- The activation that code works on. -/
def Target.activation? : Target σ → Option ActivationId
  | .environment k _ _ => some k
  | .handle k => some k
  | .bare => none

/-- The trigger and the payload that code sees. -/
def Target.entry? : Target σ → Option (Trigger σ.Action × Option σ.Payload)
  | .environment _ trigger payload => some (trigger, payload)
  | _ => none

namespace World

def record (w : World σ) (e : Event σ) : World σ := { w with journal := e :: w.journal }

/-- What has happened, in order. -/
def history (w : World σ) : List (Event σ) := w.journal.reverse

def modifyInstance (w : World σ) (i : InstanceId) (f : Instance σ → Instance σ) : World σ :=
  { w with instances := w.instances.modify i f }

def modifyActivation (w : World σ) (k : ActivationId) (f : Activation σ → Activation σ) :
    World σ :=
  { w with activations := w.activations.modify k f }

def closeWindow (w : World σ) (k : ActivationId) : World σ :=
  w.modifyActivation k fun a => { a with windowOpen := false }

def aborted (w : World σ) (k : ActivationId) : Bool :=
  (w.activations.get? k).any fun a => a.signal.aborted

/-- What code that runs on `t` sees. -/
def view (w : World σ) (t : Target σ) : Option (View σ) := do
  let k ← t.activation?
  let a ← w.activations.get? k
  let inst ← w.instances.get? a.owner
  return ⟨a.state, inst.context.value, a.signal.aborted, a.windowOpen, t.entry?⟩

/-! ### Tasks -/

/-- Whether a task is finished, or not there. -/
def finished (w : World σ) (t : TaskId) : Bool := (w.tasks.get? t).all Task.finished

/-- The world in which a task is queued; one that is queued or finished stays as it is. -/
def wake (w : World σ) (t : TaskId) : World σ :=
  if w.ready.contains t || w.finished t then w.record (.woken t)
  else { w.record (.woken t) with ready := w.ready ++ [t] }

/-- The world in which whoever stands behind a waker is woken. -/
def fireWaker (w : World σ) : Waker → World σ
  | .idle => w
  | .task t => w.wake t

/-- The world with one more task, which is ready at once. -/
def addTask (w : World σ) (k : ActivationId) (p : Progress σ) : World σ :=
  { w with
    tasks := w.tasks.push ⟨k, some p⟩
    ready := w.ready ++ [w.tasks.size] }

/-- The world in which a task has come to `p`. -/
def setProgress (w : World σ) (t : TaskId) (p : Option (Progress σ)) : World σ :=
  { w with tasks := w.tasks.modify t fun task => { task with progress := p } }

/-- The first ready task that is not finished, and the world in which it is no longer queued. -/
def nextTask? (w : World σ) : Option (TaskId × Task σ × World σ) :=
  match w.ready.dropWhile w.finished with
  | [] => none
  | t :: rest => (w.tasks.get? t).map fun task => (t, task, { w with ready := rest })

/-! ### Subscriptions -/

/-- The world in which the next subscription id is kept under `name`. -/
def nameSubscription (w : World σ) (name : String) : World σ :=
  { w with
    subscriptions := w.subscriptions.insert name w.nextSubscription
    nextSubscription := w.nextSubscription + 1 }

/-- The world in which `observer` is told of every state of instance `i`. -/
def watchState (w : World σ) (i : InstanceId) (name : String) (observer : σ.State → Code σ) :
    World σ :=
  (w.modifyInstance i fun inst =>
    { inst with state := inst.state.subscribe w.nextSubscription observer }).nameSubscription name

/-- The world in which `observer` is told of every context of instance `i`. -/
def watchContext (w : World σ) (i : InstanceId) (name : String)
    (observer : σ.Context → Code σ) : World σ :=
  (w.modifyInstance i fun inst =>
    { inst with
      context := inst.context.subscribe w.nextSubscription observer }).nameSubscription name

/-- Whether instance `i` has an observer `id`, and the world without it. An id that names no state
observer is looked for among the context observers. -/
def unwatch (w : World σ) (i : InstanceId) (id : SubscriptionId) : Bool × World σ :=
  match w.instances.get? i with
  | none => (false, w)
  | some inst =>
    if inst.state.observes id then
      (true, w.modifyInstance i fun inst => { inst with state := inst.state.unsubscribe id })
    else if inst.context.observes id then
      (true, w.modifyInstance i fun inst => { inst with context := inst.context.unsubscribe id })
    else (false, w)

end World

end Statechart
