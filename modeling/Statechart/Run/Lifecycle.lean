import Statechart.Run.Basic

/-!
The life of an activation: the entry into a state starts it, the exit tears it down, and a
transition is an exit, a write of the state variable, and an entry. Each stage leaves the next one
on the stack, so that user code may run in between.
-/

namespace Statechart.World

variable {σ : Signature}

/-! ### Exit -/

/-- Tears down the live activation of instance `i`, if there is one: closes the window, fires the
signal, and leaves the observer, the wakers and the cleanup to be run in this order. -/
def exit (w : World σ) (i : InstanceId) (stack : List (Frame σ)) : Option (Run σ) := do
  let inst ← w.instances.get? i
  match inst.active with
  | none => return ⟨w, .ended .done, stack⟩
  | some k =>
    let a ← w.activations.get? k
    let w := w.record (.exiting i k inst.state.value)
    let w := w.modifyInstance i fun inst => { inst with active := none }
    let w := w.modifyActivation k fun a =>
      { a with windowOpen := false, signal := a.signal.fire, cleanup := none }
    let w := w.record (.aborted k)
    let stack := .exiting k a.signal.woken a.cleanup :: stack
    match a.signal.fired with
    | none => return ⟨w, .ended .done, stack⟩
    | some c => return ⟨w.record (.observing k), .code (.handle k) c, stack⟩

/-- Gives up a share in the ownership of instance `i` that no frame of the stack stands for any
more; when it was the last one, the live activation is exited. The ending is `r` in either case. -/
def release (w : World σ) (i : InstanceId) (r : Ending σ) (stack : List (Frame σ)) :
    Option (Run σ) :=
  if owned w stack i then some ⟨w, .ended r, stack⟩
  else (w.record (.released i)).exit i (.farewell i r :: stack)

/-! ### Transition -/

/-- Carries out an action on instance `i`: finds the target and exits the current state. -/
def dispatch (m : Machine σ) (w : World σ) (i : InstanceId) (caller : Caller) (a : σ.Action)
    (p : Option σ.Payload) (stack : List (Frame σ)) : Option (Run σ) := do
  let inst ← w.instances.get? i
  let s := inst.state.value
  match m.config.target? s a with
  | none => return ⟨w.record (.ignored i s a), .ended .done, stack⟩
  | some t =>
    if m.config.contains t then
      (w.record (.transition i caller s t a)).exit i (.changing i t a p :: stack)
    else
      return ⟨w, .ended (.error (.unknownTarget (σ.stateName s) (σ.actionName a)
        (σ.stateName t))), stack⟩

/-- Writes the state variable of instance `i` and leaves its observers to be told, then the
current state to be entered. -/
def change (w : World σ) (i : InstanceId) (t : σ.State) (a : σ.Action) (p : Option σ.Payload)
    (stack : List (Frame σ)) : Option (Run σ) := do
  let inst ← w.instances.get? i
  let w := w.record (.wrote i inst.state.value t a p)
  let w := w.modifyInstance i fun inst => { inst with state := inst.state.write t }
  let calls := inst.state.observers.map fun o => (Notice.state i o.1 t, o.2 t)
  return ⟨w, .ended .done, .notifying calls :: .entering i (.action a) p :: stack⟩

/-! ### Entry -/

/-- Enters the current state of instance `i`: starts its effect on a new activation. -/
def enter (m : Machine σ) (w : World σ) (i : InstanceId) (trigger : Trigger σ.Action)
    (p : Option σ.Payload) (stack : List (Frame σ)) : Option (Run σ) := do
  let inst ← w.instances.get? i
  let s := inst.state.value
  match m.config.effect? s with
  | none => return ⟨w.record (.entered i s trigger p), .ended .done, stack⟩
  | some c =>
    let k := w.activations.size
    let w := match inst.active with
      | none => w
      | some j => w.record (.displaced j)
    let w : World σ := { w with activations := w.activations.push { owner := i, state := s } }
    let w := w.modifyInstance i fun inst => { inst with active := some k }
    return ⟨w.record (.started i k s trigger p), .code (.environment k trigger p) c,
      .body k :: stack⟩

/-- Leaves the cleanup of activation `k` to the live activation of its instance; if `k` is over
already, runs it at once. -/
def keepCleanup (w : World σ) (k : ActivationId) (c : Code σ) (stack : List (Frame σ)) :
    Option (Run σ) := do
  let a ← w.activations.get? k
  let w := w.record (.cleanupGiven k)
  if a.signal.aborted then
    return ⟨w.record (.cleanupAtOnce k a.state), .code (.handle k) c, .settle .done :: stack⟩
  else
    let inst ← w.instances.get? a.owner
    let w := match inst.active with
      | none => w
      | some j => w.modifyActivation j fun b => { b with cleanup := some ⟨k, c⟩ }
    return ⟨w, .ended .done, stack⟩

/-- Deals with what the body of activation `k` handed back. The window is closed before anything
else, except that a future is polled first. -/
def conclude (w : World σ) (k : ActivationId) (r : Ending σ) (stack : List (Frame σ)) :
    Option (Run σ) :=
  match r with
  | .error e => some ⟨w.closeWindow k, .ended (.error e), stack⟩
  | .ok .done => some ⟨w.closeWindow k, .ended .done, stack⟩
  | .ok (.cleanup c) => (w.closeWindow k).keepCleanup k c stack
  | .ok (.pending f) => some ⟨w.record (.polled k), .future .entry k (.ready f), stack⟩

end Statechart.World
