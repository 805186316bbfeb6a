import Statechart.Run.Operation
import Statechart.Run.Polling

/-!
Runs of a machine, step by step. A step performs one operation of user code, or one stage of what
the library does around it: the exit of an activation, the write of the state variable, the call of
an observer, the entry into a state, the poll of a future. Every moment at which user code runs is
a run of its own.
-/

namespace Statechart

variable {σ : Signature}

/-- What the topmost frame does with the ending `r`. -/
def World.proceed (m : Machine σ) (w : World σ) (r : Ending σ) (stack : List (Frame σ)) :
    Frame σ → Option (Run σ)
  | .resume t next => some (w.goOn t (next (some r.reply)) stack)
  | .owning i => w.release i r stack
  | .pinning _ => some ⟨w, .ended r, stack⟩
  | .farewell _ r => some ⟨w, .ended r, stack⟩
  | .settle r => some ⟨w, .ended r, stack⟩
  | .exiting k wakers cleanup =>
    let w := wakers.foldl fireWaker w
    match cleanup with
    | none => some ⟨w, .ended .done, stack⟩
    | some c => some ⟨w.record (.cleanupRun c.author k), .code (.handle c.author) c.code, stack⟩
  | .changing i target action payload => w.change i target action payload stack
  | .notifying [] => some ⟨w, .ended .done, stack⟩
  | .notifying ((n, call) :: calls) =>
    some ⟨w.record n.event, .code .bare call, .notifying calls :: stack⟩
  | .entering i trigger payload => w.enter m i trigger payload stack
  | .body k => w.conclude k r stack
  | .dropping k => some ⟨w.forget m k, .ended .done, stack⟩
  | .acting poller k next => some ⟨w, .future poller k (.ready (next r.reply)), stack⟩
  | .placing i slot =>
    match r with
    | .ok _ => w.store slot i stack
    | .error e => w.release i (.error e) stack

namespace Run

/-- One step. A run without a next step is over. -/
def step (m : Machine σ) (r : Run σ) : Option (Run σ) :=
  match r.control with
  | .code t c => r.world.perform m t r.stack c
  | .future poller k p => r.world.advance m poller k r.stack p
  | .ended e =>
    match r.stack with
    | [] => none
    | f :: stack => r.world.proceed m e stack f

def steps (m : Machine σ) : Nat → Run σ → Run σ
  | 0, r => r
  | fuel + 1, r =>
    match r.step m with
    | none => r
    | some r' => steps m fuel r'

/-- The run of code that works on nothing. -/
def ofCode (w : World σ) (c : Code σ) : Run σ := ⟨w, .code .bare c, []⟩

/-- The run of code on a handle of activation `k`. -/
def onHandle (w : World σ) (k : ActivationId) (c : Code σ) : Run σ := ⟨w, .code (.handle k) c, []⟩

/-- The poll of the first ready task, if there is one. -/
def ofPoll? (w : World σ) : Option (Run σ) :=
  match w.nextTask? with
  | none => none
  | some (t, task, w) =>
    task.progress.map fun p =>
      ⟨w.record (.polled task.activation), .future (.executor t) task.activation p, []⟩

/-- How a run has ended, if it is over. -/
def ending? (r : Run σ) : Option (Ending σ) :=
  match r.control, r.stack with
  | .ended e, [] => some e
  | _, _ => none

end Run

end Statechart
