import Statechart.Run.Basic

/-!
Polls of a future: how it goes on until it is over or has to wait, and what becomes of it then.
-/

namespace Statechart.World

variable {σ : Signature}

/-- The world without the future of `k`, which nobody has kept. A spawner that has lost its executor
reports it. -/
def forget (m : Machine σ) (w : World σ) (k : ActivationId) : World σ :=
  match m.spawner with
  | some .shutdown => w.record (.refused k)
  | _ => w

/-- Lets go of the future of `k`, which nobody keeps, after the destructors of what it owns. -/
def letGo (m : Machine σ) (w : World σ) (k : ActivationId) (last : Option (Code σ))
    (stack : List (Frame σ)) : Run σ :=
  match last with
  | none => ⟨w.forget m k, .ended .done, stack⟩
  | some c => ⟨w, .code (.handle k) c, .dropping k :: stack⟩

/-- Hands the future of `k`, which its first poll left at `p`, to the spawner. -/
def spawn (m : Machine σ) (w : World σ) (k : ActivationId) (p : Progress σ)
    (last : Option (Code σ)) (stack : List (Frame σ)) : Option (Run σ) := do
  let a ← w.activations.get? k
  match m.spawner with
  | none => return (w.record (.noSpawner k a.state)).letGo m k last stack
  | some .queue | some .pool =>
    return ⟨(w.record (.spawned k)).addTask k p, .ended .done, stack⟩
  | some .eager =>
    return ⟨(w.record (.spawned k)).record (.polled k), .future .spawner k p, stack⟩
  | some .discard | some .shutdown => return (w.record (.spawned k)).letGo m k last stack

/-- Ends a poll that leaves the future of `k` unfinished at `p`. A task stays with the executor. -/
def suspend (m : Machine σ) (w : World σ) (poller : Poller) (k : ActivationId) (p : Progress σ)
    (last : Option (Code σ)) (stack : List (Frame σ)) : Option (Run σ) :=
  match poller with
  | .entry => (w.closeWindow k).spawn m k p last stack
  | .spawner => some ⟨w.addTask k p, .ended .done, stack⟩
  | .executor t => some ⟨w.setProgress t (some p), .ended .done, stack⟩

/-- Ends a poll that finishes the future of `k`. A cleanup that it asks for is dropped. -/
def finish (w : World σ) (poller : Poller) (k : ActivationId) (cleanup : Bool)
    (stack : List (Frame σ)) : Option (Run σ) := do
  let a ← w.activations.get? k
  let w := match poller with
    | .entry => w.closeWindow k
    | .spawner => w
    | .executor t => w.setProgress t none
  let w := if cleanup then w.record (.cleanupIgnored k a.state) else w
  return ⟨w, .ended .done, stack⟩

/-- One step of the future of `k`. -/
def advance (m : Machine σ) (w : World σ) (poller : Poller) (k : ActivationId)
    (stack : List (Frame σ)) : Progress σ → Option (Run σ)
  | .ready .resolved => w.finish poller k false stack
  | .ready (.resolvedWith _) => w.finish poller k true stack
  | .ready (.act c next) => some ⟨w, .code (.handle k) c, .acting poller k next :: stack⟩
  | .ready (.yield next last) =>
    (w.fireWaker poller.waker).suspend m poller k (.ready next) last stack
  | .ready (.never last) => w.suspend m poller k .stalled last stack
  | .ready (.awaitAbort none next last) => some ⟨w, .future poller k (.awaiting k next last), stack⟩
  | .ready (.awaitAbort (some name) next last) =>
    match w.handles.get? name with
    | none => some ⟨w, .future poller k (.ready next), stack⟩
    | some j => some ⟨w, .future poller k (.awaiting j next last), stack⟩
  | .stalled => w.suspend m poller k .stalled none stack
  | .awaiting j next last =>
    if w.aborted j then some ⟨w, .future poller k (.ready next), stack⟩
    else
      (w.modifyActivation j fun a => { a with signal := a.signal.register poller.waker }).suspend
        m poller k (.awaiting j next last) last stack

end Statechart.World
