import Statechart.Run.Lifecycle

/-!
The operations of user code on the activation that it works on and on the instances in slots.
-/

namespace Statechart.World

variable {σ : Signature}

/-- What the instance in a slot shows of itself. -/
def peek? (m : Machine σ) (w : World σ) (slot : String) : Option (Snapshot σ) := do
  let i ← w.slots.get? slot
  let inst ← w.instances.get? i
  return ⟨inst.state.value, inst.context.value, m.isFinal inst.state.value⟩

def goOn (w : World σ) (t : Target σ) (c : Code σ) (stack : List (Frame σ)) : Run σ :=
  ⟨w, .code t c, stack⟩

/-- Replaces the context through an activation, unless it is over or its window is closed. -/
def setContext (w : World σ) (t : Target σ) (context : σ.Context) (next : Code σ)
    (stack : List (Frame σ)) : Option (Run σ) :=
  match t.activation? with
  | none => some (w.goOn t next stack)
  | some k => do
    let a ← w.activations.get? k
    if a.signal.aborted then
      return (w.record (.contextExpired k a.state)).goOn t next stack
    else if !a.windowOpen then
      return (w.record (.contextLate k a.state)).goOn t next stack
    else
      let inst ← w.instances.get? a.owner
      let w := w.record (.contextSet a.owner k context)
      let w := w.modifyInstance a.owner fun inst =>
        { inst with context := inst.context.write context }
      let calls := inst.context.observers.map fun o =>
        (Notice.context a.owner o.1 context, o.2 context)
      return ⟨w, .ended .done, .notifying calls :: .resume t (fun _ => next) :: stack⟩

/-- Dispatches an action through an activation, unless it is over or its instance is gone. -/
def forward (m : Machine σ) (w : World σ) (t : Target σ) (a : σ.Action) (p : Option σ.Payload)
    (next : Reply → Code σ) (stack : List (Frame σ)) : Option (Run σ) :=
  match t.activation? with
  | none => some (w.goOn t (next none) stack)
  | some k => do
    let act ← w.activations.get? k
    if act.signal.aborted then
      return (w.record (.dispatchExpired k act.state a)).goOn t (next (some (.ok ()))) stack
    else if !alive w stack act.owner then
      return (w.record (.dispatchOrphaned k act.state a)).goOn t (next (some (.ok ()))) stack
    else
      w.dispatch m act.owner (.handle k) a p (.pinning act.owner :: .resume t next :: stack)

/-- Puts an observer into the slot of an abort signal, unless it has fired. -/
def onAbort (w : World σ) (t : Target σ) (observer next : Code σ) (stack : List (Frame σ)) :
    Run σ :=
  match t.activation? with
  | none => w.goOn t next stack
  | some k =>
    if w.aborted k then (w.record (.observerLate k)).goOn t next stack
    else
      (w.modifyActivation k fun a =>
        { a with signal := a.signal.setObserver observer }).goOn t next stack

/-- Places an instance in state `s` with context `c`, unless the state is not declared. -/
def start (m : Machine σ) (w : World σ) (t : Target σ) (slot : String) (s : σ.State)
    (c : σ.Context) (next : Reply → Code σ) (stack : List (Frame σ)) : Run σ :=
  if m.config.contains s then
    let i := w.instances.size
    let w : World σ := { w with instances := w.instances.push ⟨⟨s, []⟩, ⟨c, []⟩, none⟩ }
    ⟨w.record (.placed i s), .ended .done,
      .entering i .initial none :: .placing i slot :: .resume t next :: stack⟩
  else w.goOn t (next (some (.error (.unknownState (σ.stateName s))))) stack

/-- Places an instance with the values of an origin. -/
def place (m : Machine σ) (w : World σ) (t : Target σ) (slot : String) (o : Origin σ)
    (next : Reply → Code σ) (stack : List (Frame σ)) : Run σ :=
  match o with
  | .fresh => w.start m t slot m.initialState m.initialContext next stack
  | .recovered s c =>
    w.start m t slot (s.getD m.initialState) (c.getD m.initialContext) next stack
  | .resumed s c => (w.record (.resuming s)).start m t slot s c next stack

/-- Stores a new instance in a slot, and gives up the instance that the slot held before. -/
def store (w : World σ) (slot : String) (i : InstanceId) (stack : List (Frame σ)) :
    Option (Run σ) :=
  let old := w.slots.get? slot
  let w := { w with slots := w.slots.insert slot i }
  match old with
  | none => some ⟨w, .ended .done, stack⟩
  | some j => w.release j .done stack

/-- One operation of the code that runs on `t`. -/
def perform (m : Machine σ) (w : World σ) (t : Target σ) (stack : List (Frame σ)) :
    Code σ → Option (Run σ)
  | .finish o => some ⟨w, .ended (.ok o), stack⟩
  | .raise e => some ⟨w, .ended (.error e), stack⟩
  | .emit n next => some ((w.record (.note n)).goOn t next stack)
  | .look next => some (w.goOn t (next (w.view t)) stack)
  | .setContext context next => w.setContext t context next stack
  | .dispatch a p next => w.forward m t a p next stack
  | .takePayload next =>
    match t with
    | .environment k trigger p => some (w.goOn (.environment k trigger none) (next p) stack)
    | _ => some (w.goOn t (next none) stack)
  | .onAbort observer next => some (w.onAbort t observer next stack)
  | .clearAbort next =>
    match t.activation? with
    | none => some (w.goOn t next stack)
    | some k =>
      some ((w.modifyActivation k fun a =>
        { a with signal := a.signal.clearObserver }).goOn t next stack)
  | .keep name next =>
    match t.activation? with
    | none => some (w.goOn t next stack)
    | some k => some ({ w with handles := w.handles.insert name k }.goOn t next stack)
  | .within name body next =>
    match w.handles.get? name with
    | none => some (w.goOn t (next none) stack)
    | some k => some ⟨w, .code (.handle k) body, .resume t next :: stack⟩
  | .holding slot body next =>
    match w.slots.get? slot with
    | none => some ⟨w, .code .bare body, .resume t next :: stack⟩
    | some i => some ⟨w, .code .bare body, .owning i :: .resume t next :: stack⟩
  | .place slot o next => some (w.place m t slot o next stack)
  | .send slot a p next =>
    match w.slots.get? slot with
    | none => some (w.goOn t (next none) stack)
    | some i => w.dispatch m i .owner a p (.owning i :: .resume t next :: stack)
  | .drop slot next =>
    match w.slots.get? slot with
    | none => some (w.goOn t (next false) stack)
    | some i =>
      { w with slots := w.slots.erase slot }.release i .done
        (.resume t (fun _ => next true) :: stack)
  | .peek slot next => some (w.goOn t (next (w.peek? m slot)) stack)
  | .watchState slot name observer next =>
    match w.slots.get? slot with
    | none => some (w.goOn t (next false) stack)
    | some i => some ((w.watchState i name observer).goOn t (next true) stack)
  | .watchContext slot name observer next =>
    match w.slots.get? slot with
    | none => some (w.goOn t (next false) stack)
    | some i => some ((w.watchContext i name observer).goOn t (next true) stack)
  | .unwatch slot name next =>
    match w.slots.get? slot, w.subscriptions.get? name with
    | some i, some id =>
      let (found, w) := w.unwatch i id
      some (w.goOn t (next (some found)) stack)
    | _, _ => some (w.goOn t (next none) stack)

end Statechart.World
