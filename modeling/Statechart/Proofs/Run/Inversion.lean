import Statechart.Proofs.Lifecycle.Basic

/-!
What each function of the library comes to. A relation for each of them lists its outcomes, with
what decides for them, and a lemma says that there are no others. A frame lemma about a step has one
case for each entry of these lists, and does not open the function.
-/

namespace Statechart.World

variable {σ : Signature} {m : Machine σ} {w : World σ} {stack : List (Frame σ)} {r : Run σ}
  {i : InstanceId} {k : ActivationId}

/-! ### Exit -/

/-- What the exit of instance `i` comes to. -/
inductive Exits (w : World σ) (i : InstanceId) (stack : List (Frame σ)) : Run σ → Prop
  | vacant {inst : Instance σ} (hi : w.instances.get? i = some inst) (ha : inst.active = none) :
      Exits w i stack ⟨w, .ended .done, stack⟩
  | active {inst : Instance σ} {k : ActivationId} {a : Activation σ}
      (hi : w.instances.get? i = some inst) (ha : inst.active = some k)
      (hk : w.activations.get? k = some a) :
      Exits w i stack ((w.tearDown i k inst.state.value).observing k a.signal.fired
        (.exiting k a.signal.woken a.cleanup :: stack))

theorem exit_cases (h : w.exit i stack = some r) : w.Exits i stack r := by
  have hfound := h
  simp only [exit, Option.bind_eq_bind, Option.bind_eq_some_iff] at hfound
  obtain ⟨inst, hi, hfound⟩ := hfound
  cases ha : inst.active with
  | none =>
    rw [exit_of_vacant hi ha] at h
    obtain rfl := Option.some.inj h
    exact .vacant hi ha
  | some k =>
    simp only [ha, Option.bind_eq_some_iff] at hfound
    obtain ⟨a, hk, -⟩ := hfound
    rw [exit_of_active hi ha hk] at h
    obtain rfl := Option.some.inj h
    exact .active hi ha hk

/-- What comes of giving up a share in instance `i`. -/
inductive Releases (w : World σ) (i : InstanceId) (e : Ending σ) (stack : List (Frame σ)) :
    Run σ → Prop
  | shared (ho : owned w stack i = true) : Releases w i e stack ⟨w, .ended e, stack⟩
  | last {r : Run σ} (ho : owned w stack i = false)
      (h : (w.record (.released i)).exit i (.farewell i e :: stack) = some r) :
      Releases w i e stack r

theorem release_cases {e : Ending σ} (h : w.release i e stack = some r) :
    w.Releases i e stack r := by
  unfold release at h
  split at h
  · next ho =>
    obtain rfl := Option.some.inj h
    exact .shared ho
  · next ho => exact .last (by simpa using ho) h

/-! ### Transition -/

/-- What an action on instance `i` comes to. -/
inductive Dispatches (m : Machine σ) (w : World σ) (i : InstanceId) (caller : Caller)
    (a : σ.Action) (p : Option σ.Payload) (stack : List (Frame σ)) : Run σ → Prop
  | ignored {inst : Instance σ} (hi : w.instances.get? i = some inst)
      (ht : m.config.target? inst.state.value a = none) :
      Dispatches m w i caller a p stack
        ⟨w.record (.ignored i inst.state.value a), .ended .done, stack⟩
  | departs {inst : Instance σ} {t : σ.State} {r : Run σ} (hi : w.instances.get? i = some inst)
      (ht : m.config.target? inst.state.value a = some t) (hc : m.config.contains t = true)
      (h : (w.record (.transition i caller inst.state.value t a)).exit i
        (.changing i t a p :: stack) = some r) :
      Dispatches m w i caller a p stack r
  | dangles {inst : Instance σ} {t : σ.State} (hi : w.instances.get? i = some inst)
      (ht : m.config.target? inst.state.value a = some t) (hc : m.config.contains t = false) :
      Dispatches m w i caller a p stack
        ⟨w, .ended (.error (.unknownTarget (σ.stateName inst.state.value) (σ.actionName a)
          (σ.stateName t))), stack⟩

theorem dispatch_cases {caller : Caller} {a : σ.Action} {p : Option σ.Payload}
    (h : w.dispatch m i caller a p stack = some r) : w.Dispatches m i caller a p stack r := by
  simp only [dispatch, Option.bind_eq_bind, Option.bind_eq_some_iff] at h
  obtain ⟨inst, hi, h⟩ := h
  split at h
  · next ht =>
    obtain rfl := Option.some.inj h
    exact .ignored hi ht
  · next t ht =>
    split at h
    · next hc => exact .departs hi ht hc h
    · next hc =>
      obtain rfl := Option.some.inj h
      exact .dangles hi ht (by simpa using hc)

theorem change_eq_some {t : σ.State} {a : σ.Action} {p : Option σ.Payload}
    (h : w.change i t a p stack = some r) : ∃ inst, w.instances.get? i = some inst ∧
      r = ⟨(w.record (.wrote i inst.state.value t a p)).modifyInstance i
          fun inst => { inst with state := inst.state.write t }, .ended .done,
        .notifying (inst.state.observers.map fun o => (Notice.state i o.1 t, o.2 t)) ::
          .entering i (.action a) p :: stack⟩ := by
  simp only [change, Option.bind_eq_bind, Option.bind_eq_some_iff] at h
  obtain ⟨inst, hi, h⟩ := h
  exact ⟨inst, hi, (Option.some.inj h).symm⟩

/-! ### Entry -/

/-- What the entry into the current state of instance `i` comes to. -/
inductive Enters (m : Machine σ) (w : World σ) (i : InstanceId) (tr : Trigger σ.Action)
    (p : Option σ.Payload) (stack : List (Frame σ)) : Run σ → Prop
  | bare {inst : Instance σ} (hi : w.instances.get? i = some inst)
      (he : m.config.effect? inst.state.value = none) :
      Enters m w i tr p stack
        ⟨w.record (.entered i inst.state.value tr p), .ended .done, stack⟩
  | starts {inst : Instance σ} {c : Code σ} (hi : w.instances.get? i = some inst)
      (he : m.config.effect? inst.state.value = some c) (ha : inst.active = none) :
      Enters m w i tr p stack ⟨w.begin i inst.state.value tr p,
        .code (.environment w.activations.size tr p) c, .body w.activations.size :: stack⟩
  | displaces {inst : Instance σ} {c : Code σ} {j : ActivationId}
      (hi : w.instances.get? i = some inst) (he : m.config.effect? inst.state.value = some c)
      (ha : inst.active = some j) :
      Enters m w i tr p stack ⟨(w.record (.displaced j)).begin i inst.state.value tr p,
        .code (.environment w.activations.size tr p) c, .body w.activations.size :: stack⟩

theorem enter_cases {tr : Trigger σ.Action} {p : Option σ.Payload}
    (h : w.enter m i tr p stack = some r) : w.Enters m i tr p stack r := by
  have hfound := h
  simp only [enter, Option.bind_eq_bind, Option.bind_eq_some_iff] at hfound
  obtain ⟨inst, hi, -⟩ := hfound
  cases he : m.config.effect? inst.state.value with
  | none =>
    rw [enter_bare hi he] at h
    obtain rfl := Option.some.inj h
    exact .bare hi he
  | some c =>
    rw [enter_effect hi he] at h
    obtain rfl := Option.some.inj h
    cases ha : inst.active with
    | none => exact .starts hi he ha
    | some j => exact .displaces hi he ha

/-- What becomes of the cleanup `c` of activation `k`. -/
inductive KeepsCleanup (w : World σ) (k : ActivationId) (c : Code σ) (stack : List (Frame σ)) :
    Run σ → Prop
  | atOnce {a : Activation σ} (hk : w.activations.get? k = some a) (ha : a.signal.aborted = true) :
      KeepsCleanup w k c stack
        ⟨(w.record (.cleanupGiven k)).record (.cleanupAtOnce k a.state), .code (.handle k) c,
          .settle .done :: stack⟩
  | forgone {a : Activation σ} {inst : Instance σ} (hk : w.activations.get? k = some a)
      (ha : a.signal.aborted = false) (hi : w.instances.get? a.owner = some inst)
      (hn : inst.active = none) :
      KeepsCleanup w k c stack ⟨w.record (.cleanupGiven k), .ended .done, stack⟩
  | kept {a : Activation σ} {inst : Instance σ} {j : ActivationId}
      (hk : w.activations.get? k = some a) (ha : a.signal.aborted = false)
      (hi : w.instances.get? a.owner = some inst) (hj : inst.active = some j) :
      KeepsCleanup w k c stack ⟨(w.record (.cleanupGiven k)).modifyActivation j
        fun b => { b with cleanup := some ⟨k, c⟩ }, .ended .done, stack⟩

theorem keepCleanup_cases {c : Code σ} (h : w.keepCleanup k c stack = some r) :
    w.KeepsCleanup k c stack r := by
  simp only [keepCleanup, Option.bind_eq_bind, Option.bind_eq_some_iff] at h
  obtain ⟨a, hk, h⟩ := h
  split at h
  · next ha =>
    obtain rfl := Option.some.inj h
    exact .atOnce hk ha
  · next ha =>
    obtain ⟨inst, hi, h⟩ := Option.bind_eq_some_iff.1 h
    obtain rfl := Option.some.inj h
    have ha : a.signal.aborted = false := by simpa using ha
    cases hj : inst.active with
    | none => exact .forgone hk ha hi hj
    | some j => exact .kept hk ha hi hj

/-- What comes of an ending of the body of activation `k`. -/
inductive Concludes (w : World σ) (k : ActivationId) (stack : List (Frame σ)) :
    Ending σ → Run σ → Prop
  | error (e : MachineError) :
      Concludes w k stack (.error e) ⟨w.closeWindow k, .ended (.error e), stack⟩
  | done : Concludes w k stack .done ⟨w.closeWindow k, .ended .done, stack⟩
  | cleanup {c : Code σ} {r : Run σ} (h : (w.closeWindow k).keepCleanup k c stack = some r) :
      Concludes w k stack (.ok (.cleanup c)) r
  | pending (f : Future σ) :
      Concludes w k stack (.ok (.pending f))
        ⟨w.record (.polled k), .future .entry k (.ready f), stack⟩

theorem conclude_cases {e : Ending σ} (h : w.conclude k e stack = some r) :
    w.Concludes k stack e r := by
  unfold conclude at h
  split at h
  · obtain rfl := Option.some.inj h
    exact .error _
  · obtain rfl := Option.some.inj h
    exact .done
  · exact .cleanup h
  · obtain rfl := Option.some.inj h
    exact .pending _

/-! ### Operations on an activation -/

/-- What becomes of a new context. -/
inductive SetsContext (w : World σ) (t : Target σ) (c : σ.Context) (next : Code σ)
    (stack : List (Frame σ)) : Run σ → Prop
  | bare (ht : t.activation? = none) : SetsContext w t c next stack (w.goOn t next stack)
  | expired {k : ActivationId} {a : Activation σ} (ht : t.activation? = some k)
      (hk : w.activations.get? k = some a) (ha : a.signal.aborted = true) :
      SetsContext w t c next stack ((w.record (.contextExpired k a.state)).goOn t next stack)
  | late {k : ActivationId} {a : Activation σ} (ht : t.activation? = some k)
      (hk : w.activations.get? k = some a) (ha : a.signal.aborted = false)
      (ho : a.windowOpen = false) :
      SetsContext w t c next stack ((w.record (.contextLate k a.state)).goOn t next stack)
  | written {k : ActivationId} {a : Activation σ} {inst : Instance σ}
      (ht : t.activation? = some k) (hk : w.activations.get? k = some a)
      (ha : a.signal.aborted = false) (ho : a.windowOpen = true)
      (hi : w.instances.get? a.owner = some inst) :
      SetsContext w t c next stack
        ⟨(w.record (.contextSet a.owner k c)).modifyInstance a.owner
            fun inst => { inst with context := inst.context.write c }, .ended .done,
          .notifying (inst.context.observers.map fun o =>
            (Notice.context a.owner o.1 c, o.2 c)) :: .resume t (fun _ => next) :: stack⟩

theorem setContext_cases {t : Target σ} {c : σ.Context} {next : Code σ}
    (h : w.setContext t c next stack = some r) : w.SetsContext t c next stack r := by
  unfold setContext at h
  split at h
  · next ht =>
    obtain rfl := Option.some.inj h
    exact .bare ht
  · next k ht =>
    simp only [Option.bind_eq_bind, Option.bind_eq_some_iff] at h
    obtain ⟨a, hk, h⟩ := h
    split at h
    · next ha =>
      obtain rfl := Option.some.inj h
      exact .expired ht hk ha
    · next ha =>
      have ha : a.signal.aborted = false := by simpa using ha
      split at h
      · next ho =>
        obtain rfl := Option.some.inj h
        exact .late ht hk ha (by simpa using ho)
      · next ho =>
        obtain ⟨inst, hi, h⟩ := Option.bind_eq_some_iff.1 h
        obtain rfl := Option.some.inj h
        exact .written ht hk ha (by simpa using ho) hi

/-- What becomes of an action that is dispatched through an activation. -/
inductive Forwards (m : Machine σ) (w : World σ) (t : Target σ) (a : σ.Action)
    (p : Option σ.Payload) (next : Reply → Code σ) (stack : List (Frame σ)) : Run σ → Prop
  | bare (ht : t.activation? = none) : Forwards m w t a p next stack (w.goOn t (next none) stack)
  | expired {k : ActivationId} {b : Activation σ} (ht : t.activation? = some k)
      (hk : w.activations.get? k = some b) (hb : b.signal.aborted = true) :
      Forwards m w t a p next stack
        ((w.record (.dispatchExpired k b.state a)).goOn t (next (some (.ok ()))) stack)
  | orphaned {k : ActivationId} {b : Activation σ} (ht : t.activation? = some k)
      (hk : w.activations.get? k = some b) (hb : b.signal.aborted = false)
      (ho : alive w stack b.owner = false) :
      Forwards m w t a p next stack
        ((w.record (.dispatchOrphaned k b.state a)).goOn t (next (some (.ok ()))) stack)
  | dispatched {k : ActivationId} {b : Activation σ} {r : Run σ} (ht : t.activation? = some k)
      (hk : w.activations.get? k = some b) (hb : b.signal.aborted = false)
      (ho : alive w stack b.owner = true)
      (h : w.dispatch m b.owner (.handle k) a p (.pinning b.owner :: .resume t next :: stack) =
        some r) :
      Forwards m w t a p next stack r

theorem forward_cases {t : Target σ} {a : σ.Action} {p : Option σ.Payload}
    {next : Reply → Code σ} (h : w.forward m t a p next stack = some r) :
    w.Forwards m t a p next stack r := by
  unfold forward at h
  split at h
  · next ht =>
    obtain rfl := Option.some.inj h
    exact .bare ht
  · next k ht =>
    simp only [Option.bind_eq_bind, Option.bind_eq_some_iff] at h
    obtain ⟨b, hk, h⟩ := h
    split at h
    · next hb =>
      obtain rfl := Option.some.inj h
      exact .expired ht hk hb
    · next hb =>
      have hb : b.signal.aborted = false := by simpa using hb
      split at h
      · next ho =>
        obtain rfl := Option.some.inj h
        exact .orphaned ht hk hb (by simpa using ho)
      · next ho => exact .dispatched ht hk hb (by simpa using ho) h

/-! ### Operations on slots -/

/-- What comes of a new instance for a slot. -/
inductive Stores (w : World σ) (slot : String) (i : InstanceId) (stack : List (Frame σ)) :
    Run σ → Prop
  | empty (hs : w.slots.get? slot = none) :
      Stores w slot i stack ⟨{ w with slots := w.slots.insert slot i }, .ended .done, stack⟩
  | replaces {j : InstanceId} {r : Run σ} (hs : w.slots.get? slot = some j)
      (h : { w with slots := w.slots.insert slot i }.release j .done stack = some r) :
      Stores w slot i stack r

theorem store_cases {slot : String} (h : w.store slot i stack = some r) :
    w.Stores slot i stack r := by
  unfold store at h
  dsimp only at h
  split at h
  · next hs =>
    obtain rfl := Option.some.inj h
    exact .empty hs
  · next j hs => exact .replaces hs h

end Statechart.World

namespace Statechart

variable {σ : Signature}

/-- Whether an operation is about a subscription. -/
def Code.subscribes : Code σ → Bool
  | .watchState .. | .watchContext .. | .unwatch .. => true
  | _ => false

namespace World

variable {m : Machine σ} {w : World σ} {stack : List (Frame σ)} {r : Run σ} {k : ActivationId}

/-- What an operation of the code that runs on `t` comes to. -/
inductive Performs (m : Machine σ) (w : World σ) (t : Target σ) (stack : List (Frame σ)) :
    Code σ → Run σ → Prop
  | finish (o : Outcome σ) : Performs m w t stack (.finish o) ⟨w, .ended (.ok o), stack⟩
  | raise (e : MachineError) : Performs m w t stack (.raise e) ⟨w, .ended (.error e), stack⟩
  | emit (n : σ.Note) (next : Code σ) :
      Performs m w t stack (.emit n next) ((w.record (.note n)).goOn t next stack)
  /-- The operation only looks, or what it is about is not there. -/
  | idle {c : Code σ} (hc : c.subscribes = false) (t' : Target σ) (next : Code σ) :
      Performs m w t stack c (w.goOn t' next stack)
  | setContext {c : σ.Context} {next : Code σ} {r : Run σ}
      (h : w.setContext t c next stack = some r) : Performs m w t stack (.setContext c next) r
  | dispatch {a : σ.Action} {p : Option σ.Payload} {next : Reply → Code σ} {r : Run σ}
      (h : w.forward m t a p next stack = some r) : Performs m w t stack (.dispatch a p next) r
  | onAbort (observer next : Code σ) :
      Performs m w t stack (.onAbort observer next) (w.onAbort t observer next stack)
  | clearAbort {k : ActivationId} (ht : t.activation? = some k) (next : Code σ) :
      Performs m w t stack (.clearAbort next) ((w.modifyActivation k fun a =>
        { a with signal := a.signal.clearObserver }).goOn t next stack)
  | keep {k : ActivationId} (ht : t.activation? = some k) (name : String) (next : Code σ) :
      Performs m w t stack (.keep name next)
        ({ w with handles := w.handles.insert name k }.goOn t next stack)
  | within {name : String} {k : ActivationId} (hn : w.handles.get? name = some k) (body : Code σ)
      (next : Reply → Code σ) :
      Performs m w t stack (.within name body next)
        ⟨w, .code (.handle k) body, .resume t next :: stack⟩
  | unheld {slot : String} (hs : w.slots.get? slot = none) (body : Code σ)
      (next : Reply → Code σ) :
      Performs m w t stack (.holding slot body next) ⟨w, .code .bare body, .resume t next :: stack⟩
  | holding {slot : String} {i : InstanceId} (hs : w.slots.get? slot = some i) (body : Code σ)
      (next : Reply → Code σ) :
      Performs m w t stack (.holding slot body next)
        ⟨w, .code .bare body, .owning i :: .resume t next :: stack⟩
  | place (slot : String) (o : Origin σ) (next : Reply → Code σ) :
      Performs m w t stack (.place slot o next) (w.place m t slot o next stack)
  | send {slot : String} {i : InstanceId} {a : σ.Action} {p : Option σ.Payload}
      {next : Reply → Code σ} {r : Run σ} (hs : w.slots.get? slot = some i)
      (h : w.dispatch m i .owner a p (.owning i :: .resume t next :: stack) = some r) :
      Performs m w t stack (.send slot a p next) r
  | drop {slot : String} {i : InstanceId} {next : Bool → Code σ} {r : Run σ}
      (hs : w.slots.get? slot = some i)
      (h : { w with slots := w.slots.erase slot }.release i .done
        (.resume t (fun _ => next true) :: stack) = some r) :
      Performs m w t stack (.drop slot next) r
  | stateUnwatched {slot : String} (hs : w.slots.get? slot = none) (name : String)
      (observer : σ.State → Code σ) (next : Bool → Code σ) :
      Performs m w t stack (.watchState slot name observer next) (w.goOn t (next false) stack)
  | watchState {slot : String} {i : InstanceId} (hs : w.slots.get? slot = some i) (name : String)
      (observer : σ.State → Code σ) (next : Bool → Code σ) :
      Performs m w t stack (.watchState slot name observer next)
        ((w.watchState i name observer).goOn t (next true) stack)
  | contextUnwatched {slot : String} (hs : w.slots.get? slot = none) (name : String)
      (observer : σ.Context → Code σ) (next : Bool → Code σ) :
      Performs m w t stack (.watchContext slot name observer next) (w.goOn t (next false) stack)
  | watchContext {slot : String} {i : InstanceId} (hs : w.slots.get? slot = some i) (name : String)
      (observer : σ.Context → Code σ) (next : Bool → Code σ) :
      Performs m w t stack (.watchContext slot name observer next)
        ((w.watchContext i name observer).goOn t (next true) stack)
  /-- There is no such slot, or no such name. -/
  | unknown {slot name : String}
      (hn : ∀ i id, w.slots.get? slot = some i → w.subscriptions.get? name ≠ some id)
      (next : Option Bool → Code σ) :
      Performs m w t stack (.unwatch slot name next) (w.goOn t (next none) stack)
  | unwatch {slot name : String} {i : InstanceId} {id : SubscriptionId}
      (hs : w.slots.get? slot = some i) (hn : w.subscriptions.get? name = some id)
      (next : Option Bool → Code σ) :
      Performs m w t stack (.unwatch slot name next)
        ((w.unwatch i id).2.goOn t (next (some (w.unwatch i id).1)) stack)

theorem perform_cases {t : Target σ} {c : Code σ} (h : w.perform m t stack c = some r) :
    w.Performs m t stack c r := by
  cases c with
  | finish o =>
    obtain rfl := Option.some.inj h
    exact .finish o
  | raise e =>
    obtain rfl := Option.some.inj h
    exact .raise e
  | emit n next =>
    obtain rfl := Option.some.inj h
    exact .emit n next
  | look | peek =>
    obtain rfl := Option.some.inj h
    exact .idle rfl _ _
  | setContext c next => exact .setContext h
  | dispatch a p next => exact .dispatch h
  | takePayload next =>
    cases t <;>
    · obtain rfl := Option.some.inj h
      exact .idle rfl _ _
  | onAbort observer next =>
    obtain rfl := Option.some.inj h
    exact .onAbort observer next
  | place slot o next =>
    obtain rfl := Option.some.inj h
    exact .place slot o next
  | clearAbort next =>
    simp only [perform] at h
    split at h
    · obtain rfl := Option.some.inj h
      exact .idle rfl _ _
    · next ht =>
      obtain rfl := Option.some.inj h
      exact .clearAbort ht next
  | keep name next =>
    simp only [perform] at h
    split at h
    · obtain rfl := Option.some.inj h
      exact .idle rfl _ _
    · next ht =>
      obtain rfl := Option.some.inj h
      exact .keep ht name next
  | within name body next =>
    simp only [perform] at h
    split at h
    · obtain rfl := Option.some.inj h
      exact .idle rfl _ _
    · next hn =>
      obtain rfl := Option.some.inj h
      exact .within hn body next
  | holding slot body next =>
    simp only [perform] at h
    split at h
    · next hs =>
      obtain rfl := Option.some.inj h
      exact .unheld hs body next
    · next hs =>
      obtain rfl := Option.some.inj h
      exact .holding hs body next
  | send slot a p next =>
    simp only [perform] at h
    split at h
    · obtain rfl := Option.some.inj h
      exact .idle rfl _ _
    · next hs => exact .send hs h
  | drop slot next =>
    simp only [perform] at h
    split at h
    · obtain rfl := Option.some.inj h
      exact .idle rfl _ _
    · next hs => exact .drop hs h
  | watchState slot name observer next =>
    simp only [perform] at h
    split at h
    · next hs =>
      obtain rfl := Option.some.inj h
      exact .stateUnwatched hs name observer next
    · next hs =>
      obtain rfl := Option.some.inj h
      exact .watchState hs name observer next
  | watchContext slot name observer next =>
    simp only [perform] at h
    split at h
    · next hs =>
      obtain rfl := Option.some.inj h
      exact .contextUnwatched hs name observer next
    · next hs =>
      obtain rfl := Option.some.inj h
      exact .watchContext hs name observer next
  | unwatch slot name next =>
    simp only [perform] at h
    split at h
    · next hs hn =>
      obtain rfl := Option.some.inj h
      exact .unwatch hs hn next
    · next hn =>
      obtain rfl := Option.some.inj h
      exact .unknown (fun i id hs hid => hn i id hs hid) next

/-! ### Polls -/

/-- What comes of letting go of the future of `k`. -/
inductive LetsGo (m : Machine σ) (w : World σ) (k : ActivationId) (stack : List (Frame σ)) :
    Option (Code σ) → Run σ → Prop
  | gone (hs : m.spawner ≠ some .shutdown) : LetsGo m w k stack none ⟨w, .ended .done, stack⟩
  | refused (hs : m.spawner = some .shutdown) :
      LetsGo m w k stack none ⟨w.record (.refused k), .ended .done, stack⟩
  | drops (c : Code σ) :
      LetsGo m w k stack (some c) ⟨w, .code (.handle k) c, .dropping k :: stack⟩

theorem forget_of_ne (w : World σ) (hs : m.spawner ≠ some .shutdown) (k : ActivationId) :
    w.forget m k = w := by
  unfold forget
  split
  · next h => exact absurd h hs
  · rfl

theorem forget_of_shutdown (w : World σ) (hs : m.spawner = some .shutdown) (k : ActivationId) :
    w.forget m k = w.record (.refused k) := by
  simp only [forget, hs]

theorem letGo_cases (m : Machine σ) (w : World σ) (k : ActivationId) (last : Option (Code σ))
    (stack : List (Frame σ)) : w.LetsGo m k stack last (w.letGo m k last stack) := by
  cases last with
  | some c => exact .drops c
  | none =>
    by_cases hs : m.spawner = some .shutdown
    · rw [letGo, forget_of_shutdown w hs]
      exact .refused hs
    · rw [letGo, forget_of_ne w hs]
      exact .gone hs

/-- What becomes of the future of `k`, which its first poll has left at `p`. -/
inductive Spawns (m : Machine σ) (w : World σ) (k : ActivationId) (p : Progress σ)
    (last : Option (Code σ)) (stack : List (Frame σ)) : Run σ → Prop
  | missing {a : Activation σ} {r : Run σ} (hk : w.activations.get? k = some a)
      (hs : m.spawner = none) (h : (w.record (.noSpawner k a.state)).LetsGo m k stack last r) :
      Spawns m w k p last stack r
  | queued (hs : m.spawner = some .queue ∨ m.spawner = some .pool) :
      Spawns m w k p last stack ⟨(w.record (.spawned k)).addTask k p, .ended .done, stack⟩
  | polled (hs : m.spawner = some .eager) :
      Spawns m w k p last stack
        ⟨(w.record (.spawned k)).record (.polled k), .future .spawner k p, stack⟩
  | dropped {r : Run σ} (hs : m.spawner = some .discard ∨ m.spawner = some .shutdown)
      (h : (w.record (.spawned k)).LetsGo m k stack last r) : Spawns m w k p last stack r

theorem spawn_cases {p : Progress σ} {last : Option (Code σ)}
    (h : w.spawn m k p last stack = some r) : w.Spawns m k p last stack r := by
  simp only [spawn, Option.bind_eq_bind, Option.bind_eq_some_iff] at h
  obtain ⟨a, hk, h⟩ := h
  split at h <;> obtain rfl := Option.some.inj h
  case h_1 hs => exact .missing hk hs (letGo_cases ..)
  case h_2 hs => exact .queued (.inl hs)
  case h_3 hs => exact .queued (.inr hs)
  case h_4 hs => exact .polled hs
  case h_5 hs => exact .dropped (.inl hs) (letGo_cases ..)
  case h_6 hs => exact .dropped (.inr hs) (letGo_cases ..)

/-- The world after the last poll of the future of `k`. -/
def endPoll (w : World σ) (poller : Poller) (k : ActivationId) : World σ :=
  match poller with
  | .entry => w.closeWindow k
  | .spawner => w
  | .executor t => w.setProgress t none

theorem finish_eq_some {poller : Poller} {b : Bool} (h : w.finish poller k b stack = some r) :
    ∃ a, w.activations.get? k = some a ∧
      r = ⟨if b then (w.endPoll poller k).record (.cleanupIgnored k a.state)
        else w.endPoll poller k, .ended .done, stack⟩ := by
  simp only [finish, Option.bind_eq_bind, Option.bind_eq_some_iff] at h
  obtain ⟨a, hk, h⟩ := h
  exact ⟨a, hk, (Option.some.inj h).symm⟩

/-- What a step of the future of `k` comes to. -/
inductive Advances (m : Machine σ) (w : World σ) (poller : Poller) (k : ActivationId)
    (stack : List (Frame σ)) : Progress σ → Run σ → Prop
  /-- The future goes on at once; if it has waited for a signal, this one has fired. -/
  | goOn {p : Progress σ} (hp : ∀ j next last, p = .awaiting j next last → w.aborted j = true)
      (p' : Progress σ) : Advances m w poller k stack p ⟨w, .future poller k p', stack⟩
  | act (c : Code σ) (next : Except MachineError Unit → Future σ) :
      Advances m w poller k stack (.ready (.act c next))
        ⟨w, .code (.handle k) c, .acting poller k next :: stack⟩
  | finish {p : Progress σ} {b : Bool} {r : Run σ} (hp : ∀ j next last, p ≠ .awaiting j next last)
      (h : w.finish poller k b stack = some r) : Advances m w poller k stack p r
  | yield {next : Future σ} {last : Option (Code σ)} {r : Run σ}
      (h : (w.fireWaker poller.waker).suspend m poller k (.ready next) last stack = some r) :
      Advances m w poller k stack (.ready (.yield next last)) r
  /-- The future is never going to finish. -/
  | stall {p : Progress σ} {last : Option (Code σ)} {r : Run σ}
      (hp : ∀ j next last, p ≠ .awaiting j next last)
      (h : w.suspend m poller k .stalled last stack = some r) : Advances m w poller k stack p r
  /-- The future waits for a signal that has not fired. -/
  | wait {j : ActivationId} {next : Future σ} {last : Option (Code σ)} {r : Run σ}
      (ha : w.aborted j = false)
      (h : (w.modifyActivation j fun a => { a with signal := a.signal.register poller.waker
        }).suspend m poller k (.awaiting j next last) last stack = some r) :
      Advances m w poller k stack (.awaiting j next last) r

theorem advance_cases {poller : Poller} {p : Progress σ}
    (h : w.advance m poller k stack p = some r) : w.Advances m poller k stack p r := by
  cases p with
  | stalled => exact .stall nofun h
  | awaiting j next last =>
    simp only [advance] at h
    split at h
    · next ha =>
      obtain rfl := Option.some.inj h
      refine .goOn ?_ _
      rintro _ _ _ ⟨⟩
      exact ha
    · next ha => exact .wait (by simpa using ha) h
  | ready f =>
    cases f with
    | resolved => exact .finish nofun h
    | resolvedWith c => exact .finish nofun h
    | act c next =>
      obtain rfl := Option.some.inj h
      exact .act c next
    | yield next last => exact .yield h
    | never last => exact .stall nofun h
    | awaitAbort name next last =>
      cases name with
      | none =>
        obtain rfl := Option.some.inj h
        exact .goOn (by simp) _
      | some name =>
        simp only [advance] at h
        split at h <;>
        · obtain rfl := Option.some.inj h
          exact .goOn (by simp) _

/-! ### Frames -/

/-- What the topmost frame does with an ending. -/
inductive Proceeds (m : Machine σ) (w : World σ) (e : Ending σ) (stack : List (Frame σ)) :
    Frame σ → Run σ → Prop
  | resume (t : Target σ) (next : Reply → Code σ) :
      Proceeds m w e stack (.resume t next) (w.goOn t (next (some e.reply)) stack)
  | owning {i : InstanceId} {r : Run σ} (h : w.release i e stack = some r) :
      Proceeds m w e stack (.owning i) r
  | pinning (i : InstanceId) : Proceeds m w e stack (.pinning i) ⟨w, .ended e, stack⟩
  | farewell (i : InstanceId) (e' : Ending σ) :
      Proceeds m w e stack (.farewell i e') ⟨w, .ended e', stack⟩
  | settle (e' : Ending σ) : Proceeds m w e stack (.settle e') ⟨w, .ended e', stack⟩
  | exited (k : ActivationId) (wakers : List Waker) :
      Proceeds m w e stack (.exiting k wakers none)
        ⟨wakers.foldl fireWaker w, .ended .done, stack⟩
  | cleanup (k : ActivationId) (wakers : List Waker) (c : Cleanup σ) :
      Proceeds m w e stack (.exiting k wakers (some c))
        ⟨(wakers.foldl fireWaker w).record (.cleanupRun c.author k),
          .code (.handle c.author) c.code, stack⟩
  | changing {i : InstanceId} {t : σ.State} {a : σ.Action} {p : Option σ.Payload} {r : Run σ}
      (h : w.change i t a p stack = some r) : Proceeds m w e stack (.changing i t a p) r
  | notified : Proceeds m w e stack (.notifying []) ⟨w, .ended .done, stack⟩
  | notifies (n : Notice σ) (call : Code σ) (calls : List (Notice σ × Code σ)) :
      Proceeds m w e stack (.notifying ((n, call) :: calls))
        ⟨w.record n.event, .code .bare call, .notifying calls :: stack⟩
  | entering {i : InstanceId} {tr : Trigger σ.Action} {p : Option σ.Payload} {r : Run σ}
      (h : w.enter m i tr p stack = some r) : Proceeds m w e stack (.entering i tr p) r
  | body {k : ActivationId} {r : Run σ} (h : w.conclude k e stack = some r) :
      Proceeds m w e stack (.body k) r
  | dropped (hs : m.spawner ≠ some .shutdown) (k : ActivationId) :
      Proceeds m w e stack (.dropping k) ⟨w, .ended .done, stack⟩
  | refused (hs : m.spawner = some .shutdown) (k : ActivationId) :
      Proceeds m w e stack (.dropping k) ⟨w.record (.refused k), .ended .done, stack⟩
  | acting (poller : Poller) (k : ActivationId) (next : Except MachineError Unit → Future σ) :
      Proceeds m w e stack (.acting poller k next)
        ⟨w, .future poller k (.ready (next e.reply)), stack⟩
  | stores {i : InstanceId} {slot : String} {o : Outcome σ} {r : Run σ} (he : e = .ok o)
      (h : w.store slot i stack = some r) : Proceeds m w e stack (.placing i slot) r
  | rejects {i : InstanceId} {slot : String} {x : MachineError} {r : Run σ} (he : e = .error x)
      (h : w.release i e stack = some r) : Proceeds m w e stack (.placing i slot) r

theorem proceed_cases {e : Ending σ} {f : Frame σ} (h : w.proceed m e stack f = some r) :
    w.Proceeds m e stack f r := by
  cases f with
  | resume t next =>
    obtain rfl := Option.some.inj h
    exact .resume t next
  | owning i => exact .owning h
  | pinning i =>
    obtain rfl := Option.some.inj h
    exact .pinning i
  | farewell i e' =>
    obtain rfl := Option.some.inj h
    exact .farewell i e'
  | settle e' =>
    obtain rfl := Option.some.inj h
    exact .settle e'
  | exiting k wakers cleanup =>
    cases cleanup with
    | none =>
      obtain rfl := Option.some.inj h
      exact .exited k wakers
    | some c =>
      obtain rfl := Option.some.inj h
      exact .cleanup k wakers c
  | changing i t a p => exact .changing h
  | notifying calls =>
    cases calls with
    | nil =>
      obtain rfl := Option.some.inj h
      exact .notified
    | cons c calls =>
      obtain rfl := Option.some.inj h
      exact .notifies c.1 c.2 calls
  | entering i tr p => exact .entering h
  | body k => exact .body h
  | dropping k =>
    obtain rfl := Option.some.inj h
    by_cases hs : m.spawner = some .shutdown
    · rw [forget_of_shutdown w hs]
      exact .refused hs k
    · rw [forget_of_ne w hs]
      exact .dropped hs k
  | acting poller k next =>
    obtain rfl := Option.some.inj h
    exact .acting poller k next
  | placing i slot =>
    cases e with
    | ok o => exact .stores rfl h
    | error x => exact .rejects rfl h

end World

end Statechart
