import Statechart.Proofs.Resume.Lockstep
import Statechart.Proofs.Run.Deed

/-!
Two runs that go in step within a margin. Instances, activations, slots, handles and subscriptions
are the same on either side; the journals may differ, the tasks of the executor, and what waits on
the stacks, as far as nobody looks at it. Every function of the library stays within the margin, as
long as the events that it records and the frames that it leaves are such as the margin admits.
-/

namespace Statechart

variable {σ : Signature}

/-- Whether an event belongs to the polls of futures, and to what becomes of them. -/
def Event.polling : Event σ → Bool
  | polled _ | spawned _ | noSpawner .. | refused _ => true
  | _ => false

/-- Whether an event is one of those that two runs may have apart: an event of polls, or the start
of an activation. -/
def Event.guarded : Event σ → Bool
  | started .. => true
  | e => e.polling

/-- Whether a frame belongs to an effect body, or to the first poll of a future. -/
def Frame.isEntry : Frame σ → Bool
  | .body _ | .acting .entry .. => true
  | _ => false

/-- Whether a poll leaves a future unfinished that has come to this. -/
def Progress.waits (w : World σ) : Progress σ → Bool
  | .ready (.yield ..) | .ready (.never _) | .stalled => true
  | .awaiting k .. => !w.aborted k
  | .ready _ => false

/-- The destructors of what a future owns that a poll is about to leave unfinished. -/
def Progress.last? : Progress σ → Option (Code σ)
  | .ready (.yield _ last) | .ready (.never last) | .awaiting _ _ last => last
  | _ => none

/-- How far two runs may be apart. -/
structure Margin (σ : Signature) where
  /-- The journals that may stand beside each other. -/
  journals : List (Event σ) → List (Event σ) → Prop
  /-- The events that may be recorded on both sides. -/
  admits : Event σ → Prop
  /-- The stacks that may stand beside each other. -/
  frames : List (Frame σ) → List (Frame σ) → Prop
  /-- The entries that may be under way on both sides. -/
  bears : Frame σ → Prop
  /-- Whether the executors are the same. -/
  executor : Prop
  admits_of : ∀ {e}, e.guarded = false → admits e
  bears_of : ∀ {f}, f.isEntry = false → bears f
  record : ∀ {e j j'}, admits e → journals j j' → journals (e :: j) (e :: j')
  push : ∀ {f s s'}, bears f → frames s s' → frames (f :: s) (f :: s')
  owns : ∀ {s s'}, frames s s' → ∀ i, s.any (Frame.owns i) = s'.any (Frame.owns i)
  pins : ∀ {s s'}, frames s s' → ∀ i, s.any (Frame.pins i) = s'.any (Frame.pins i)

/-- Two machines that differ in their effects and in what becomes of futures at most. -/
structure Machine.Kin (m m' : Machine σ) : Prop where
  contains : ∀ s, m'.config.contains s = m.config.contains s
  target? : ∀ s a, m'.config.target? s a = m.config.target? s a
  isFinal : ∀ s, m'.isFinal s = m.isFinal s
  initialState : m'.initialState = m.initialState
  initialContext : m'.initialContext = m.initialContext

theorem Machine.Kin.refl (m : Machine σ) : m.Kin m :=
  ⟨fun _ => rfl, fun _ _ => rfl, fun _ => rfl, rfl, rfl⟩

/-- The world with another past and other tasks. -/
def World.beside (w : World σ) (past : List (Event σ)) (tasks : Roster (Task σ))
    (ready : List TaskId) : World σ :=
  { w with journal := past, tasks := tasks, ready := ready }

namespace Margin

inductive Worlds (M : Margin σ) : World σ → World σ → Prop
  | intro {w : World σ} {past : List (Event σ)} {tasks : Roster (Task σ)} {ready : List TaskId}
      (ht : M.executor → tasks = w.tasks ∧ ready = w.ready) (hj : M.journals w.journal past) :
      Worlds M w (w.beside past tasks ready)

structure Runs (M : Margin σ) (r r' : Run σ) : Prop where
  worlds : M.Worlds r.world r'.world
  control : r.control = r'.control
  stack : M.frames r.stack r'.stack

variable {M : Margin σ} {m m' : Machine σ} {w w' : World σ} {stack stack' : List (Frame σ)}
  {i : InstanceId} {k : ActivationId}

theorem note {e : Event σ} {j j' : List (Event σ)} (h : M.journals j j')
    (he : e.guarded = false) : M.journals (e :: j) (e :: j') :=
  M.record (M.admits_of he) h

theorem leave {f : Frame σ} {s s' : List (Frame σ)} (h : M.frames s s')
    (hf : f.isEntry = false) : M.frames (f :: s) (f :: s') :=
  M.push (M.bears_of hf) h

theorem rel_bind_same {α β γ : Type} {S : β → γ → Prop} (o : Option α) {f : α → Option β}
    {f' : α → Option γ} (hf : ∀ a, o = some a → Option.Rel S (f a) (f' a)) :
    Option.Rel S (o >>= f) (o >>= f') := by
  cases o with
  | none => exact .none
  | some a => exact hf a rfl

namespace Worlds

theorem refl (h : M.journals w.journal w.journal) : M.Worlds w w := .intro (fun _ => ⟨rfl, rfl⟩) h

theorem journal (h : M.Worlds w w') : M.journals w.journal w'.journal := by
  obtain ⟨-, hj⟩ := h
  exact hj

theorem instances_eq (h : M.Worlds w w') : w'.instances = w.instances := by
  obtain ⟨-, -⟩ := h
  rfl

theorem activations_eq (h : M.Worlds w w') : w'.activations = w.activations := by
  obtain ⟨-, -⟩ := h
  rfl

theorem slots_eq (h : M.Worlds w w') : w'.slots = w.slots := by
  obtain ⟨-, -⟩ := h
  rfl

theorem handles_eq (h : M.Worlds w w') : w'.handles = w.handles := by
  obtain ⟨-, -⟩ := h
  rfl

theorem subscriptions_eq (h : M.Worlds w w') : w'.subscriptions = w.subscriptions := by
  obtain ⟨-, -⟩ := h
  rfl

theorem aborted_eq (h : M.Worlds w w') (k : ActivationId) : w'.aborted k = w.aborted k := by
  obtain ⟨-, -⟩ := h
  rfl

theorem owned_eq (h : M.Worlds w w') (hs : M.frames stack stack') (i : InstanceId) :
    owned w' stack' i = owned w stack i := by
  obtain ⟨-, -⟩ := h
  exact congrArg (_ || ·) (M.owns hs i).symm

theorem alive_eq (h : M.Worlds w w') (hs : M.frames stack stack') (i : InstanceId) :
    alive w' stack' i = alive w stack i := by
  obtain ⟨-, -⟩ := h
  exact congrArg (_ || ·) (M.pins hs i).symm

theorem record (h : M.Worlds w w') {e : Event σ} (he : M.admits e) :
    M.Worlds (w.record e) (w'.record e) := by
  obtain ⟨ht, hj⟩ := h
  exact .intro ht (M.record he hj)

/-! ### Exit and transition -/

theorem exit (h : M.Worlds w w') (i : InstanceId) (hs : M.frames stack stack') :
    Option.Rel M.Runs (w.exit i stack) (w'.exit i stack') := by
  obtain ⟨ht, hj⟩ := h
  refine rel_bind_same _ fun inst _ => ?_
  obtain ⟨s, x, act⟩ := inst
  cases act with
  | none => exact .some ⟨.intro ht hj, rfl, hs⟩
  | some k =>
    refine rel_bind_same _ fun a _ => ?_
    dsimp only
    cases a.signal.fired with
    | none => exact .some ⟨.intro ht (note (note hj rfl) rfl), rfl, leave hs rfl⟩
    | some c => exact .some ⟨.intro ht (note (note (note hj rfl) rfl) rfl), rfl, leave hs rfl⟩

theorem release (h : M.Worlds w w') (i : InstanceId) (e : Ending σ) (hs : M.frames stack stack') :
    Option.Rel M.Runs (w.release i e stack) (w'.release i e stack') := by
  unfold World.release
  rw [h.owned_eq hs]
  split
  · exact .some ⟨h, rfl, hs⟩
  · exact (h.record (M.admits_of rfl)).exit i (leave hs rfl)

theorem dispatch (h : M.Worlds w w') (hm : m.Kin m') (i : InstanceId) (caller : Caller)
    (a : σ.Action) (p : Option σ.Payload) (hs : M.frames stack stack') :
    Option.Rel M.Runs (w.dispatch m i caller a p stack) (w'.dispatch m' i caller a p stack') := by
  simp only [World.dispatch, h.instances_eq]
  refine rel_bind_same _ fun inst _ => ?_
  rw [hm.target?]
  cases m.config.target? inst.state.value a with
  | none => exact .some ⟨h.record (M.admits_of rfl), rfl, hs⟩
  | some t =>
    dsimp only
    rw [hm.contains]
    split
    · exact (h.record (M.admits_of rfl)).exit i (leave hs rfl)
    · exact .some ⟨h, rfl, hs⟩

theorem change (h : M.Worlds w w') (i : InstanceId) (t : σ.State) (a : σ.Action)
    (p : Option σ.Payload) (hs : M.frames stack stack') :
    Option.Rel M.Runs (w.change i t a p stack) (w'.change i t a p stack') := by
  obtain ⟨ht, hj⟩ := h
  exact rel_bind_same _ fun inst _ =>
    .some ⟨.intro ht (note hj rfl), rfl, leave (leave hs rfl) rfl⟩

/-! ### Entry -/

theorem enter (h : M.Worlds w w') (i : InstanceId)
    (he : ∀ inst, w.instances.get? i = some inst →
      m'.config.effect? inst.state.value = m.config.effect? inst.state.value)
    (hb : M.bears (.body w.activations.size)) (tr : Trigger σ.Action) (p : Option σ.Payload)
    (hst : ∀ inst, w.instances.get? i = some inst →
      M.admits (.started i w.activations.size inst.state.value tr p))
    (hs : M.frames stack stack') :
    Option.Rel M.Runs (w.enter m i tr p stack) (w'.enter m' i tr p stack') := by
  obtain ⟨ht, hj⟩ := h
  refine rel_bind_same _ fun inst hi => ?_
  have hstarted := hst inst hi
  dsimp only
  rw [he inst hi]
  cases m.config.effect? inst.state.value with
  | none => exact .some ⟨.intro ht (note hj rfl), rfl, hs⟩
  | some c =>
    obtain ⟨s, x, act⟩ := inst
    cases act with
    | none => exact .some ⟨.intro ht (M.record hstarted hj), rfl, M.push hb hs⟩
    | some j => exact .some ⟨.intro ht (M.record hstarted (note hj rfl)), rfl, M.push hb hs⟩

theorem keepCleanup (h : M.Worlds w w') (k : ActivationId) (c : Code σ)
    (hs : M.frames stack stack') :
    Option.Rel M.Runs (w.keepCleanup k c stack) (w'.keepCleanup k c stack') := by
  obtain ⟨ht, hj⟩ := h
  refine rel_bind_same _ fun a _ => ?_
  dsimp only
  split
  · exact .some ⟨.intro ht (note (note hj rfl) rfl), rfl, leave hs rfl⟩
  · refine rel_bind_same _ fun inst _ => ?_
    obtain ⟨s, x, act⟩ := inst
    cases act <;> exact .some ⟨.intro ht (note hj rfl), rfl, hs⟩

theorem closeWindow (h : M.Worlds w w') (k : ActivationId) :
    M.Worlds (w.closeWindow k) (w'.closeWindow k) := by
  obtain ⟨ht, hj⟩ := h
  exact .intro ht hj

theorem conclude (h : M.Worlds w w') (k : ActivationId) (e : Ending σ)
    (hp : ∀ f, e = .ok (.pending f) → M.admits (.polled k)) (hs : M.frames stack stack') :
    Option.Rel M.Runs (w.conclude k e stack) (w'.conclude k e stack') := by
  have hclose := h.closeWindow k
  cases e with
  | error e => exact .some ⟨hclose, rfl, hs⟩
  | ok o =>
    cases o with
    | done => exact .some ⟨hclose, rfl, hs⟩
    | cleanup c => exact hclose.keepCleanup k c hs
    | pending f => exact .some ⟨h.record (hp f rfl), rfl, hs⟩

/-! ### Operations -/

theorem setContext (h : M.Worlds w w') (t : Target σ) (x : σ.Context) (next : Code σ)
    (hs : M.frames stack stack') :
    Option.Rel M.Runs (w.setContext t x next stack) (w'.setContext t x next stack') := by
  obtain ⟨ht, hj⟩ := h
  unfold World.setContext
  split
  · exact .some ⟨.intro ht hj, rfl, hs⟩
  · refine rel_bind_same _ fun a _ => ?_
    split
    · exact .some ⟨.intro ht (note hj rfl), rfl, hs⟩
    · split
      · exact .some ⟨.intro ht (note hj rfl), rfl, hs⟩
      · exact rel_bind_same _ fun inst _ =>
          .some ⟨.intro ht (note hj rfl), rfl, leave (leave hs rfl) rfl⟩

theorem forward (h : M.Worlds w w') (hm : m.Kin m') (t : Target σ) (a : σ.Action)
    (p : Option σ.Payload) (next : Reply → Code σ) (hs : M.frames stack stack') :
    Option.Rel M.Runs (w.forward m t a p next stack) (w'.forward m' t a p next stack') := by
  unfold World.forward
  split
  · exact .some ⟨h, rfl, hs⟩
  · rw [h.activations_eq]
    refine rel_bind_same _ fun b _ => ?_
    rw [h.alive_eq hs]
    split
    · exact .some ⟨h.record (M.admits_of rfl), rfl, hs⟩
    · split
      · exact .some ⟨h.record (M.admits_of rfl), rfl, hs⟩
      · exact h.dispatch hm b.owner _ a p (leave (leave hs rfl) rfl)

theorem onAbort (h : M.Worlds w w') (t : Target σ) (o next : Code σ)
    (hs : M.frames stack stack') :
    M.Runs (w.onAbort t o next stack) (w'.onAbort t o next stack') := by
  unfold World.onAbort
  cases t.activation? with
  | none => exact ⟨h, rfl, hs⟩
  | some k =>
    simp only [h.aborted_eq]
    obtain ⟨ht, hj⟩ := h
    split
    · exact ⟨.intro ht (note hj rfl), rfl, hs⟩
    · exact ⟨.intro ht hj, rfl, hs⟩

theorem start (h : M.Worlds w w') (hm : m.Kin m') (t : Target σ) (slot : String) (s : σ.State)
    (x : σ.Context) (next : Reply → Code σ) (hs : M.frames stack stack') :
    M.Runs (w.start m t slot s x next stack) (w'.start m' t slot s x next stack') := by
  obtain ⟨ht, hj⟩ := h
  unfold World.start
  rw [hm.contains]
  split
  · exact ⟨.intro ht (note hj rfl), rfl, leave (leave (leave hs rfl) rfl) rfl⟩
  · exact ⟨.intro ht hj, rfl, hs⟩

theorem place (h : M.Worlds w w') (hm : m.Kin m') (t : Target σ) (slot : String) (o : Origin σ)
    (next : Reply → Code σ) (hs : M.frames stack stack') :
    M.Runs (w.place m t slot o next stack) (w'.place m' t slot o next stack') := by
  cases o with
  | fresh =>
    simp only [World.place, hm.initialState, hm.initialContext]
    exact h.start hm t slot _ _ next hs
  | recovered s x =>
    simp only [World.place, hm.initialState, hm.initialContext]
    exact h.start hm t slot _ _ next hs
  | resumed s x => exact (h.record (M.admits_of rfl)).start hm t slot s x next hs

theorem store (h : M.Worlds w w') (slot : String) (i : InstanceId) (hs : M.frames stack stack') :
    Option.Rel M.Runs (w.store slot i stack) (w'.store slot i stack') := by
  simp only [World.store, h.slots_eq]
  obtain ⟨ht, hj⟩ := h
  cases w.slots.get? slot with
  | none => exact .some ⟨.intro ht hj, rfl, hs⟩
  | some j => exact release (w := { w with slots := w.slots.insert slot i }) (.intro ht hj) j _ hs

theorem unwatch (h : M.Worlds w w') (i : InstanceId) (id : SubscriptionId) :
    (w.unwatch i id).1 = (w'.unwatch i id).1 ∧
      M.Worlds (w.unwatch i id).2 (w'.unwatch i id).2 := by
  simp only [World.unwatch, h.instances_eq]
  cases w.instances.get? i with
  | none => exact ⟨rfl, h⟩
  | some inst =>
    obtain ⟨ht, hj⟩ := h
    dsimp only
    split
    · exact ⟨rfl, .intro ht hj⟩
    · split <;> exact ⟨rfl, .intro ht hj⟩

theorem perform (h : M.Worlds w w') (hm : m.Kin m') (t : Target σ) (c : Code σ)
    (hs : M.frames stack stack') :
    Option.Rel M.Runs (w.perform m t stack c) (w'.perform m' t stack' c) := by
  cases c with
  | finish o => exact .some ⟨h, rfl, hs⟩
  | raise e => exact .some ⟨h, rfl, hs⟩
  | emit n next => exact .some ⟨h.record (M.admits_of rfl), rfl, hs⟩
  | look next =>
    obtain ⟨ht, hj⟩ := h
    exact .some ⟨.intro ht hj, rfl, hs⟩
  | setContext x next => exact h.setContext t x next hs
  | dispatch a p next => exact h.forward hm t a p next hs
  | takePayload next => cases t <;> exact .some ⟨h, rfl, hs⟩
  | onAbort o next => exact .some (h.onAbort t o next hs)
  | clearAbort next =>
    obtain ⟨ht, hj⟩ := h
    cases t <;> exact .some ⟨.intro ht hj, rfl, hs⟩
  | keep name next =>
    obtain ⟨ht, hj⟩ := h
    cases t <;> exact .some ⟨.intro ht hj, rfl, hs⟩
  | within name body next =>
    simp only [World.perform, h.handles_eq]
    cases w.handles.get? name with
    | none => exact .some ⟨h, rfl, hs⟩
    | some k => exact .some ⟨h, rfl, leave hs rfl⟩
  | holding slot body next =>
    simp only [World.perform, h.slots_eq]
    cases w.slots.get? slot with
    | none => exact .some ⟨h, rfl, leave hs rfl⟩
    | some i => exact .some ⟨h, rfl, leave (leave hs rfl) rfl⟩
  | place slot o next => exact .some (h.place hm t slot o next hs)
  | send slot a p next =>
    simp only [World.perform, h.slots_eq]
    cases w.slots.get? slot with
    | none => exact .some ⟨h, rfl, hs⟩
    | some i => exact h.dispatch hm i _ a p (leave (leave hs rfl) rfl)
  | drop slot next =>
    simp only [World.perform, h.slots_eq]
    obtain ⟨ht, hj⟩ := h
    cases w.slots.get? slot with
    | none => exact .some ⟨.intro ht hj, rfl, hs⟩
    | some i =>
      exact release (w := { w with slots := w.slots.erase slot }) (.intro ht hj) i _ (leave hs rfl)
  | peek slot next =>
    simp only [World.perform, World.peek?, h.slots_eq, h.instances_eq, hm.isFinal]
    exact .some ⟨h, rfl, hs⟩
  | watchState slot name observer next =>
    simp only [World.perform, h.slots_eq]
    obtain ⟨ht, hj⟩ := h
    cases w.slots.get? slot <;> exact .some ⟨.intro ht hj, rfl, hs⟩
  | watchContext slot name observer next =>
    simp only [World.perform, h.slots_eq]
    obtain ⟨ht, hj⟩ := h
    cases w.slots.get? slot <;> exact .some ⟨.intro ht hj, rfl, hs⟩
  | unwatch slot name next =>
    simp only [World.perform, h.slots_eq, h.subscriptions_eq]
    cases w.slots.get? slot with
    | none => exact .some ⟨h, rfl, hs⟩
    | some i =>
      cases w.subscriptions.get? name with
      | none => exact .some ⟨h, rfl, hs⟩
      | some id =>
        obtain ⟨hfound, hw⟩ := h.unwatch i id
        dsimp only
        rw [← hfound]
        exact .some ⟨hw, rfl, hs⟩

/-! ### Polls -/

theorem wake (h : M.Worlds w w') (t : TaskId) : M.Worlds (w.wake t) (w'.wake t) := by
  obtain ⟨ht, hj⟩ := h
  rename_i past tasks ready
  by_cases hx : M.executor
  · obtain ⟨rfl, rfl⟩ := ht hx
    unfold World.wake
    change M.Worlds (if (w.ready.contains t || w.finished t) = true then _ else _)
      (if (w.ready.contains t || w.finished t) = true then _ else _)
    split <;> exact .intro (fun _ => ⟨rfl, rfl⟩) (note hj rfl)
  · unfold World.wake
    split <;> split <;> exact .intro (fun h => absurd h hx) (note hj rfl)

theorem fireWaker (h : M.Worlds w w') (x : Waker) :
    M.Worlds (w.fireWaker x) (w'.fireWaker x) := by
  cases x with
  | idle => exact h
  | task t => exact h.wake t

theorem fireWakers (h : M.Worlds w w') (xs : List Waker) :
    M.Worlds (xs.foldl World.fireWaker w) (xs.foldl World.fireWaker w') := by
  induction xs generalizing w w' with
  | nil => exact h
  | cons x xs ih => exact ih (h.fireWaker x)

theorem addTask (h : M.Worlds w w') (k : ActivationId) (q : Progress σ) :
    M.Worlds (w.addTask k q) (w'.addTask k q) := by
  obtain ⟨ht, hj⟩ := h
  refine .intro (fun hx => ?_) hj
  obtain ⟨rfl, rfl⟩ := ht hx
  exact ⟨rfl, rfl⟩

theorem setProgress (h : M.Worlds w w') (t : TaskId) (q : Option (Progress σ)) :
    M.Worlds (w.setProgress t q) (w'.setProgress t q) := by
  obtain ⟨ht, hj⟩ := h
  refine .intro (fun hx => ?_) hj
  obtain ⟨rfl, rfl⟩ := ht hx
  exact ⟨rfl, rfl⟩

variable {poller : Poller} {q : Progress σ} {last : Option (Code σ)}

/-- What becomes of the world when the future of `k` is gone, on either side. -/
abbrev Forgets (M : Margin σ) (m m' : Machine σ) (k : ActivationId) : Prop :=
  ∀ {w w'}, M.Worlds w w' → M.Worlds (w.forget m k) (w'.forget m' k)

/-- Two machines with the same spawner report the same of a future that is gone. -/
theorem forgets (hsp : m'.spawner = m.spawner) (ha : M.admits (.refused k)) :
    Forgets M m m' k := by
  intro w w' h
  unfold World.forget
  rw [hsp]
  split
  · exact h.record ha
  · exact h

theorem letGo (h : M.Worlds w w') (hf : Forgets M m m' k) (last : Option (Code σ))
    (hs : M.frames stack stack') :
    M.Runs (w.letGo m k last stack) (w'.letGo m' k last stack') := by
  cases last with
  | none => exact ⟨hf h, rfl, hs⟩
  | some c => exact ⟨h, rfl, leave hs rfl⟩

/-- Two machines with the same spawner do the same with a future. -/
theorem spawn (h : M.Worlds w w') (hsp : m'.spawner = m.spawner)
    (ha : ∀ e : Event σ, e.polling = true → M.admits e) (k : ActivationId) (q : Progress σ)
    (last : Option (Code σ)) (hs : M.frames stack stack') :
    Option.Rel M.Runs (w.spawn m k q last stack) (w'.spawn m' k q last stack') := by
  have hspawned := h.record (ha (.spawned k) rfl)
  have hforgets : Forgets M m m' k := forgets hsp (ha (.refused k) rfl)
  simp only [World.spawn, hsp, h.activations_eq]
  refine rel_bind_same _ fun a _ => ?_
  cases m.spawner with
  | none => exact .some ((h.record (ha _ rfl)).letGo hforgets last hs)
  | some spawner =>
    cases spawner with
    | queue | pool => exact .some ⟨hspawned.addTask k q, rfl, hs⟩
    | eager => exact .some ⟨hspawned.record (ha (.polled k) rfl), rfl, hs⟩
    | discard | shutdown => exact .some (hspawned.letGo hforgets last hs)

/-- What becomes of the future of `k` on either side, with the destructors `last`. -/
abbrev Spawns (M : Margin σ) (m m' : Machine σ) (k : ActivationId) (last : Option (Code σ))
    (stack stack' : List (Frame σ)) : Prop :=
  ∀ {w w'} (q : Progress σ), M.Worlds w w' →
    Option.Rel M.Runs (w.spawn m k q last stack) (w'.spawn m' k q last stack')

theorem suspend (h : M.Worlds w w') (hsp : poller = .entry → Spawns M m m' k last stack stack')
    (q : Progress σ) (hs : M.frames stack stack') :
    Option.Rel M.Runs (w.suspend m poller k q last stack)
      (w'.suspend m' poller k q last stack') := by
  cases poller with
  | entry => exact hsp rfl q (h.closeWindow k)
  | spawner => exact .some ⟨h.addTask k q, rfl, hs⟩
  | executor t => exact .some ⟨h.setProgress t _, rfl, hs⟩

theorem finish (h : M.Worlds w w') (poller : Poller) (k : ActivationId) (b : Bool)
    (hs : M.frames stack stack') :
    Option.Rel M.Runs (w.finish poller k b stack) (w'.finish poller k b stack') := by
  simp only [World.finish, h.activations_eq]
  refine rel_bind_same _ fun a _ => .some ⟨?_, rfl, hs⟩
  have noted {w w' : World σ} (h : M.Worlds w w') :
      M.Worlds (if b = true then w.record (.cleanupIgnored k a.state) else w)
        (if b = true then w'.record (.cleanupIgnored k a.state) else w') := by
    split
    · exact h.record (M.admits_of rfl)
    · exact h
  cases poller with
  | entry => exact noted (h.closeWindow k)
  | spawner => exact noted h
  | executor t => exact noted (h.setProgress t none)

theorem advance (h : M.Worlds w w') (q : Progress σ)
    (hsp : poller = .entry → q.waits w = true → Spawns M m m' k q.last? stack stack')
    (hb : ∀ next, M.bears (.acting poller k next)) (hs : M.frames stack stack') :
    Option.Rel M.Runs (w.advance m poller k stack q) (w'.advance m' poller k stack' q) := by
  cases q with
  | stalled => exact h.suspend (fun hp => hsp hp rfl) _ hs
  | awaiting j next last =>
    simp only [World.advance, h.aborted_eq]
    split
    · exact .some ⟨h, rfl, hs⟩
    · next ha =>
      refine suspend ?_ (fun hp => hsp hp (by simpa [Progress.waits] using ha)) _ hs
      obtain ⟨ht, hj⟩ := h
      exact .intro ht hj
  | ready f =>
    cases f with
    | resolved => exact h.finish poller k false hs
    | resolvedWith c => exact h.finish poller k true hs
    | act c next => exact .some ⟨h, rfl, M.push (hb next) hs⟩
    | yield next last => exact (h.fireWaker _).suspend (fun hp => hsp hp rfl) _ hs
    | never last => exact h.suspend (fun hp => hsp hp rfl) _ hs
    | awaitAbort name next last =>
      cases name with
      | none => exact .some ⟨h, rfl, hs⟩
      | some name =>
        simp only [World.advance, h.handles_eq]
        cases w.handles.get? name <;> exact .some ⟨h, rfl, hs⟩

/-! ### Frames -/

/-- Whatever frame goes on, it does so on either side; the entry into a state is a case apart. -/
theorem proceed (h : M.Worlds w w') (e : Ending σ) {f : Frame σ}
    (hf : ∀ i tr p, f = .entering i tr p →
      Option.Rel M.Runs (w.enter m i tr p stack) (w'.enter m' i tr p stack'))
    (hp : ∀ k f', f = .body k → e = .ok (.pending f') → M.admits (.polled k))
    (hd : ∀ k, f = .dropping k → Forgets M m m' k) (hs : M.frames stack stack') :
    Option.Rel M.Runs (w.proceed m e stack f) (w'.proceed m' e stack' f) := by
  cases f with
  | resume t next => exact .some ⟨h, rfl, hs⟩
  | owning i => exact h.release i e hs
  | pinning i => exact .some ⟨h, rfl, hs⟩
  | farewell i e => exact .some ⟨h, rfl, hs⟩
  | settle e => exact .some ⟨h, rfl, hs⟩
  | exiting k wakers cleanup =>
    have hw := h.fireWakers wakers
    cases cleanup with
    | none => exact .some ⟨hw, rfl, hs⟩
    | some c => exact .some ⟨hw.record (M.admits_of rfl), rfl, hs⟩
  | changing i t a p => exact h.change i t a p hs
  | notifying calls =>
    cases calls with
    | nil => exact .some ⟨h, rfl, hs⟩
    | cons c calls =>
      obtain ⟨n, call⟩ := c
      refine .some ⟨h.record (M.admits_of ?_), rfl, leave hs rfl⟩
      cases n <;> rfl
  | entering i tr p => exact hf i tr p rfl
  | body k => exact h.conclude k e (fun f' => hp k f' rfl) hs
  | dropping k => exact .some ⟨hd k rfl h, rfl, hs⟩
  | acting poller k next => exact .some ⟨h, rfl, hs⟩
  | placing i slot =>
    cases e with
    | ok o => exact h.store slot i hs
    | error e => exact h.release i _ hs

end Worlds
end Margin

end Statechart
