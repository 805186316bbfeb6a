import Statechart.Proofs.Loop.Agreement

/-!
Two instances that do the same. Each lives in a world of its own, with a history of its own: other
instances, stale handles, futures that wait, activations that are over. From some entry on, the two
make the same course. The activations that they have started since then come in pairs, and so does
everything that runs on these; of the worlds, nothing else is looked at.
-/

namespace Statechart

variable {σ : Signature} {m : Machine σ} {w w' w₁ w₁' : World σ} {i : InstanceId}
  {k k' : ActivationId}

/-! ### Courses -/

/-- What becomes of an instance: its state or its context is written, or it is entered. -/
inductive Change (σ : Signature) where
  | state (s : σ.State)
  | context (x : σ.Context)
  | entry (v : Visit σ)

/-- The change of instance `i` that an event reports. -/
def Event.change? (i : InstanceId) : Event σ → Option (Change σ)
  | wrote j _ t _ _ => if j = i then some (.state t) else none
  | contextSet j _ x => if j = i then some (.context x) else none
  | entered j s tr p => if j = i then some (.entry ⟨s, tr, p⟩) else none
  | started j _ s tr p => if j = i then some (.entry ⟨s, tr, p⟩) else none
  | _ => none

/-- What has become of instance `i`, the latest first. -/
def World.course (w : World σ) (i : InstanceId) : List (Change σ) :=
  w.journal.filterMap (Event.change? i)

/-- Only moves change anything. -/
theorem World.course_eq (w : World σ) (i : InstanceId) :
    w.course i = w.moves.filterMap (Event.change? i) := by
  rw [course, moves, List.filterMap_filter]
  congr 1
  funext e
  cases e <;> rfl

theorem World.course_of_moves (h : w'.moves = w.moves) (i : InstanceId) :
    w'.course i = w.course i := by
  rw [course_eq, course_eq, h]

/-- Nothing has happened that belongs to an instance or an activation. -/
structure World.Silent (w w' : World σ) : Prop where
  slots : w'.slots = w.slots
  instances : w'.instances = w.instances
  activations : w'.activations = w.activations
  moves : w'.moves = w.moves

namespace World

theorem silent_wakers (w : World σ) (xs : List Waker) : w.Silent (xs.foldl fireWaker w) := by
  have hu := w.unmoved_wakers xs
  refine ⟨hu.slots, hu.instances, ?_, hu.moves⟩
  clear hu
  induction xs generalizing w with
  | nil => rfl
  | cons x xs ih =>
    rw [List.foldl_cons, ih]
    cases x with
    | idle => rfl
    | task t =>
      change (w.wake t).activations = _
      unfold wake
      split <;> rfl

end World

/-! ### Pairs -/

/-- An instance in each of two worlds, with the slots that hold them, the numbers of the first
activations of their common course, and what had become of them before. -/
structure Pairing (σ : Signature) where
  inst : InstanceId
  inst' : InstanceId
  slot : String
  slot' : String
  first : ActivationId
  first' : ActivationId
  past : List (Change σ)
  past' : List (Change σ)

namespace Pairing

/-- The two activations have been started at the same point of the common course. -/
def Twins (P : Pairing σ) (k k' : ActivationId) : Prop := ∃ d, k = P.first + d ∧ k' = P.first' + d

inductive Targets (P : Pairing σ) : Target σ → Target σ → Prop
  | environment {k k' : ActivationId} (h : P.Twins k k') (tr : Trigger σ.Action)
      (p : Option σ.Payload) : Targets P (.environment k tr p) (.environment k' tr p)
  | handle {k k' : ActivationId} (h : P.Twins k k') : Targets P (.handle k) (.handle k')
  | bare : Targets P .bare .bare

/-- The same code, handed back by twins. -/
structure Cleanups (P : Pairing σ) (c c' : Cleanup σ) : Prop where
  author : P.Twins c.author c'.author
  code : c.code = c'.code
  confined : c.code.Confined

structure Activations (P : Pairing σ) (a a' : Activation σ) : Prop where
  owner : a.owner = P.inst
  owner' : a'.owner = P.inst'
  state : a.state = a'.state
  aborted : a.signal.aborted = a'.signal.aborted
  windowOpen : a.windowOpen = a'.windowOpen
  observer : a.signal.observer = a'.signal.observer
  confined : ∀ c, a.signal.observer = some c → c.Confined
  cleanup : Option.Rel P.Cleanups a.cleanup a'.cleanup

/-- Instances without observers that are in the same state and have the same context. -/
inductive Instances (P : Pairing σ) : Instance σ → Instance σ → Prop
  | intro (s : σ.State) (x : σ.Context) {act act' : Option ActivationId}
      (h : Option.Rel P.Twins act act') :
      Instances P ⟨⟨s, []⟩, ⟨x, []⟩, act⟩ ⟨⟨s, []⟩, ⟨x, []⟩, act'⟩

structure Worlds (P : Pairing σ) (w w' : World σ) : Prop where
  slot : w.slots.get? P.slot = some P.inst
  slot' : w'.slots.get? P.slot' = some P.inst'
  started : P.Twins w.activations.size w'.activations.size
  instances : Option.Rel P.Instances (w.instances.get? P.inst) (w'.instances.get? P.inst')
  activations : ∀ k k', P.Twins k k' →
    Option.Rel P.Activations (w.activations.get? k) (w'.activations.get? k')
  course : ∃ since, w.course P.inst = since ++ P.past ∧ w'.course P.inst' = since ++ P.past'

inductive Progresses (P : Pairing σ) : Progress σ → Progress σ → Prop
  | ready {f : Future σ} (h : f.Confined) : Progresses P (.ready f) (.ready f)
  | stalled : Progresses P .stalled .stalled
  | awaiting {k k' : ActivationId} {f : Future σ} {last : Option (Code σ)} (hk : P.Twins k k')
      (h : f.Confined) (hl : ∀ c, last = some c → c.Confined) :
      Progresses P (.awaiting k f last) (.awaiting k' f last)

inductive Controls (P : Pairing σ) : Control σ → Control σ → Prop
  | code {t t' : Target σ} {c : Code σ} (ht : P.Targets t t') (h : c.Confined) :
      Controls P (.code t c) (.code t' c)
  | future {poller : Poller} {k k' : ActivationId} {q q' : Progress σ}
      (hp : ∀ t, poller ≠ .executor t) (hk : P.Twins k k') (h : P.Progresses q q') :
      Controls P (.future poller k q) (.future poller k' q')
  | ended {e : Ending σ} (h : e.Confined) : Controls P (.ended e) (.ended e)

inductive Frames (P : Pairing σ) : Frame σ → Frame σ → Prop
  | resume {t t' : Target σ} {next : Reply → Code σ} (ht : P.Targets t t')
      (h : ∀ q, (next q).Confined) : Frames P (.resume t next) (.resume t' next)
  | owning : Frames P (.owning P.inst) (.owning P.inst')
  | pinning : Frames P (.pinning P.inst) (.pinning P.inst')
  | settle {e : Ending σ} (h : e.Confined) : Frames P (.settle e) (.settle e)
  | exiting {k k' : ActivationId} {wakers wakers' : List Waker} {c c' : Option (Cleanup σ)}
      (hk : P.Twins k k') (hc : Option.Rel P.Cleanups c c') :
      Frames P (.exiting k wakers c) (.exiting k' wakers' c')
  | changing (t : σ.State) (a : σ.Action) (p : Option σ.Payload) :
      Frames P (.changing P.inst t a p) (.changing P.inst' t a p)
  | notifying : Frames P (.notifying []) (.notifying [])
  | entering (tr : Trigger σ.Action) (p : Option σ.Payload) :
      Frames P (.entering P.inst tr p) (.entering P.inst' tr p)
  | body {k k' : ActivationId} (hk : P.Twins k k') : Frames P (.body k) (.body k')
  | dropping {k k' : ActivationId} (hk : P.Twins k k') : Frames P (.dropping k) (.dropping k')
  | acting {poller : Poller} {k k' : ActivationId} {next : Except MachineError Unit → Future σ}
      (hp : ∀ t, poller ≠ .executor t) (hk : P.Twins k k') (h : ∀ q, (next q).Confined) :
      Frames P (.acting poller k next) (.acting poller k' next)

abbrev Stacks (P : Pairing σ) (stack stack' : List (Frame σ)) : Prop :=
  List.Forall₂ P.Frames stack stack'

structure Runs (P : Pairing σ) (r r' : Run σ) : Prop where
  worlds : P.Worlds r.world r'.world
  control : P.Controls r.control r'.control
  stack : P.Stacks r.stack r'.stack

end Pairing

end Statechart
