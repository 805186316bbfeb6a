import Statechart.Proofs.Run.Reach

/-!
The lifecycle of a run: of its world, what decides which activation is live and what it may do; of
its stack, the entries, exits and transitions that are under way; of its journal, the events that
belong to these. Observers of cells, wakers, tasks, handles and notes are left out. The laws say
what each change of a world does to its lifecycle.
-/

namespace Statechart

variable {σ : Signature}

/-! ### What is looked at -/

/-- Where an instance stands. -/
structure Standing (σ : Signature) where
  state : σ.State
  context : σ.Context
  active : Option ActivationId

/-- What an activation may still do, and what is left to be done when it is exited. -/
structure Tenure (σ : Signature) where
  owner : InstanceId
  state : σ.State
  aborted : Bool := false
  windowOpen : Bool := true
  observer : Option (Code σ) := none
  cleanup : Option (Cleanup σ) := none

/-- Something of the lifecycle that is under way. -/
inductive Stage (σ : Signature) where
  /-- The body of `k`, or the first poll of its future. -/
  | entry (k : ActivationId)
  /-- The exit of `k`, with the cleanup that is still to be run. -/
  | exiting (k : ActivationId) (cleanup : Option (Cleanup σ))
  /-- A transition before its write. -/
  | changing (i : InstanceId) (target : σ.State) (action : σ.Action) (payload : Option σ.Payload)
  /-- A transition, or a placement, before its entry. -/
  | entering (i : InstanceId) (trigger : Trigger σ.Action) (payload : Option σ.Payload)
  /-- The exit that the last owner of an instance causes. -/
  | leaving (i : InstanceId)

/-- The lifecycle at one moment. -/
structure Life (σ : Signature) where
  instances : InstanceId → Option (Standing σ)
  activations : ActivationId → Option (Tenure σ)
  /-- How many instances have been placed. -/
  placed : Nat
  /-- How many activations have been started. -/
  started : Nat
  /-- The events that belong to the lifecycle, the latest first. -/
  past : List (Event σ)
  /-- What is under way, the innermost first. -/
  stages : List (Stage σ)

/-- Where an instance stands. -/
def Instance.standing (inst : Instance σ) : Standing σ :=
  ⟨inst.state.value, inst.context.value, inst.active⟩

def Activation.tenure (a : Activation σ) : Tenure σ :=
  ⟨a.owner, a.state, a.signal.aborted, a.windowOpen, a.signal.observer, a.cleanup⟩

@[simp] theorem Activation.aborted_tenure (a : Activation σ) :
    a.tenure.aborted = a.signal.aborted := rfl

@[simp] theorem Activation.windowOpen_tenure (a : Activation σ) :
    a.tenure.windowOpen = a.windowOpen := rfl

@[simp] theorem Activation.observer_tenure (a : Activation σ) :
    a.tenure.observer = a.signal.observer := rfl

/-- The stage that a frame stands for. -/
def Frame.stage? : Frame σ → Option (Stage σ)
  | .exiting k _ cleanup => some (.exiting k cleanup)
  | .changing i target action payload => some (.changing i target action payload)
  | .entering i trigger payload => some (.entering i trigger payload)
  | .farewell i _ => some (.leaving i)
  | .body k => some (.entry k)
  | .acting .entry k _ => some (.entry k)
  | _ => none

/-- The stage that is under way in what happens next. -/
def Control.stage? : Control σ → Option (Stage σ)
  | .future .entry k _ => some (.entry k)
  | _ => none

def stagesOf (stack : List (Frame σ)) : List (Stage σ) := stack.filterMap Frame.stage?

/-- Whether an event belongs to the lifecycle. -/
def Event.vital : Event σ → Bool
  | placed .. | released .. | transition .. | wrote .. | entered .. | started .. | displaced ..
  | exiting .. | aborted .. | cleanupGiven .. | cleanupRun .. | cleanupAtOnce ..
  | contextSet .. => true
  | _ => false

/-- The lifecycle of a world in which `stages` are under way. -/
def World.life (w : World σ) (stages : List (Stage σ)) : Life σ where
  instances i := (w.instances.get? i).map Instance.standing
  activations k := (w.activations.get? k).map Activation.tenure
  placed := w.instances.size
  started := w.activations.size
  past := w.journal.filter Event.vital
  stages := stages

def Run.life (r : Run σ) : Life σ :=
  r.world.life (r.control.stage?.toList ++ stagesOf r.stack)

/-! ### Changes of a lifecycle -/

namespace Tenure

/-- The tenure once the window is closed. -/
def closed (t : Tenure σ) : Tenure σ := { t with windowOpen := false }

/-- The tenure once the activation is over. -/
def spent (t : Tenure σ) : Tenure σ :=
  { t with
    aborted := true
    windowOpen := false
    observer := if t.aborted then t.observer else none
    cleanup := none }

end Tenure

namespace Life

/-- The lifecycle before anything has happened. -/
def empty : Life σ := ⟨fun _ => none, fun _ => none, 0, 0, [], []⟩

def note (l : Life σ) (e : Event σ) : Life σ := { l with past := e :: l.past }

/-- The lifecycle in which `stages` are under way. -/
def on (l : Life σ) (stages : List (Stage σ)) : Life σ := { l with stages := stages }

def addInstance (l : Life σ) (s : Standing σ) : Life σ :=
  { l with
    instances := fun j => if j = l.placed then some s else l.instances j
    placed := l.placed + 1 }

def addActivation (l : Life σ) (t : Tenure σ) : Life σ :=
  { l with
    activations := fun j => if j = l.started then some t else l.activations j
    started := l.started + 1 }

def modifyInstance (l : Life σ) (i : InstanceId) (f : Standing σ → Standing σ) : Life σ :=
  { l with instances := fun j => if j = i then (l.instances j).map f else l.instances j }

def modifyActivation (l : Life σ) (k : ActivationId) (f : Tenure σ → Tenure σ) : Life σ :=
  { l with activations := fun j => if j = k then (l.activations j).map f else l.activations j }

theorem modifyInstance_eq_some {l : Life σ} {i j : InstanceId} {f : Standing σ → Standing σ}
    {s : Standing σ} : (l.modifyInstance i f).instances j = some s ↔
      ∃ u, l.instances j = some u ∧ (if j = i then f u else u) = s := by
  by_cases h : j = i <;> simp [modifyInstance, h]

theorem modifyActivation_eq_some {l : Life σ} {j k : ActivationId} {f : Tenure σ → Tenure σ}
    {t : Tenure σ} : (l.modifyActivation k f).activations j = some t ↔
      ∃ u, l.activations j = some u ∧ (if j = k then f u else u) = t := by
  by_cases h : j = k <;> simp [modifyActivation, h]

/-- A change that leaves the state variable alone has found it as it is now. -/
theorem modifyInstance_state {l : Life σ} {i j : InstanceId} {f : Standing σ → Standing σ}
    (hf : ∀ u, (f u).state = u.state) {s : Standing σ}
    (hi : (l.modifyInstance j f).instances i = some s) :
    ∃ u, l.instances i = some u ∧ u.state = s.state := by
  obtain ⟨u, hu, rfl⟩ := modifyInstance_eq_some.1 hi
  refine ⟨u, hu, ?_⟩
  split
  · exact (hf u).symm
  · rfl

/-- The lifecycle in which instance `i` has started an activation for the state `s`. -/
def begin (l : Life σ) (i : InstanceId) (s : σ.State) (trigger : Trigger σ.Action)
    (p : Option σ.Payload) : Life σ :=
  ((l.addActivation { owner := i, state := s }).modifyInstance i
    fun st => { st with active := some l.started }).note (.started i l.started s trigger p)

/-- The lifecycle in which instance `i`, in the state `s`, has no live activation any more, and
`k` is over. -/
def tearDown (l : Life σ) (i : InstanceId) (k : ActivationId) (s : σ.State) : Life σ :=
  (((l.note (.exiting i k s)).modifyInstance i fun st => { st with active := none
    }).modifyActivation k .spent).note (.aborted k)

end Life

/-! ### The lifecycle of a changed world -/

namespace World

variable {w : World σ} {s : List (Stage σ)}

theorem life_instances {i : InstanceId} {inst : Instance σ}
    (h : w.instances.get? i = some inst) : (w.life s).instances i = some inst.standing :=
  congrArg (Option.map Instance.standing) h

theorem life_activations {k : ActivationId} {a : Activation σ}
    (h : w.activations.get? k = some a) : (w.life s).activations k = some a.tenure :=
  congrArg (Option.map Activation.tenure) h

theorem life_record (e : Event σ) :
    (w.record e).life s = if e.vital then (w.life s).note e else w.life s := by
  unfold life record Life.note
  cases h : e.vital <;> simp [h]

theorem life_modifyInstance (i : InstanceId) {f : Instance σ → Instance σ}
    {g : Standing σ → Standing σ}
    (h : ∀ inst, w.instances.get? i = some inst → (f inst).standing = g inst.standing) :
    (w.modifyInstance i f).life s = (w.life s).modifyInstance i g := by
  unfold life modifyInstance Life.modifyInstance
  congr 1
  funext j
  rw [Roster.get?_modify]
  split
  · next hj =>
    subst hj
    cases hi : w.instances.get? j with
    | none => simp [hi]
    | some inst => simp [hi, h inst hi]
  · rfl

theorem life_modifyActivation (k : ActivationId) {f : Activation σ → Activation σ}
    {g : Tenure σ → Tenure σ}
    (h : ∀ a, w.activations.get? k = some a → (f a).tenure = g a.tenure) :
    (w.modifyActivation k f).life s = (w.life s).modifyActivation k g := by
  unfold life modifyActivation Life.modifyActivation
  congr 1
  funext j
  rw [Roster.get?_modify]
  split
  · next hj =>
    subst hj
    cases ha : w.activations.get? j with
    | none => simp [ha]
    | some a => simp [ha, h a ha]
  · rfl

theorem life_modifyInstance_same (i : InstanceId) {f : Instance σ → Instance σ}
    (h : ∀ inst, (f inst).standing = inst.standing) :
    (w.modifyInstance i f).life s = w.life s := by
  rw [life_modifyInstance i (g := id) fun inst _ => h inst]
  simp [Life.modifyInstance]

theorem life_modifyActivation_same (k : ActivationId) {f : Activation σ → Activation σ}
    (h : ∀ a, (f a).tenure = a.tenure) :
    (w.modifyActivation k f).life s = w.life s := by
  rw [life_modifyActivation k (g := id) fun a _ => h a]
  simp [Life.modifyActivation]

theorem life_closeWindow (k : ActivationId) :
    (w.closeWindow k).life s = (w.life s).modifyActivation k .closed :=
  life_modifyActivation k fun _ _ => rfl

theorem life_pushInstance (inst : Instance σ) :
    World.life { w with instances := w.instances.push inst } s =
      (w.life s).addInstance inst.standing := by
  unfold life Life.addInstance
  congr 1
  funext j
  rw [Roster.get?_push]
  split <;> simp

theorem life_pushActivation (a : Activation σ) :
    World.life { w with activations := w.activations.push a } s =
      (w.life s).addActivation a.tenure := by
  unfold life Life.addActivation
  congr 1
  funext j
  rw [Roster.get?_push]
  split <;> simp

theorem life_wake (t : TaskId) : (w.wake t).life s = w.life s := by
  unfold wake
  split <;> rfl

theorem life_fireWaker (x : Waker) : (w.fireWaker x).life s = w.life s := by
  cases x with
  | idle => rfl
  | task t => exact life_wake t

theorem life_foldl_fireWaker (xs : List Waker) :
    (xs.foldl fireWaker w).life s = w.life s := by
  induction xs generalizing w with
  | nil => rfl
  | cons x xs ih => rw [List.foldl_cons, ih, life_fireWaker]

end World

/-! ### Exits -/

/-- An activation that is over. -/
def Activation.tornDown (a : Activation σ) : Activation σ :=
  { a with windowOpen := false, signal := a.signal.fire, cleanup := none }

theorem Activation.tenure_tornDown (a : Activation σ) : a.tornDown.tenure = a.tenure.spent := by
  unfold tornDown tenure Tenure.spent Signal.fire
  cases h : a.signal.aborted <;> simp [h]

namespace World

variable {w : World σ} {i : InstanceId} {inst : Instance σ}

/-- The world in which the live activation `k` of instance `i`, which is in the state `s`, has been
torn down. -/
def tearDown (w : World σ) (i : InstanceId) (k : ActivationId) (s : σ.State) : World σ :=
  (((w.record (.exiting i k s)).modifyInstance i fun inst => { inst with active := none }
    ).modifyActivation k .tornDown).record (.aborted k)

theorem life_tearDown {k : ActivationId} {s : σ.State} (stages : List (Stage σ)) :
    (w.tearDown i k s).life stages = (w.life stages).tearDown i k s := by
  unfold tearDown
  rw [life_record, life_modifyActivation k (g := .spent),
    life_modifyInstance i (g := fun s => { s with active := none }), life_record]
  · rfl
  · exact fun _ _ => rfl
  · exact fun a _ => a.tenure_tornDown

/-- The run in which the abort observer of activation `k`, if there is one, is about to run. -/
def observing (w : World σ) (k : ActivationId) (o : Option (Code σ)) (stack : List (Frame σ)) :
    Run σ :=
  match o with
  | none => ⟨w, .ended .done, stack⟩
  | some c => ⟨w.record (.observing k), .code (.handle k) c, stack⟩

theorem life_observing (w : World σ) (k : ActivationId) (o : Option (Code σ))
    (stack : List (Frame σ)) : (w.observing k o stack).life = w.life (stagesOf stack) := by
  cases o with
  | none => rfl
  | some c => exact life_record (.observing k)

theorem exit_of_vacant (hi : w.instances.get? i = some inst) (ha : inst.active = none)
    (stack : List (Frame σ)) : w.exit i stack = some ⟨w, .ended .done, stack⟩ := by
  simp [exit, hi, ha]

theorem exit_of_active (hi : w.instances.get? i = some inst) {k : ActivationId}
    (ha : inst.active = some k) {a : Activation σ} (hk : w.activations.get? k = some a)
    (stack : List (Frame σ)) :
    w.exit i stack = some ((w.tearDown i k inst.state.value).observing k a.signal.fired
      (.exiting k a.signal.woken a.cleanup :: stack)) := by
  simp only [exit, hi, ha, hk, Option.bind_eq_bind, Option.bind_some]
  cases a.signal.fired <;> rfl

end World

/-! ### Entries -/

namespace World

variable {w : World σ} {i : InstanceId} {inst : Instance σ} {m : Machine σ} {tr : Trigger σ.Action}
  {p : Option σ.Payload}

/-- The world in which instance `i` has started an activation for the state `s`. -/
def begin (w : World σ) (i : InstanceId) (s : σ.State) (tr : Trigger σ.Action)
    (p : Option σ.Payload) : World σ :=
  (World.modifyInstance { w with activations := w.activations.push { owner := i, state := s } } i
    fun inst => { inst with active := some w.activations.size }).record
      (.started i w.activations.size s tr p)

theorem life_begin {s : σ.State} (stages : List (Stage σ)) :
    (w.begin i s tr p).life stages = (w.life stages).begin i s tr p := by
  unfold begin
  rw [life_record,
    life_modifyInstance i (g := fun s => { s with active := some w.activations.size })
      fun _ _ => rfl,
    life_pushActivation]
  rfl

theorem enter_bare (hi : w.instances.get? i = some inst)
    (he : m.config.effect? inst.state.value = none) (stack : List (Frame σ)) :
    w.enter m i tr p stack =
      some ⟨w.record (.entered i inst.state.value tr p), .ended .done, stack⟩ := by
  simp [enter, hi, he]

theorem enter_effect (hi : w.instances.get? i = some inst) {c : Code σ}
    (he : m.config.effect? inst.state.value = some c) (stack : List (Frame σ)) :
    w.enter m i tr p stack = some ⟨(match inst.active with
        | none => w
        | some j => w.record (.displaced j)).begin i inst.state.value tr p,
      .code (.environment w.activations.size tr p) c, .body w.activations.size :: stack⟩ := by
  simp only [enter, hi, he, Option.bind_eq_bind, Option.bind_some]
  cases inst.active <;> rfl

end World

/-! ### What a run tells of its lifecycle -/

/-- Whether a frame belongs to the entry that started activation `k`: to its effect body, or to the
first poll of its future. -/
def Frame.enters (k : ActivationId) : Frame σ → Bool
  | .body j => j = k
  | .acting .entry j _ => j = k
  | _ => false

/-- Whether the first poll of the future of activation `k` goes on. -/
def Control.enters (k : ActivationId) : Control σ → Bool
  | .future .entry j _ => j = k
  | _ => false

namespace Run

/-- Whether the effect body of activation `k`, or the first poll of its future, has not returned
yet. -/
def entering (r : Run σ) (k : ActivationId) : Bool :=
  r.control.enters k || r.stack.any (Frame.enters k)

/-- Whether the exit of activation `k` has begun. -/
def exited (r : Run σ) (k : ActivationId) : Bool :=
  r.world.journal.any fun
    | .exiting _ j _ => j = k
    | _ => false

/-- Whether an activation has lost its place to another one, against the assertion that an entry
makes. -/
def displaced (r : Run σ) : Bool :=
  r.world.journal.any fun
    | .displaced _ => true
    | _ => false

variable {r : Run σ}

theorem mem_past {e : Event σ} (he : e.vital = true) :
    e ∈ r.life.past ↔ e ∈ r.world.journal := by
  simp [life, World.life, he]

/-- What belongs to the lifecycle is found in the journal, with what has happened before. -/
theorem suffix_past {e : Event σ} {older : List (Event σ)} (h : e :: older <:+ r.life.past) :
    ∃ before, e :: before <:+ r.world.journal ∧ before.filter Event.vital = older := by
  obtain ⟨newer, hpast⟩ := h
  obtain ⟨l₁, l₂, hjournal, -, hl₂⟩ := List.filter_eq_append_iff.1 hpast.symm
  obtain ⟨l₃, before, rfl, -, -, hbefore⟩ := List.filter_eq_cons_iff.1 hl₂
  exact ⟨before, ⟨l₁ ++ l₃, by rw [List.append_assoc, hjournal]⟩, hbefore⟩

theorem filterMap_past {α : Type} {f : Event σ → Option α}
    (hf : ∀ e, e.vital = false → f e = none) :
    r.life.past.filterMap f = r.world.journal.filterMap f := by
  simp only [life, World.life, List.filterMap_filter]
  congr 1
  funext e
  cases he : e.vital <;> simp [hf e, he]

theorem entry_mem_stages {k : ActivationId} :
    .entry k ∈ r.life.stages ↔ r.entering k = true := by
  have hc : r.control.stage? = some (.entry k) ↔ r.control.enters k = true := by
    unfold Control.stage? Control.enters
    split <;> simp
  have hf (f : Frame σ) : f.stage? = some (.entry k) ↔ f.enters k = true := by
    unfold Frame.stage? Frame.enters
    split <;> simp
  simp [life, World.life, stagesOf, entering, hc, hf]

theorem exited_iff {k : ActivationId} :
    r.exited k = true ↔ ∃ i s, .exiting i k s ∈ r.life.past := by
  have hv (i s) := mem_past (r := r) (e := .exiting i k s) rfl
  simp only [exited, List.any_eq_true, hv]
  constructor
  · rintro ⟨e, he, hk⟩
    split at hk
    · obtain rfl := of_decide_eq_true hk
      exact ⟨_, _, he⟩
    · cases hk
  · rintro ⟨i, s, he⟩
    exact ⟨_, he, by simp⟩

theorem displaced_eq_false_iff : r.displaced = false ↔ ∀ k, .displaced k ∉ r.life.past := by
  have hv (k) := mem_past (r := r) (e := .displaced k) rfl
  simp only [displaced, List.any_eq_false, hv]
  constructor
  · exact fun h k hk => h _ hk rfl
  · intro h e he
    split
    · next k => exact absurd he (h k)
    · simp

end Run

end Statechart
