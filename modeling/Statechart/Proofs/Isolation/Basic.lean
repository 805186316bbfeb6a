import Statechart.Proofs.Isolation.Log
import Statechart.Proofs.Resume.Lockstep
import Mathlib.Data.List.Nodup

/-!
An instance among others, beside one that lives alone. What belongs to the instance has a number on
either side, and a matching tells which numbers stand for the same. `Isolation.Runs` says that two
runs are the same but for the numbers, while all that belongs to other instances is as it was in the
world in which the run began.
-/

namespace Statechart

variable {σ : Signature}

/-! ### Matchings -/

/-- A one-to-one correspondence, in the order in which the pairs came. -/
structure Matching (α : Type) where
  pairs : List (α × α)
  nodup : (pairs.map Prod.fst).Nodup
  nodup' : (pairs.map Prod.snd).Nodup

namespace Matching

variable {α : Type} {M : Matching α} {a a' b b' : α}

/-- The two stand for the same. -/
def Pair (M : Matching α) (a a' : α) : Prop := (a, a') ∈ M.pairs

def empty : Matching α := ⟨[], .nil, .nil⟩

/-- The matching with one more pair. -/
def add (M : Matching α) (a a' : α) (h : a ∉ M.pairs.map Prod.fst)
    (h' : a' ∉ M.pairs.map Prod.snd) : Matching α where
  pairs := M.pairs ++ [(a, a')]
  nodup := by
    rw [List.map_append, List.map_singleton, ← List.concat_eq_append]
    exact M.nodup.concat h
  nodup' := by
    rw [List.map_append, List.map_singleton, ← List.concat_eq_append]
    exact M.nodup'.concat h'

theorem mem_map_fst : a ∈ M.pairs.map Prod.fst ↔ ∃ a', M.Pair a a' := by
  simp [Pair]

theorem mem_map_snd : a' ∈ M.pairs.map Prod.snd ↔ ∃ a, M.Pair a a' := by
  simp [Pair]

theorem pair_add (h : a ∉ M.pairs.map Prod.fst) (h' : a' ∉ M.pairs.map Prod.snd) :
    (M.add a a' h h').Pair b b' ↔ M.Pair b b' ∨ b = a ∧ b' = a' := by
  simp [Pair, add]

/-- Every number stands for one other. -/
theorem Pair.eq_iff (h : M.Pair a a') (hb : M.Pair b b') : a = b ↔ a' = b' := by
  constructor
  · rintro rfl
    have hinj := List.inj_on_of_nodup_map M.nodup h hb rfl
    exact congrArg Prod.snd hinj
  · rintro rfl
    have hinj := List.inj_on_of_nodup_map M.nodup' h hb rfl
    exact congrArg Prod.fst hinj

/-- A pair has the same place on either side. -/
theorem Pair.idxOf_eq [BEq α] [LawfulBEq α] (h : M.Pair a a') :
    (M.pairs.map Prod.fst).idxOf a = (M.pairs.map Prod.snd).idxOf a' := by
  obtain ⟨n, hn⟩ := List.mem_iff_getElem?.1 h
  have hfst : (M.pairs.map Prod.fst)[n]? = some a := by rw [List.getElem?_map, hn]; rfl
  have hsnd : (M.pairs.map Prod.snd)[n]? = some a' := by rw [List.getElem?_map, hn]; rfl
  obtain ⟨-, rfl⟩ := List.getElem?_eq_some_iff.1 hfst
  obtain ⟨-, rfl⟩ := List.getElem?_eq_some_iff.1 hsnd
  rw [M.nodup.idxOf_getElem, M.nodup'.idxOf_getElem]

end Matching

/-- What the two sides have in common: the activations and tasks of the instance, and the ids of
the subscriptions to it. -/
structure Pairs where
  acts : Matching ActivationId
  tasks : Matching TaskId
  subs : Matching SubscriptionId

namespace Pairs

/-- The second matchings go further than the first. -/
structure Within (p q : Pairs) : Prop where
  acts : ∀ {k k'}, p.acts.Pair k k' → q.acts.Pair k k'
  tasks : ∀ {t t'}, p.tasks.Pair t t' → q.tasks.Pair t t'
  subs : ∀ {x x'}, p.subs.Pair x x' → q.subs.Pair x x'

theorem Within.refl (p : Pairs) : p.Within p := ⟨id, id, id⟩

theorem Within.trans {p q s : Pairs} (h : p.Within q) (h' : q.Within s) : p.Within s :=
  ⟨h'.acts ∘ h.acts, h'.tasks ∘ h.tasks, h'.subs ∘ h.subs⟩

section Add

variable {p : Pairs} {a a' : Nat} {x x' : SubscriptionId}

def addAct (p : Pairs) (a a' : ActivationId) (h : a ∉ p.acts.pairs.map Prod.fst)
    (h' : a' ∉ p.acts.pairs.map Prod.snd) : Pairs :=
  { p with acts := p.acts.add a a' h h' }

def addTask (p : Pairs) (a a' : TaskId) (h : a ∉ p.tasks.pairs.map Prod.fst)
    (h' : a' ∉ p.tasks.pairs.map Prod.snd) : Pairs :=
  { p with tasks := p.tasks.add a a' h h' }

def addSub (p : Pairs) (x x' : SubscriptionId) (h : x ∉ p.subs.pairs.map Prod.fst)
    (h' : x' ∉ p.subs.pairs.map Prod.snd) : Pairs :=
  { p with subs := p.subs.add x x' h h' }

theorem within_addAct {h h'} : p.Within (p.addAct a a' h h') :=
  ⟨fun hk => (Matching.pair_add h h').2 (.inl hk), id, id⟩

theorem within_addTask {h h'} : p.Within (p.addTask a a' h h') :=
  ⟨id, fun ht => (Matching.pair_add h h').2 (.inl ht), id⟩

theorem within_addSub {h h'} : p.Within (p.addSub x x' h h') :=
  ⟨id, id, fun hx => (Matching.pair_add h h').2 (.inl hx)⟩

theorem pair_addAct {h h'} : (p.addAct a a' h h').acts.Pair a a' :=
  (Matching.pair_add h h').2 (.inr ⟨rfl, rfl⟩)

theorem pair_addSub {h h'} : (p.addSub x x' h h').subs.Pair x x' :=
  (Matching.pair_add h h').2 (.inr ⟨rfl, rfl⟩)

end Add

/-! ### The same but for the numbers -/

inductive Targets (p : Pairs) : Target σ → Target σ → Prop
  | environment {k k' : ActivationId} (h : p.acts.Pair k k') (tr : Trigger σ.Action)
      (pl : Option σ.Payload) : Targets p (.environment k tr pl) (.environment k' tr pl)
  | handle {k k' : ActivationId} (h : p.acts.Pair k k') : Targets p (.handle k) (.handle k')
  | bare : Targets p .bare .bare

structure Cleanups (p : Pairs) (c c' : Cleanup σ) : Prop where
  author : p.acts.Pair c.author c'.author
  code : c.code = c'.code

inductive Wakers (p : Pairs) : Waker → Waker → Prop
  | idle : Wakers p .idle .idle
  | task {t t' : TaskId} (h : p.tasks.Pair t t') : Wakers p (.task t) (.task t')

inductive Pollers (p : Pairs) : Poller → Poller → Prop
  | entry : Pollers p .entry .entry
  | spawner : Pollers p .spawner .spawner
  | executor {t t' : TaskId} (h : p.tasks.Pair t t') : Pollers p (.executor t) (.executor t')

inductive Progresses (p : Pairs) : Progress σ → Progress σ → Prop
  | ready (f : Future σ) : Progresses p (.ready f) (.ready f)
  | stalled : Progresses p .stalled .stalled
  | awaiting {k k' : ActivationId} (h : p.acts.Pair k k') (f : Future σ)
      (last : Option (Code σ)) : Progresses p (.awaiting k f last) (.awaiting k' f last)

inductive Controls (p : Pairs) : Control σ → Control σ → Prop
  | code {t t' : Target σ} (h : p.Targets t t') (c : Code σ) : Controls p (.code t c) (.code t' c)
  | future {poller poller' : Poller} {k k' : ActivationId} {q q' : Progress σ}
      (hp : p.Pollers poller poller') (hk : p.acts.Pair k k') (hq : p.Progresses q q') :
      Controls p (.future poller k q) (.future poller' k' q')
  | ended (e : Ending σ) : Controls p (.ended e) (.ended e)

structure Tasks (p : Pairs) (t t' : Task σ) : Prop where
  activation : p.acts.Pair t.activation t'.activation
  progress : Option.Rel p.Progresses t.progress t'.progress

structure Cells {α β : Type} (p : Pairs) (c c' : Cell α β) : Prop where
  value : c.value = c'.value
  observers : List.Forall₂ (fun o o' => p.subs.Pair o.1 o'.1 ∧ o.2 = o'.2) c.observers c'.observers

structure Instances (p : Pairs) (a a' : Instance σ) : Prop where
  state : p.Cells a.state a'.state
  context : p.Cells a.context a'.context
  active : Option.Rel p.acts.Pair a.active a'.active

/-- Activations of instance `i` and of the one that is alone. -/
structure Activations (p : Pairs) (i : InstanceId) (a a' : Activation σ) : Prop where
  owner : a.owner = i
  owner' : a'.owner = 0
  state : a.state = a'.state
  aborted : a.signal.aborted = a'.signal.aborted
  observer : a.signal.observer = a'.signal.observer
  wakers : List.Forall₂ p.Wakers a.signal.wakers a'.signal.wakers
  windowOpen : a.windowOpen = a'.windowOpen
  cleanup : Option.Rel p.Cleanups a.cleanup a'.cleanup

end Pairs

/-- An instance of which a run is to be compared with one that is alone. -/
structure Isolation (σ : Signature) where
  inst : InstanceId
  /-- The instance that a slot or a name of a subscription is used for. -/
  whose : String → InstanceId
  /-- The world of all in which the run begins. -/
  base : World σ
  /-- The world of the one that is alone, in which its run begins. -/
  alone : World σ

namespace Isolation

section Relations

variable (I : Isolation σ) (p : Pairs)

inductive Notices : Notice σ → Notice σ → Prop
  | state {x x' : SubscriptionId} (h : p.subs.Pair x x') (s : σ.State) :
      Notices (.state I.inst x s) (.state 0 x' s)
  | context {x x' : SubscriptionId} (h : p.subs.Pair x x') (c : σ.Context) :
      Notices (.context I.inst x c) (.context 0 x' c)

inductive Frames : Frame σ → Frame σ → Prop
  | resume {t t' : Target σ} (h : p.Targets t t') (next : Reply → Code σ) :
      Frames (.resume t next) (.resume t' next)
  | owning : Frames (.owning I.inst) (.owning 0)
  | pinning : Frames (.pinning I.inst) (.pinning 0)
  | farewell (e : Ending σ) : Frames (.farewell I.inst e) (.farewell 0 e)
  | settle (e : Ending σ) : Frames (.settle e) (.settle e)
  | exiting {k k' : ActivationId} {ws ws' : List Waker} {c c' : Option (Cleanup σ)}
      (hk : p.acts.Pair k k') (hw : List.Forall₂ p.Wakers ws ws')
      (hc : Option.Rel p.Cleanups c c') : Frames (.exiting k ws c) (.exiting k' ws' c')
  | changing (s : σ.State) (a : σ.Action) (pl : Option σ.Payload) :
      Frames (.changing I.inst s a pl) (.changing 0 s a pl)
  | notifying {calls calls' : List (Notice σ × Code σ)}
      (h : List.Forall₂ (fun x x' => I.Notices p x.1 x'.1 ∧ x.2 = x'.2) calls calls') :
      Frames (.notifying calls) (.notifying calls')
  | entering (tr : Trigger σ.Action) (pl : Option σ.Payload) :
      Frames (.entering I.inst tr pl) (.entering 0 tr pl)
  | body {k k' : ActivationId} (hk : p.acts.Pair k k') : Frames (.body k) (.body k')
  | dropping {k k' : ActivationId} (hk : p.acts.Pair k k') : Frames (.dropping k) (.dropping k')
  | acting {poller poller' : Poller} {k k' : ActivationId} (hp : p.Pollers poller poller')
      (hk : p.acts.Pair k k') (next : Except MachineError Unit → Future σ) :
      Frames (.acting poller k next) (.acting poller' k' next)
  | placing (slot : String) (h : I.whose slot = I.inst) :
      Frames (.placing I.inst slot) (.placing 0 slot)

/-- Numberings that give the same number to what stands for the same. -/
structure Agree (f f' : Numbering) : Prop where
  inst : f.inst I.inst = f'.inst 0
  act : ∀ {k k'}, p.acts.Pair k k' → f.act k = f'.act k'
  task : ∀ {t t'}, p.tasks.Pair t t' → f.task t = f'.task t'

/-- The events are the same in numbers that agree. -/
def Events (e e' : Event σ) : Prop :=
  ∀ ⦃f f' : Numbering⦄, I.Agree p f f' → e.renumber f = e'.renumber f'

end Relations

/-! ### Worlds -/

/-- Entries that fall to the instance are paired, in order, and the others are as they were. -/
structure Dealt {α : Type} (i : InstanceId) (M : Matching Nat) (R : α → α → Prop)
    (whom whom' before : α → Option InstanceId) (r r' base : Roster α) : Prop where
  own : r.dealt whom i = M.pairs.map Prod.fst
  own' : r'.dealt whom' 0 = M.pairs.map Prod.snd
  pairs : ∀ {k k'}, M.Pair k k' → Option.Rel R (r.get? k) (r'.get? k')
  rest : ∀ {k}, k ∉ M.pairs.map Prod.fst → r.get? k = base.get? k
  others : ∀ {j}, j ≠ i → r.dealt whom j = base.dealt before j

section Worlds

variable (I : Isolation σ) (p : Pairs)

structure Places (r r' : Roster (Instance σ)) : Prop where
  own : Option.Rel p.Instances (r.get? I.inst) (r'.get? 0)
  size' : r'.size ≤ 1
  rest : ∀ {j}, j ≠ I.inst → r.get? j = I.base.instances.get? j

structure Slots (t t' : Table String InstanceId) : Prop where
  own : ∀ slot, t'.get? slot = if I.whose slot = I.inst then (t.get? slot).map fun _ => 0 else none
  held : ∀ {slot j}, t.get? slot = some j → j = I.whose slot
  rest : ∀ {slot}, I.whose slot ≠ I.inst → t.get? slot = I.base.slots.get? slot

/-- A name that is bound to something stands for the same on either side, or for what belongs to
another instance. -/
structure Handles (t t' : Table String ActivationId) : Prop where
  unbound : ∀ {name}, t.get? name = none →
    t'.get? name = none ∧ I.base.handles.get? name = none
  bound : ∀ {name k}, t.get? name = some k →
    (∃ k', p.acts.Pair k k' ∧ t'.get? name = some k') ∨
      I.base.handles.get? name = some k ∧ ∃ j, j ≠ I.inst ∧ I.base.activations.owner? k = some j

/-- The ids that the instance has got have been used up on either side. -/
structure Names (t t' : Table String SubscriptionId) (next next' : SubscriptionId) : Prop where
  own : ∀ {name}, I.whose name = I.inst → Option.Rel p.subs.Pair (t.get? name) (t'.get? name)
  rest : ∀ {name}, I.whose name ≠ I.inst → t.get? name = I.base.subscriptions.get? name
  used : ∀ {x x'}, p.subs.Pair x x' → x.toNat < next.toNat ∧ x'.toNat < next'.toNat
  counter : next'.toNat ≤ next.toNat
  later : I.base.nextSubscription.toNat ≤ next.toNat

/-- The same has happened on either side since the runs began. -/
def Journals (j j' : List (Event σ)) : Prop :=
  ∃ since since', j = since ++ I.base.journal ∧ j' = since' ++ I.alone.journal ∧
    List.Forall₂ (I.Events p) since since'

/-- All tasks have been spawned by activations that there are. -/
def Spawned (acts : Roster (Activation σ)) (tasks : Roster (Task σ)) : Prop :=
  ∀ {t task}, tasks.get? t = some task → task.activation < acts.size

/-- **What belongs to the instance is the same on either side**, and what belongs to others is as it
was. -/
structure Worlds (w w' : World σ) : Prop where
  instances : I.Places p w.instances w'.instances
  activations : Dealt I.inst p.acts (p.Activations I.inst) (fun a => some a.owner)
    (fun a => some a.owner) (fun a => some a.owner) w.activations w'.activations
    I.base.activations
  tasks : Dealt I.inst p.tasks p.Tasks (fun t => w.activations.owner? t.activation)
    (fun t => w'.activations.owner? t.activation)
    (fun t => I.base.activations.owner? t.activation) w.tasks w'.tasks I.base.tasks
  spawned : Spawned w.activations w.tasks
  spawned' : Spawned w'.activations w'.tasks
  slots : I.Slots w.slots w'.slots
  handles : I.Handles p w.handles w'.handles
  names : I.Names p w.subscriptions w'.subscriptions w.nextSubscription w'.nextSubscription
  journal : I.Journals p w.journal w'.journal

abbrev Stacks (stack stack' : List (Frame σ)) : Prop := List.Forall₂ (I.Frames p) stack stack'

structure Runs (r r' : Run σ) : Prop where
  world : I.Worlds p r.world r'.world
  control : p.Controls r.control r'.control
  stack : I.Stacks p r.stack r'.stack

/-- The runs are the same after more has come to belong to the instance. -/
def Next (r r' : Run σ) : Prop := ∃ q, p.Within q ∧ I.Runs q r r'

end Worlds

end Isolation

end Statechart
