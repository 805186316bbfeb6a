import Statechart.Proofs.Run.Deed

/-!
What is done to the instances of one machine. Each errand belongs to one of them, and is told in the
numbers of that instance: the handle of its first activation, the second of its tasks. So is what
comes of an errand. A log may then be compared with that of an instance that lives alone.
-/

namespace Statechart

variable {σ : Signature}

/-! ### What belongs to an instance -/

/-- The numbers of the entries that fall to instance `i`, in order. -/
def Roster.dealt {α : Type} (r : Roster α) (whom : α → Option InstanceId) (i : InstanceId) :
    List Nat :=
  (List.range r.size).filter fun k => (r.get? k).bind whom = some i

/-- The instance that an activation belongs to. -/
def Roster.owner? (r : Roster (Activation σ)) (k : ActivationId) : Option InstanceId :=
  (r.get? k).map Activation.owner

namespace Roster

variable {α : Type} {r : Roster α} {whom : α → Option InstanceId} {i : InstanceId} {k : Nat}

theorem mem_dealt : k ∈ r.dealt whom i ↔ (r.get? k).bind whom = some i := by
  simp only [dealt, List.mem_filter, List.mem_range, decide_eq_true_eq, and_iff_right_iff_imp]
  intro h
  obtain ⟨a, ha, -⟩ := Option.bind_eq_some_iff.1 h
  exact lt_size ha

theorem dealt_push (r : Roster α) (whom : α → Option InstanceId) (a : α) (i : InstanceId) :
    (r.push a).dealt whom i =
      r.dealt whom i ++ if whom a = some i then [r.size] else [] := by
  unfold dealt
  rw [size_push, List.range_succ, List.filter_append]
  congr 1
  · refine List.filter_congr fun k hk => ?_
    rw [get?_push, if_neg (Nat.ne_of_lt (List.mem_range.1 hk))]
  · simp [List.filter_cons, get?_push]

theorem dealt_congr {r' : Roster α} {whom' : α → Option InstanceId} (hs : r'.size = r.size)
    (h : ∀ k, (r'.get? k).bind whom' = (r.get? k).bind whom) (i : InstanceId) :
    r'.dealt whom' i = r.dealt whom i := by
  unfold dealt
  rw [hs]
  exact List.filter_congr fun k _ => by rw [h]

/-- A change that leaves to everyone what he has. -/
theorem dealt_modify {f : α → α} (h : ∀ a, r.get? k = some a → whom (f a) = whom a)
    (i : InstanceId) : (r.modify k f).dealt whom i = r.dealt whom i := by
  refine dealt_congr (size_modify r k f) (fun j => ?_) i
  rw [get?_modify]
  split
  · next hj =>
    subst hj
    cases ha : r.get? j with
    | none => rfl
    | some a => exact h a ha
  · rfl

theorem owner?_eq_bind (r : Roster (Activation σ)) (k : ActivationId) :
    r.owner? k = (r.get? k).bind fun a => some a.owner := by
  rw [owner?, Option.map_eq_bind]
  rfl

theorem owner?_push (r : Roster (Activation σ)) (a : Activation σ) {k : ActivationId}
    (hk : k < r.size) : (r.push a).owner? k = r.owner? k := by
  rw [owner?, get?_push, if_neg (Nat.ne_of_lt hk), owner?]

theorem owner?_modify {r : Roster (Activation σ)} {k : ActivationId}
    {f : Activation σ → Activation σ} (h : ∀ a, r.get? k = some a → (f a).owner = a.owner)
    (j : ActivationId) : (r.modify k f).owner? j = r.owner? j := by
  rw [owner?, get?_modify, owner?]
  split
  · next hj =>
    subst hj
    cases ha : r.get? j with
    | none => rfl
    | some a => exact congrArg some (h a ha)
  · rfl

end Roster

namespace World

/-- The activations of instance `i`, in the order of entry. -/
def activationsOf (w : World σ) (i : InstanceId) : List ActivationId :=
  w.activations.dealt (fun a => some a.owner) i

/-- The tasks that the activations of instance `i` have spawned, in order. -/
def tasksOf (w : World σ) (i : InstanceId) : List TaskId :=
  w.tasks.dealt (fun t => w.activations.owner? t.activation) i

/-- What instance `i` shows of itself. -/
def shows (m : Machine σ) (w : World σ) (i : InstanceId) : Option (Snapshot σ) :=
  (w.instances.get? i).map fun inst =>
    ⟨inst.state.value, inst.context.value, m.isFinal inst.state.value⟩

end World

/-- A way to number instances, activations and tasks. -/
structure Numbering where
  inst : InstanceId → Nat
  act : ActivationId → Nat
  task : TaskId → Nat

def Caller.renumber (f : Numbering) : Caller → Caller
  | owner => owner
  | handle k => handle (f.act k)

/-- The event in other numbers. The ids of subscriptions are left out, since all instances get them
from one counter. -/
def Event.renumber (f : Numbering) : Event σ → Event σ
  | note n => note n
  | placed i s => placed (f.inst i) s
  | resuming s => resuming s
  | released i => released (f.inst i)
  | ignored i s a => ignored (f.inst i) s a
  | transition i caller s t a => transition (f.inst i) (caller.renumber f) s t a
  | wrote i s t a p => wrote (f.inst i) s t a p
  | toldState i _ s => toldState (f.inst i) 0 s
  | toldContext i _ x => toldContext (f.inst i) 0 x
  | entered i s tr p => entered (f.inst i) s tr p
  | started i k s tr p => started (f.inst i) (f.act k) s tr p
  | displaced k => displaced (f.act k)
  | exiting i k s => exiting (f.inst i) (f.act k) s
  | aborted k => aborted (f.act k)
  | observing k => observing (f.act k)
  | woken t => woken (f.task t)
  | cleanupGiven k => cleanupGiven (f.act k)
  | cleanupRun author k => cleanupRun (f.act author) (f.act k)
  | cleanupAtOnce k s => cleanupAtOnce (f.act k) s
  | cleanupIgnored k s => cleanupIgnored (f.act k) s
  | polled k => polled (f.act k)
  | spawned k => spawned (f.act k)
  | noSpawner k s => noSpawner (f.act k) s
  | refused k => refused (f.act k)
  | contextSet i k x => contextSet (f.inst i) (f.act k) x
  | contextExpired k s => contextExpired (f.act k) s
  | contextLate k s => contextLate (f.act k) s
  | dispatchExpired k s a => dispatchExpired (f.act k) s a
  | dispatchOrphaned k s a => dispatchOrphaned (f.act k) s a
  | observerLate k => observerLate (f.act k)

/-- The numbers that what belongs to instance `i` would have without the others, which come after
it. -/
def World.numbering (w : World σ) (i : InstanceId) : Numbering where
  inst := [i].idxOf
  act := (w.activationsOf i).idxOf
  task := (w.tasksOf i).idxOf

/-! ### Errands -/

/-- What is done to one instance from outside. -/
inductive Errand (σ : Signature) where
  /-- Code that works on nothing is called, on behalf of the instance. -/
  | call (c : Code σ)
  /-- Code is called on a handle of the `n`-th activation of the instance. -/
  | handle (n : Nat) (c : Code σ)
  /-- The `n`-th task of the instance is polled. -/
  | poll (n : Nat)

namespace Errand

def deed? (w : World σ) (i : InstanceId) : Errand σ → Option (Deed σ)
  | call c => some (.call c)
  | handle n c => (w.activationsOf i)[n]?.map fun k => .handle k c
  | poll n => (w.tasksOf i)[n]?.map .poll

/-- The run of an errand to instance `i`, if what it asks for is there. -/
def start? (w : World σ) (i : InstanceId) (d : Errand σ) : Option (Run σ) :=
  (d.deed? w i).bind (Deed.start? w)

end Errand

/-- What an errand comes to. -/
structure Account (σ : Signature) where
  ending : Ending σ
  /-- What has happened meanwhile, in order. -/
  events : List (Event σ)
  /-- What the instance shows of itself afterwards. -/
  shown : Option (Snapshot σ)

/-- What an errand to instance `i` has come to, which began in the world `w` and has led to `w'`. -/
def World.account (m : Machine σ) (w w' : World σ) (i : InstanceId) (e : Ending σ) : Account σ where
  ending := e
  events := (w'.history.drop w.history.length).map (Event.renumber (w'.numbering i))
  shown := w'.shows m i

/-- **What has been done to the instances of a machine**, one errand after another on the empty
world, each until it has returned, with what each has come to. Every run on the way is `ok`. -/
inductive Log (m : Machine σ) (ok : InstanceId → Run σ → Bool) :
    World σ → List (InstanceId × Errand σ × Account σ) → Prop
  | nil : Log m ok {} []
  | snoc {w : World σ} {log : List (InstanceId × Errand σ × Account σ)} {r : Run σ} {e : Ending σ}
      (h : Log m ok w log) (i : InstanceId) (d : Errand σ) (hd : d.start? w i = some r) (n : Nat)
      (hok : ∀ k < n, ok i (r.steps m k) = true) (he : (r.steps m n).ending? = some e) :
      Log m ok (r.steps m n).world (log ++ [(i, d, w.account m (r.steps m n).world i e)])

/-! ### Keeping to an instance -/

/-- Whether the handle kept under a name is one of instance `i`, if there is one. -/
def World.bindsTo (w : World σ) (i : InstanceId) (name : String) : Bool :=
  (w.handles.get? name).all fun k => w.activations.owner? k = some i

/-- Whether an operation keeps to instance `i`. Every slot and every name of a subscription is used
for one instance, which `whose` tells. A subscription needs an id that is not the last one. -/
def World.permits (whose : String → InstanceId) (w : World σ) (i : InstanceId) : Code σ → Bool
  | .within name _ _ => w.bindsTo i name
  | .holding slot _ _ | .send slot _ _ _ | .drop slot _ | .peek slot _ => whose slot = i
  | .place slot _ _ => whose slot = i && w.instances.size = i
  | .watchState slot name _ _ | .watchContext slot name _ _ =>
    whose slot = i && whose name = i && w.nextSubscription + 1 ≠ 0
  | .unwatch slot name _ => whose slot = i && whose name = i
  | _ => true

/-- Whether what happens next keeps to instance `i`: user code, whether it is the code of the
errand, an effect body, a cleanup, an observer, a piece of a future or its destructors, works on
slots, handles and subscriptions of this instance only. -/
def Run.keepsTo (whose : String → InstanceId) (i : InstanceId) (r : Run σ) : Bool :=
  match r.control with
  | .code _ c => r.world.permits whose i c
  | .future _ _ (.ready (.awaitAbort (some name) ..)) => r.world.bindsTo i name
  | _ => true

end Statechart
