import Statechart.Proofs.Run.Reach

/-!
The journal is written, and never read. So what has happened before a run has no part in what it
does: with another past the same steps are taken, to the same world on top of the other past.
-/

namespace Statechart

variable {σ : Signature} {m : Machine σ}

/-- The world, had `past` happened before all that is in its journal. -/
def World.after (w : World σ) (past : List (Event σ)) : World σ :=
  { w with journal := w.journal ++ past }

/-- The run, had `past` happened before all that is in its journal. -/
def Run.after (r : Run σ) (past : List (Event σ)) : Run σ := { r with world := r.world.after past }

namespace World

variable (w : World σ) (past : List (Event σ)) (stack : List (Frame σ))

/-! ### What a world shows -/

theorem instances_after : (w.after past).instances = w.instances := rfl

theorem activations_after : (w.after past).activations = w.activations := rfl

theorem slots_after : (w.after past).slots = w.slots := rfl

theorem handles_after : (w.after past).handles = w.handles := rfl

theorem finished_after : (w.after past).finished = w.finished := rfl

theorem aborted_after : (w.after past).aborted = w.aborted := rfl

theorem owned_after (i : InstanceId) : owned (w.after past) stack i = owned w stack i := rfl

theorem alive_after (i : InstanceId) : alive (w.after past) stack i = alive w stack i := rfl

/-! ### Exit and transition -/

theorem exit_after (i : InstanceId) :
    (w.after past).exit i stack = (w.exit i stack).map (·.after past) := by
  simp only [exit, instances_after]
  cases w.instances.get? i with
  | none => rfl
  | some inst =>
    obtain ⟨s, x, act⟩ := inst
    cases act with
    | none => rfl
    | some k =>
      simp only [Option.bind_eq_bind, Option.bind_some,
        activations_after]
      cases w.activations.get? k with
      | none => rfl
      | some a => cases ha : a.signal.fired <;> simp only [Option.bind_some, ha] <;> rfl

theorem release_after (i : InstanceId) (e : Ending σ) :
    (w.after past).release i e stack = (w.release i e stack).map (·.after past) := by
  unfold release
  rw [owned_after]
  cases owned w stack i with
  | true => rfl
  | false => exact exit_after (w.record (.released i)) past _ i

theorem dispatch_after (i : InstanceId) (caller : Caller) (a : σ.Action) (p : Option σ.Payload) :
    (w.after past).dispatch m i caller a p stack =
      (w.dispatch m i caller a p stack).map (·.after past) := by
  simp only [dispatch, instances_after]
  cases w.instances.get? i with
  | none => rfl
  | some inst =>
    simp only [Option.bind_eq_bind, Option.bind_some]
    split
    · rfl
    · next t _ =>
      split
      · exact exit_after (w.record (.transition i caller inst.state.value t a)) past _ i
      · rfl

theorem change_after (i : InstanceId) (t : σ.State) (a : σ.Action) (p : Option σ.Payload) :
    (w.after past).change i t a p stack = (w.change i t a p stack).map (·.after past) := by
  simp only [change, instances_after]
  cases w.instances.get? i <;> rfl

/-! ### Entry -/

theorem enter_after (i : InstanceId) (tr : Trigger σ.Action) (p : Option σ.Payload) :
    (w.after past).enter m i tr p stack = (w.enter m i tr p stack).map (·.after past) := by
  simp only [enter, instances_after]
  cases w.instances.get? i with
  | none => rfl
  | some inst =>
    obtain ⟨s, x, act⟩ := inst
    simp only [Option.bind_eq_bind, Option.bind_some]
    split
    · rfl
    · cases act <;> rfl

theorem keepCleanup_after (k : ActivationId) (c : Code σ) :
    (w.after past).keepCleanup k c stack = (w.keepCleanup k c stack).map (·.after past) := by
  simp only [keepCleanup, activations_after]
  cases w.activations.get? k with
  | none => rfl
  | some a =>
    simp only [Option.bind_eq_bind, Option.bind_some]
    split
    · rfl
    · simp only [show ((w.after past).record (.cleanupGiven k)).instances = w.instances from rfl,
        show (w.record (.cleanupGiven k)).instances = w.instances from rfl]
      cases w.instances.get? a.owner with
      | none => rfl
      | some inst =>
        obtain ⟨s, x, act⟩ := inst
        cases act <;> rfl

theorem conclude_after (k : ActivationId) (e : Ending σ) :
    (w.after past).conclude k e stack = (w.conclude k e stack).map (·.after past) := by
  cases e with
  | error e => rfl
  | ok o =>
    cases o with
    | done => rfl
    | cleanup c => exact keepCleanup_after (w.closeWindow k) past stack k c
    | pending f => rfl

/-! ### Operations -/

variable (t : Target σ)

theorem setContext_after (x : σ.Context) (next : Code σ) :
    (w.after past).setContext t x next stack =
      (w.setContext t x next stack).map (·.after past) := by
  unfold setContext
  cases t.activation? with
  | none => rfl
  | some k =>
    simp only [activations_after,
      instances_after]
    cases w.activations.get? k with
    | none => rfl
    | some a =>
      simp only [Option.bind_eq_bind, Option.bind_some]
      split
      · rfl
      · split
        · rfl
        · cases w.instances.get? a.owner <;> rfl

theorem forward_after (a : σ.Action) (p : Option σ.Payload) (next : Reply → Code σ) :
    (w.after past).forward m t a p next stack =
      (w.forward m t a p next stack).map (·.after past) := by
  unfold forward
  cases t.activation? with
  | none => rfl
  | some k =>
    simp only [activations_after]
    cases w.activations.get? k with
    | none => rfl
    | some b =>
      simp only [Option.bind_eq_bind, Option.bind_some]
      split
      · rfl
      · rw [alive_after]
        cases alive w stack b.owner with
        | false => rfl
        | true => exact dispatch_after w past _ b.owner _ a p

theorem onAbort_after (o next : Code σ) :
    (w.after past).onAbort t o next stack = (w.onAbort t o next stack).after past := by
  unfold onAbort
  cases t.activation? with
  | none => rfl
  | some k =>
    dsimp only
    rw [aborted_after]
    cases w.aborted k <;> rfl

theorem start_after (slot : String) (s : σ.State) (x : σ.Context) (next : Reply → Code σ) :
    (w.after past).start m t slot s x next stack =
      (w.start m t slot s x next stack).after past := by
  unfold start
  split <;> rfl

theorem store_after (slot : String) (i : InstanceId) :
    (w.after past).store slot i stack = (w.store slot i stack).map (·.after past) := by
  simp only [store, slots_after]
  cases w.slots.get? slot with
  | none => rfl
  | some j => exact release_after { w with slots := w.slots.insert slot i } past stack j .done

theorem unwatch_after (i : InstanceId) (id : SubscriptionId) :
    (w.after past).unwatch i id = ((w.unwatch i id).1, (w.unwatch i id).2.after past) := by
  simp only [unwatch, instances_after]
  cases w.instances.get? i with
  | none => rfl
  | some inst =>
    dsimp only
    split
    · rfl
    · split <;> rfl

theorem perform_after (c : Code σ) :
    (w.after past).perform m t stack c = (w.perform m t stack c).map (·.after past) := by
  cases c with
  | finish | raise | emit | look => rfl
  | setContext x next => exact setContext_after w past stack t x next
  | dispatch a p next => exact forward_after w past stack t a p next
  | takePayload next => cases t <;> rfl
  | onAbort o next => exact congrArg some (onAbort_after w past stack t o next)
  | clearAbort next => cases t <;> rfl
  | keep name next => cases t <;> rfl
  | within name body next =>
    simp only [perform, handles_after]
    cases w.handles.get? name <;> rfl
  | holding slot body next =>
    simp only [perform, slots_after]
    cases w.slots.get? slot <;> rfl
  | place slot o next =>
    refine congrArg some ?_
    cases o with
    | fresh => exact start_after w past stack t slot _ _ next
    | recovered s x => exact start_after w past stack t slot _ _ next
    | resumed s x => exact start_after (w.record (.resuming s)) past stack t slot s x next
  | send slot a p next =>
    simp only [perform, slots_after]
    cases w.slots.get? slot with
    | none => rfl
    | some i => exact dispatch_after w past _ i .owner a p
  | drop slot next =>
    simp only [perform, slots_after]
    cases w.slots.get? slot with
    | none => rfl
    | some i => exact release_after { w with slots := w.slots.erase slot } past _ i .done
  | peek slot next => rfl
  | watchState slot name observer next =>
    simp only [perform, slots_after]
    cases w.slots.get? slot <;> rfl
  | watchContext slot name observer next =>
    simp only [perform, slots_after]
    cases w.slots.get? slot <;> rfl
  | unwatch slot name next =>
    simp only [perform, slots_after, show (w.after past).subscriptions = w.subscriptions from rfl]
    cases w.slots.get? slot with
    | none => rfl
    | some i =>
      cases w.subscriptions.get? name with
      | none => rfl
      | some id =>
        simp only [unwatch_after]
        rfl

/-! ### Polls -/

variable (poller : Poller) (k : ActivationId)

theorem wake_after (j : TaskId) : (w.after past).wake j = (w.wake j).after past := by
  unfold wake
  rw [finished_after, show (w.after past).ready = w.ready from rfl]
  cases w.ready.contains j || w.finished j <;> rfl

theorem fireWaker_after (x : Waker) : (w.after past).fireWaker x = (w.fireWaker x).after past := by
  cases x with
  | idle => rfl
  | task j => exact wake_after w past j

theorem wakers_after (xs : List Waker) :
    xs.foldl fireWaker (w.after past) = (xs.foldl fireWaker w).after past := by
  induction xs generalizing w with
  | nil => rfl
  | cons x xs ih => rw [List.foldl_cons, List.foldl_cons, fireWaker_after, ih]

theorem forget_after : (w.after past).forget m k = (w.forget m k).after past := by
  unfold forget
  split <;> rfl

theorem letGo_after (last : Option (Code σ)) :
    (w.after past).letGo m k last stack = (w.letGo m k last stack).after past := by
  cases last with
  | none => exact congrArg (Run.mk · (.ended .done) stack) (forget_after w past k)
  | some c => rfl

theorem suspend_after (q : Progress σ) (last : Option (Code σ)) :
    (w.after past).suspend m poller k q last stack =
      (w.suspend m poller k q last stack).map (·.after past) := by
  cases poller with
  | entry =>
    simp only [suspend, spawn, show ((w.after past).closeWindow k).activations =
      (w.closeWindow k).activations from rfl]
    cases (w.closeWindow k).activations.get? k with
    | none => rfl
    | some a =>
      simp only [Option.bind_eq_bind, Option.bind_some]
      split
      · exact congrArg some (letGo_after ((w.closeWindow k).record _) past stack k last)
      · rfl
      · rfl
      · rfl
      · exact congrArg some (letGo_after ((w.closeWindow k).record _) past stack k last)
      · exact congrArg some (letGo_after ((w.closeWindow k).record _) past stack k last)
  | spawner | executor => rfl

theorem finish_after (b : Bool) :
    (w.after past).finish poller k b stack =
      (w.finish poller k b stack).map (·.after past) := by
  simp only [finish, activations_after]
  cases w.activations.get? k with
  | none => rfl
  | some a => cases poller <;> cases b <;> rfl

theorem advance_after (q : Progress σ) :
    (w.after past).advance m poller k stack q =
      (w.advance m poller k stack q).map (·.after past) := by
  cases q with
  | stalled => exact suspend_after w past stack poller k .stalled none
  | awaiting j next last =>
    simp only [advance]
    rw [aborted_after]
    cases w.aborted j with
    | true => rfl
    | false =>
      exact suspend_after (w.modifyActivation j fun a =>
        { a with signal := a.signal.register poller.waker }) past stack poller k _ last
  | ready f =>
    cases f with
    | resolved => exact finish_after w past stack poller k false
    | resolvedWith c => exact finish_after w past stack poller k true
    | act c next => rfl
    | yield next last =>
      simp only [advance, fireWaker_after]
      exact suspend_after (w.fireWaker poller.waker) past stack poller k _ last
    | never last => exact suspend_after w past stack poller k .stalled last
    | awaitAbort name next last =>
      cases name with
      | none => rfl
      | some name =>
        simp only [advance, handles_after]
        cases w.handles.get? name <;> rfl

/-! ### Frames and steps -/

theorem proceed_after (e : Ending σ) (f : Frame σ) :
    (w.after past).proceed m e stack f = (w.proceed m e stack f).map (·.after past) := by
  cases f with
  | resume | pinning | farewell | settle | acting => rfl
  | owning i => exact release_after w past stack i e
  | exiting k wakers cleanup =>
    simp only [proceed, wakers_after]
    cases cleanup <;> rfl
  | changing i t a p => exact change_after w past stack i t a p
  | notifying calls => cases calls <;> rfl
  | entering i tr p => exact enter_after w past stack i tr p
  | body k => exact conclude_after w past stack k e
  | dropping k =>
    exact congrArg (fun w => some (Run.mk w (.ended .done) stack)) (forget_after w past k)
  | placing i slot =>
    cases e with
    | ok o => exact store_after w past stack slot i
    | error e => exact release_after w past stack i (.error e)

end World

namespace Run

theorem step_after (r : Run σ) (past : List (Event σ)) :
    (r.after past).step m = (r.step m).map (·.after past) := by
  obtain ⟨w, control, stack⟩ := r
  cases control with
  | code t c => exact w.perform_after past stack t c
  | future p k q => exact w.advance_after past stack p k q
  | ended e =>
    cases stack with
    | nil => rfl
    | cons f stack => exact w.proceed_after past stack e f

/-- **What has happened before has no part in a run.** -/
theorem steps_after (r : Run σ) (past : List (Event σ)) (n : Nat) :
    (r.after past).steps m n = (r.steps m n).after past := by
  induction n generalizing r with
  | zero => rfl
  | succ n ih =>
    have hstep := r.step_after (m := m) past
    cases hs : r.step m with
    | none => rw [steps_of_none hs, steps_of_none (by rw [hstep, hs]; rfl)]
    | some r' => rw [steps_succ hs, steps_succ (by rw [hstep, hs]; rfl), ih]

/-- What has happened stays in the journal. -/
theorem journal_steps (r : Run σ) (n : Nat) :
    ∃ new, (r.steps m n).world.journal = new ++ r.world.journal := by
  have hafter := Run.steps_after (m := m) ⟨{ r.world with journal := [] }, r.control, r.stack⟩
    r.world.journal n
  exact ⟨_, congrArg (fun r => r.world.journal) hafter⟩

theorem journal_step {r r' : Run σ} (h : r.step m = some r') :
    ∃ new, r'.world.journal = new ++ r.world.journal := by
  have hjournal := r.journal_steps (m := m) 1
  rwa [steps_succ h] at hjournal

theorem journal_turn {r r' : Run σ} (h : r.Turn r') :
    ∃ new, r'.world.journal = new ++ r.world.journal := by
  cases h with
  | code | future | call | handle => exact ⟨[], rfl⟩
  | poll => exact ⟨[_], rfl⟩
  | executor h =>
    obtain ⟨t, task, p, rest, -, rfl⟩ := World.ofPoll?_eq_some h
    exact ⟨[_], rfl⟩

end Run

end Statechart
