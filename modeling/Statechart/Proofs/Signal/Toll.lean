import Statechart.Proofs.Run.Inversion
import Statechart.Proofs.Signal.Alarm

/-!
What a step does to the signals. User code sets and clears observers and polls wait; apart from
that, a signal begins with its activation and fires in the exit of that activation, which leaves the
rest of the abort on the stack.
-/

namespace Statechart

variable {σ : Signature} {m : Machine σ} {w w' : World σ} {stack stack' : List (Frame σ)}
  {r : Run σ} {i : InstanceId} {k : ActivationId}

/-! ### What is looked at -/

/-- The signal of an activation. -/
def World.signal? (w : World σ) (k : ActivationId) : Option (Signal (Code σ)) :=
  (w.activations.get? k).map Activation.signal

/-- What a frame has still to do for the abort of `k`, once the observer has returned. -/
def Frame.chores (k : ActivationId) : Frame σ → List (Chore (Code σ))
  | .exiting j wakers _ => if k = j then .wait :: wakers.map .wake else []
  | _ => []

/-- What the frames of a stack have still to do for the abort of `k`, in order. -/
def choresOf (k : ActivationId) (stack : List (Frame σ)) : List (Chore (Code σ)) :=
  stack.flatMap (Frame.chores k)

/-- The code that is about to run. -/
def Run.code? (r : Run σ) : Option (Code σ) :=
  match r.control with
  | .code _ c => some c
  | _ => none

/-- **From the world `w` over `stack` to the run**, the signals are left alone, or the one of a live
activation fires, or one begins. -/
inductive Run.Tolls (w : World σ) (stack : List (Frame σ)) : Run σ → Prop
  | still {r : Run σ} (hs : ∀ j, r.world.signal? j = w.signal? j)
      (hc : ∀ j, choresOf j r.stack = choresOf j stack) : Tolls w stack r
  /-- The code that runs at once is the observer that was in the slot. -/
  | fired {r : Run σ} {i : InstanceId} {inst : Instance σ} {k : ActivationId}
      {g : Signal (Code σ)} (hi : w.instances.get? i = some inst) (ha : inst.active = some k)
      (hk : w.signal? k = some g) (hr : r.code? = g.fired)
      (hs : ∀ j, r.world.signal? j = if j = k then some g.fire else w.signal? j)
      (hc : ∀ j, choresOf j r.stack =
        (if j = k then .wait :: g.woken.map .wake else []) ++ choresOf j stack) : Tolls w stack r
  | begun {r : Run σ} {k : ActivationId} (hk : w.signal? k = none)
      (hs : ∀ j, r.world.signal? j = if j = k then some {} else w.signal? j)
      (hc : ∀ j, choresOf j r.stack = choresOf j stack) : Tolls w stack r

/-- What leaves instances, signals and aborts alone may come first. -/
theorem Run.Tolls.after (h : r.Tolls w' stack') (hi : w'.instances = w.instances)
    (hs : ∀ j, w'.signal? j = w.signal? j) (hc : ∀ j, choresOf j stack' = choresOf j stack) :
    r.Tolls w stack := by
  cases h with
  | still hs' hc' =>
    exact .still (fun j => (hs' j).trans (hs j)) fun j => (hc' j).trans (hc j)
  | fired hi' ha hk hr hs' hc' =>
    exact .fired (hi ▸ hi') ha ((hs _).symm.trans hk) hr (fun j => hs j ▸ hs' j)
      fun j => hc j ▸ hc' j
  | begun hk hs' hc' =>
    exact .begun ((hs _).symm.trans hk) (fun j => hs j ▸ hs' j) fun j => (hc' j).trans (hc j)

namespace World

/-! ### Signals of a changed world -/

theorem signal?_modifyActivation (f : Activation σ → Activation σ) (k j : ActivationId) :
    (w.modifyActivation k f).signal? j =
      if j = k then (w.activations.get? j).map fun a => (f a).signal else w.signal? j := by
  simp only [signal?, modifyActivation, Roster.get?_modify]
  split
  · rw [Option.map_map]
    rfl
  · rfl

/-- A change of an activation that leaves its signal alone does not show. -/
theorem signal?_modifySame {f : Activation σ → Activation σ} (hf : ∀ a, (f a).signal = a.signal)
    (k j : ActivationId) : (w.modifyActivation k f).signal? j = w.signal? j := by
  rw [signal?_modifyActivation]
  split
  · simp only [hf]
    rfl
  · rfl

theorem signal?_closeWindow (w : World σ) (k j : ActivationId) :
    (w.closeWindow k).signal? j = w.signal? j :=
  signal?_modifySame (f := fun a => { a with windowOpen := false }) (fun _ => rfl) k j

theorem activations_fireWaker (x : Waker) : (w.fireWaker x).activations = w.activations := by
  cases x with
  | idle => rfl
  | task t =>
    change (w.wake t).activations = _
    unfold wake
    split <;> rfl

theorem activations_wakers (xs : List Waker) :
    (xs.foldl fireWaker w).activations = w.activations := by
  induction xs generalizing w with
  | nil => rfl
  | cons x xs ih => rw [List.foldl_cons, ih, activations_fireWaker]

/-- What has the same activations has the same signals. -/
theorem signal?_same (h : w'.activations = w.activations) (j : ActivationId) :
    w'.signal? j = w.signal? j := by
  rw [signal?, h, ← signal?]

/-! ### Exit and transition -/

theorem tolls_exit (h : w.exit i stack = some r) : r.Tolls w stack := by
  cases exit_cases h with
  | vacant => exact .still (fun _ => rfl) fun _ => rfl
  | @active inst k a hi ha hk =>
    have hsignal : w.signal? k = some a.signal := by rw [signal?, hk]; rfl
    have htorn (j) : (w.tearDown i k inst.state.value).signal? j =
        if j = k then some a.signal.fire else w.signal? j := by
      refine (signal?_modifyActivation Activation.tornDown k j).trans ?_
      split
      · next hj =>
        subst hj
        exact congrArg (Option.map _) hk
      · rfl
    cases hf : a.signal.fired with
    | none => exact .fired hi ha hsignal hf.symm htorn fun _ => rfl
    | some c => exact .fired hi ha hsignal hf.symm htorn fun _ => rfl

theorem tolls_release {e : Ending σ} (h : w.release i e stack = some r) : r.Tolls w stack := by
  cases release_cases h with
  | shared => exact .still (fun _ => rfl) fun _ => rfl
  | last _ h => exact (tolls_exit h).after rfl (fun _ => rfl) fun _ => rfl

theorem tolls_dispatch {caller : Caller} {a : σ.Action} {p : Option σ.Payload}
    (h : w.dispatch m i caller a p stack = some r) : r.Tolls w stack := by
  cases dispatch_cases h with
  | ignored | dangles => exact .still (fun _ => rfl) fun _ => rfl
  | departs _ _ _ h => exact (tolls_exit h).after rfl (fun _ => rfl) fun _ => rfl

theorem tolls_change {t : σ.State} {a : σ.Action} {p : Option σ.Payload}
    (h : w.change i t a p stack = some r) : r.Tolls w stack := by
  obtain ⟨inst, -, rfl⟩ := change_eq_some h
  exact .still (fun _ => rfl) fun _ => rfl

/-! ### Entry -/

/-- A new activation begins with a signal of its own. -/
theorem tolls_begin {s : σ.State} {tr : Trigger σ.Action} {p : Option σ.Payload} {t : Target σ}
    {c : Code σ} : Run.Tolls w stack
      ⟨w.begin i s tr p, .code t c, .body w.activations.size :: stack⟩ := by
  have hnew : w.signal? w.activations.size = none := by
    rw [signal?, (Roster.get?_eq_none_iff ..).2 (Nat.le_refl _)]
    rfl
  have hpush (a : Activation σ) (j) : (w.activations.push a).get? j =
      if j = w.activations.size then some a else w.activations.get? j := Roster.get?_push ..
  refine .begun hnew (fun j => ?_) fun _ => rfl
  refine (congrArg (Option.map Activation.signal) (hpush { owner := i, state := s } j)).trans ?_
  split <;> rfl

theorem tolls_enter {tr : Trigger σ.Action} {p : Option σ.Payload}
    (h : w.enter m i tr p stack = some r) : r.Tolls w stack := by
  cases enter_cases h with
  | bare => exact .still (fun _ => rfl) fun _ => rfl
  | starts => exact tolls_begin
  | displaces => exact (tolls_begin (w := w.record _)).after rfl (fun _ => rfl) fun _ => rfl

theorem tolls_keepCleanup {c : Code σ} (h : w.keepCleanup k c stack = some r) :
    r.Tolls w stack := by
  cases keepCleanup_cases h with
  | atOnce | forgone => exact .still (fun _ => rfl) fun _ => rfl
  | @kept a inst j =>
    exact .still (signal?_modifySame (w := w) (f := fun b => { b with cleanup := some ⟨k, c⟩ })
      (fun _ => rfl) j) fun _ => rfl

theorem tolls_conclude {e : Ending σ} (h : w.conclude k e stack = some r) : r.Tolls w stack := by
  cases conclude_cases h with
  | error | done => exact .still (w.signal?_closeWindow k) fun _ => rfl
  | cleanup h => exact (tolls_keepCleanup h).after rfl (w.signal?_closeWindow k) fun _ => rfl
  | pending => exact .still (fun _ => rfl) fun _ => rfl

/-! ### Operations -/

theorem tolls_setContext {t : Target σ} {c : σ.Context} {next : Code σ}
    (h : w.setContext t c next stack = some r) : r.Tolls w stack := by
  cases setContext_cases h <;> exact .still (fun _ => rfl) fun _ => rfl

theorem tolls_forward {t : Target σ} {a : σ.Action} {p : Option σ.Payload} {next : Reply → Code σ}
    (h : w.forward m t a p next stack = some r) : r.Tolls w stack := by
  cases forward_cases h with
  | bare | expired | orphaned => exact .still (fun _ => rfl) fun _ => rfl
  | dispatched _ _ _ _ h => exact (tolls_dispatch h).after rfl (fun _ => rfl) fun _ => rfl

theorem tolls_start (t : Target σ) (slot : String) (s : σ.State) (c : σ.Context)
    (next : Reply → Code σ) : (w.start m t slot s c next stack).Tolls w stack := by
  unfold start
  split <;> exact .still (fun _ => rfl) fun _ => rfl

theorem tolls_place (t : Target σ) (slot : String) (o : Origin σ) (next : Reply → Code σ) :
    (w.place m t slot o next stack).Tolls w stack := by
  cases o with
  | fresh => exact tolls_start ..
  | recovered s c => exact tolls_start ..
  | resumed s c =>
    exact (tolls_start (w := w.record (.resuming s)) t slot s c next).after rfl (fun _ => rfl)
      fun _ => rfl

theorem tolls_store {slot : String} (h : w.store slot i stack = some r) : r.Tolls w stack := by
  cases store_cases h with
  | empty => exact .still (fun _ => rfl) fun _ => rfl
  | replaces _ h => exact (tolls_release h).after rfl (fun _ => rfl) fun _ => rfl

theorem activations_unwatch (i : InstanceId) (id : SubscriptionId) :
    (w.unwatch i id).2.activations = w.activations := by
  unfold unwatch
  split
  · rfl
  · split
    · rfl
    · split <;> rfl

/-- **What an operation of user code does to the signals**, unless it is about an observer. -/
theorem tolls_perform {t : Target σ} {c : Code σ} (h : w.perform m t stack c = some r)
    (hset : ∀ observer next, c ≠ .onAbort observer next) (hclear : ∀ next, c ≠ .clearAbort next) :
    r.Tolls w stack := by
  cases perform_cases h with
  | finish | raise | emit | idle | keep => exact .still (fun _ => rfl) fun _ => rfl
  | within | unheld | holding => exact .still (fun _ => rfl) fun _ => rfl
  | stateUnwatched | watchState | contextUnwatched | watchContext | unknown =>
    exact .still (fun _ => rfl) fun _ => rfl
  | setContext h => exact tolls_setContext h
  | dispatch h => exact tolls_forward h
  | onAbort observer next => exact absurd rfl (hset observer next)
  | clearAbort _ next => exact absurd rfl (hclear next)
  | place => exact tolls_place ..
  | send _ h => exact (tolls_dispatch h).after rfl (fun _ => rfl) fun _ => rfl
  | drop _ h => exact (tolls_release h).after rfl (fun _ => rfl) fun _ => rfl
  | unwatch => exact .still (signal?_same (activations_unwatch ..)) fun _ => rfl

/-! ### Polls -/

theorem tolls_letsGo {last : Option (Code σ)} (h : w.LetsGo m k stack last r) :
    (∀ j, r.world.signal? j = w.signal? j) ∧ ∀ j, choresOf j r.stack = choresOf j stack := by
  cases h <;> exact ⟨fun _ => rfl, fun _ => rfl⟩

theorem tolls_suspend {poller : Poller} {p : Progress σ} {last : Option (Code σ)}
    (h : w.suspend m poller k p last stack = some r) :
    (∀ j, r.world.signal? j = w.signal? j) ∧ ∀ j, choresOf j r.stack = choresOf j stack := by
  cases poller with
  | entry =>
    have hclose := w.signal?_closeWindow k
    cases spawn_cases h with
    | queued | polled => exact ⟨hclose, fun _ => rfl⟩
    | missing _ _ h | dropped _ h =>
      obtain ⟨hs, hc⟩ := tolls_letsGo h
      exact ⟨fun j => (hs j).trans (hclose j), hc⟩
  | spawner | executor =>
    obtain rfl := Option.some.inj h
    exact ⟨fun _ => rfl, fun _ => rfl⟩

theorem tolls_finish {poller : Poller} {cleanup : Bool}
    (h : w.finish poller k cleanup stack = some r) : r.Tolls w stack := by
  obtain ⟨a, -, rfl⟩ := finish_eq_some h
  cases poller with
  | entry => cases cleanup <;> exact .still (w.signal?_closeWindow k) fun _ => rfl
  | spawner | executor => cases cleanup <;> exact .still (fun _ => rfl) fun _ => rfl

/-- **What a future does to the signals**, unless it waits for one. -/
theorem tolls_advance {poller : Poller} {p : Progress σ}
    (h : w.advance m poller k stack p = some r) (hp : ∀ j next last, p ≠ .awaiting j next last) :
    r.Tolls w stack := by
  cases advance_cases h with
  | goOn | act => exact .still (fun _ => rfl) fun _ => rfl
  | finish _ h => exact tolls_finish h
  | yield h =>
    obtain ⟨hs, hc⟩ := tolls_suspend h
    exact .still (fun j => (hs j).trans (signal?_same (activations_fireWaker _) j)) hc
  | stall _ h =>
    obtain ⟨hs, hc⟩ := tolls_suspend h
    exact .still hs hc
  | @wait j next last => exact absurd rfl (hp j next last)

/-! ### Frames -/

/-- **What a frame does to the signals** when something has ended, unless it goes on with an
abort. -/
theorem tolls_proceed {e : Ending σ} {f : Frame σ} (h : w.proceed m e stack f = some r)
    (hf : ∀ j wakers cleanup, f ≠ .exiting j wakers cleanup) : r.Tolls w (f :: stack) := by
  cases proceed_cases h with
  | resume | pinning | farewell | settle | acting | dropped | refused | notified | notifies =>
    exact .still (fun _ => rfl) fun _ => rfl
  | exited k wakers | cleanup k wakers => exact absurd rfl (hf k wakers _)
  | owning h | rejects _ h => exact (tolls_release h).after rfl (fun _ => rfl) fun _ => rfl
  | changing h => exact (tolls_change h).after rfl (fun _ => rfl) fun _ => rfl
  | entering h => exact (tolls_enter h).after rfl (fun _ => rfl) fun _ => rfl
  | body h => exact (tolls_conclude h).after rfl (fun _ => rfl) fun _ => rfl
  | stores _ h => exact (tolls_store h).after rfl (fun _ => rfl) fun _ => rfl

end World

end Statechart
