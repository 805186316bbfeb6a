import Statechart.Proofs.Run.Inversion

/-!
Who waits for a signal, and who is going to wake them. The wakers that wait for a signal are those
that it holds, and once it has fired those that its exit has taken over. User code, and what the
library does around it, leaves the tasks of the executor alone, and of the signals it can fire one
at most, whose wakers it hands over to the exit.
-/

namespace Statechart

variable {σ : Signature} {m : Machine σ} {w w' : World σ} {stack : List (Frame σ)} {r : Run σ}
  {i : InstanceId} {k : ActivationId}

/-! ### Sleepers -/

/-- The wakers that the signal of activation `j` holds. -/
def World.wakersOf (w : World σ) (j : ActivationId) : List Waker :=
  ((w.activations.get? j).map fun a => a.signal.wakers).getD []

/-- The wakers that a frame wakes for the signal of activation `j`. -/
def Frame.rouses (j : ActivationId) : Frame σ → List Waker
  | .exiting k wakers _ => if k = j then wakers else []
  | _ => []

/-- The wakers that the frames of a stack wake for the signal of activation `j`. -/
def rousedBy (stack : List (Frame σ)) (j : ActivationId) : List Waker :=
  stack.flatMap (Frame.rouses j)

/-- Who sleeps until the signal of activation `j` wakes them: the wakers that it holds, and those
that its exit has taken over. -/
def World.sleepers (w : World σ) (stack : List (Frame σ)) (j : ActivationId) : List Waker :=
  w.wakersOf j ++ rousedBy stack j

/-- Whether a frame wakes no one, and belongs to no poll. -/
def Frame.mild : Frame σ → Bool
  | .exiting .. => false
  | .acting .. => false
  | _ => true

theorem Frame.rouses_of_mild {f : Frame σ} (h : f.mild = true) (j : ActivationId) :
    f.rouses j = [] := by
  cases f <;> first | rfl | cases h

theorem Frame.polls_of_mild {f : Frame σ} (h : f.mild = true) (t : TaskId) : f.polls t = false := by
  cases f <;> first | rfl | cases h

theorem rousedBy_cons (f : Frame σ) (stack : List (Frame σ)) (j : ActivationId) :
    rousedBy (f :: stack) j = f.rouses j ++ rousedBy stack j := rfl

theorem rousedBy_mild {new : List (Frame σ)} (h : new.all Frame.mild = true) (j : ActivationId) :
    rousedBy (new ++ stack) j = rousedBy stack j := by
  induction new with
  | nil => rfl
  | cons f new ih =>
    rw [List.all_cons, Bool.and_eq_true] at h
    rw [List.cons_append, rousedBy_cons, Frame.rouses_of_mild h.1, ih h.2, List.nil_append]

theorem polls_mild {new : List (Frame σ)} (h : new.all Frame.mild = true) (t : TaskId) :
    (new ++ stack).countP (Frame.polls t) = stack.countP (Frame.polls t) := by
  induction new with
  | nil => rfl
  | cons f new ih =>
    rw [List.all_cons, Bool.and_eq_true] at h
    rw [List.cons_append, List.countP_cons_of_neg (by simp [Frame.polls_of_mild h.1]), ih h.2]

/-- A frame that wakes `v` for `j` is an exit of `j` that has taken `v` over. -/
theorem mem_rousedBy {j : ActivationId} {v : Waker} : v ∈ rousedBy stack j ↔
    ∃ wakers cleanup, .exiting j wakers cleanup ∈ stack ∧ v ∈ wakers := by
  rw [rousedBy, List.mem_flatMap]
  constructor
  · rintro ⟨f, hf, hv⟩
    cases f with
    | exiting k wakers cleanup =>
      rw [Frame.rouses] at hv
      split at hv
      · next h =>
        subst h
        exact ⟨wakers, cleanup, hf, hv⟩
      · cases hv
    | _ => cases hv
  · rintro ⟨wakers, cleanup, hf, hv⟩
    exact ⟨_, hf, by rwa [Frame.rouses, if_pos rfl]⟩

/-! ### Signals of a changed world -/

/-- The flag and the wakers of the signal of activation `j`. -/
def World.bell (w : World σ) (j : ActivationId) : Bool × List Waker := (w.aborted j, w.wakersOf j)

namespace World

theorem bell_of_get? {j : ActivationId} {a : Activation σ} (h : w.activations.get? j = some a) :
    w.bell j = (a.signal.aborted, a.signal.wakers) := by
  simp [bell, aborted, wakersOf, h]

theorem bell_of_none {j : ActivationId} (h : w.activations.get? j = none) :
    w.bell j = (false, []) := by
  simp [bell, aborted, wakersOf, h]

/-- A change of an activation that leaves the flag and the wakers of its signal alone. -/
theorem bell_modifyActivation {f : Activation σ → Activation σ}
    (hf : ∀ a, (f a).signal.aborted = a.signal.aborted ∧ (f a).signal.wakers = a.signal.wakers)
    (k j : ActivationId) : (w.modifyActivation k f).bell j = w.bell j := by
  have hget := w.activations.get?_modify f k j
  cases hj : w.activations.get? j with
  | none =>
    have hnone : (w.modifyActivation k f).activations.get? j = none := by
      refine hget.trans ?_
      split <;> simp [hj]
    rw [bell_of_none hj, bell_of_none hnone]
  | some a =>
    by_cases h : j = k
    · have hsome : (w.modifyActivation k f).activations.get? j = some (f a) := by
        refine hget.trans ?_
        rw [if_pos h, hj]
        rfl
      rw [bell_of_get? hj, bell_of_get? hsome, (hf a).1, (hf a).2]
    · have hsome : (w.modifyActivation k f).activations.get? j = some a := by
        refine hget.trans ?_
        rw [if_neg h, hj]
      rw [bell_of_get? hj, bell_of_get? hsome]

/-- The signal of a new activation has not fired, and no one waits for it. -/
theorem bell_push {a : Activation σ} (ha : a.signal = {}) (j : ActivationId) :
    ({ w with activations := w.activations.push a } : World σ).bell j = w.bell j := by
  have hget := w.activations.get?_push a j
  by_cases h : j = w.activations.size
  · have hnone : w.activations.get? j = none :=
      (w.activations.get?_eq_none_iff j).2 (Nat.le_of_eq h.symm)
    rw [if_pos h] at hget
    rw [bell_of_none hnone, bell_of_get? hget, ha]
  · rw [if_neg h] at hget
    simp only [bell, aborted, wakersOf, hget]

theorem bell_setObserver (k : ActivationId) (b : Code σ) (j : ActivationId) :
    (w.modifyActivation k fun a => { a with signal := a.signal.setObserver b }).bell j =
      w.bell j := by
  refine bell_modifyActivation (fun a => ⟨a.signal.aborted_setObserver b, ?_⟩) k j
  change (a.signal.setObserver b).wakers = a.signal.wakers
  unfold Signal.setObserver
  split <;> rfl

/-- The world in which the waker `v` waits for the signal of activation `j`. -/
def enlist (w : World σ) (j : ActivationId) (v : Waker) : World σ :=
  w.modifyActivation j fun a => { a with signal := a.signal.register v }

/-- A signal that has not fired holds the waker, once. -/
theorem bell_enlist_self {j : ActivationId} (hj : j < w.activations.size)
    (ha : w.aborted j = false) (v : Waker) : (w.enlist j v).bell j =
      (false, if v ∈ w.wakersOf j then w.wakersOf j else w.wakersOf j ++ [v]) := by
  obtain ⟨a, hget⟩ := Option.isSome_iff_exists.1 ((w.activations.isSome_get? j).2 hj)
  have hflag : a.signal.aborted = false := (Prod.mk.inj (bell_of_get? hget)).1.symm.trans ha
  have hwakers : w.wakersOf j = a.signal.wakers := (Prod.mk.inj (bell_of_get? hget)).2
  have hmodify : (w.enlist j v).activations.get? j = _ :=
    w.activations.get?_modify (fun a => { a with signal := a.signal.register v }) j j
  rw [if_pos rfl, hget, Option.map_some] at hmodify
  rw [bell_of_get? hmodify, hwakers]
  simp only [Signal.register, hflag, Bool.false_or, List.contains_iff_mem]
  split <;> simp [hflag]

theorem bell_enlist_of_ne {i j : ActivationId} (h : i ≠ j) (v : Waker) :
    (w.enlist j v).bell i = w.bell i := by
  have hmodify : (w.enlist j v).activations.get? i = _ :=
    w.activations.get?_modify (fun a => { a with signal := a.signal.register v }) j i
  rw [if_neg h] at hmodify
  simp only [bell, aborted, wakersOf, hmodify]

end World

/-- A list to which a waker is added unless it holds it has it once. -/
theorem nodup_enlisted {v : Waker} {xs : List Waker} (h : xs.Nodup) :
    (if v ∈ xs then xs else xs ++ [v]).Nodup := by
  split
  · exact h
  · next hv =>
    refine List.nodup_append.2 ⟨h, by simp, fun u hu u' hu' => ?_⟩
    obtain rfl := List.mem_singleton.1 hu'
    exact fun heq => hv (heq ▸ hu)

theorem mem_enlisted {u v : Waker} {xs : List Waker} :
    u ∈ (if v ∈ xs then xs else xs ++ [v]) ↔ u = v ∨ u ∈ xs := by
  split
  · next hv =>
    constructor
    · exact .inr
    · rintro (rfl | hu)
      · exact hv
      · exact hu
  · simp [or_comm]

/-! ### What leaves the executor alone -/

/-- Whether the executor polls task `t`. -/
def Control.polls (t : TaskId) : Control σ → Bool
  | .future (.executor u) _ _ => t = u
  | _ => false

/-- Whether the executor polls task `t`, perhaps in the middle of something else. -/
def Run.polling (r : Run σ) (t : TaskId) : Bool := r.control.polls t || r.stack.any (Frame.polls t)

/-- How many polls of task `t` are under way. -/
def Run.polls (r : Run σ) (t : TaskId) : Nat :=
  (r.control.polls t).toNat + r.stack.countP (Frame.polls t)

theorem Run.polls_eq_zero {t : TaskId} : r.polls t = 0 ↔ r.polling t = false := by
  rw [polls, polling, Nat.add_eq_zero_iff, List.countP_eq_zero, Bool.or_eq_false_iff,
    List.any_eq_false]
  cases r.control.polls t <;> simp

/-- Nothing polls the task but the frames of the stack. -/
theorem Run.polling_eq_any {t : TaskId} (h : r.polls t = stack.countP (Frame.polls t)) :
    r.polling t = stack.any (Frame.polls t) := by
  have hiff : r.polling t = false ↔ stack.any (Frame.polls t) = false := by
    rw [← polls_eq_zero, h, List.countP_eq_zero, List.any_eq_false]
  cases hr : r.polling t <;> cases hs : stack.any (Frame.polls t) <;> simp_all

/-- As many polls of a task are under way in the one run as in the other. -/
theorem Run.polling_congr {r' : Run σ} {t : TaskId} (h : r'.polls t = r.polls t) :
    r'.polling t = r.polling t := by
  have hiff : r'.polling t = false ↔ r.polling t = false := by
    rw [← polls_eq_zero, ← polls_eq_zero, h]
  cases hr : r.polling t <;> cases hr' : r'.polling t <;> simp_all

/-- The task that is woken. -/
def Event.woken? : Event σ → Option TaskId
  | woken t => some t
  | _ => none

/-- The tasks that were woken, the latest first, each as often as it was. -/
def World.wokenTasks (w : World σ) : List TaskId := w.journal.filterMap Event.woken?

/-- From the world `w` over `stack` to the run, whoever slept still does: a signal that has fired in
between has handed its wakers over to an exit. -/
structure Run.Unroused (w : World σ) (stack : List (Frame σ)) (r : Run σ) : Prop where
  sleepers : ∀ j, r.world.sleepers r.stack j = w.sleepers stack j
  /-- A signal that has fired stays so, with the wakers that it holds. -/
  fired : ∀ j, w.aborted j = true → r.world.bell j = w.bell j
  /-- No exit takes anything over from a signal that has not fired. -/
  unfired : ∀ j, r.world.aborted j = false → rousedBy r.stack j = rousedBy stack j
  /-- A signal that has just fired holds no wakers. -/
  firing : ∀ j, w.aborted j = false → r.world.aborted j = true → r.world.wakersOf j = []

/-- Beyond that, the executor has been left alone. -/
structure Run.Undisturbed (w : World σ) (stack : List (Frame σ)) (r : Run σ) : Prop
    extends Run.Unroused w stack r where
  tasks : r.world.tasks = w.tasks
  ready : r.world.ready = w.ready
  woken : r.world.wokenTasks = w.wokenTasks
  polls : ∀ t, r.polls t = stack.countP (Frame.polls t)

/-- The signals are as they were, and so are the exits under way. -/
theorem Run.Unroused.of_same (hb : ∀ j, r.world.bell j = w.bell j)
    (hs : ∀ j, rousedBy r.stack j = rousedBy stack j) : r.Unroused w stack where
  sleepers j := by rw [World.sleepers, World.sleepers, hs, (Prod.mk.inj (hb j)).2]
  fired j _ := hb j
  unfired j _ := hs j
  firing j h h' := by
    rw [(Prod.mk.inj (hb j)).1, h] at h'
    cases h'

namespace Run.Undisturbed

/-- Mild frames may be added. -/
theorem push (new : List (Frame σ)) {c : Control σ} (ht : w'.tasks = w.tasks)
    (hr : w'.ready = w.ready) (hw : w'.wokenTasks = w.wokenTasks)
    (hb : ∀ j, w'.bell j = w.bell j) (hc : ∀ t, c.polls t = false)
    (hn : new.all Frame.mild = true) : Undisturbed w stack ⟨w', c, new ++ stack⟩ where
  toUnroused := .of_same hb (rousedBy_mild hn)
  tasks := ht
  ready := hr
  woken := hw
  polls t := by rw [Run.polls, hc, polls_mild hn, Bool.toNat_false, Nat.zero_add]

theorem same {c : Control σ} (ht : w'.tasks = w.tasks) (hr : w'.ready = w.ready)
    (hw : w'.wokenTasks = w.wokenTasks) (hb : ∀ j, w'.bell j = w.bell j)
    (hc : ∀ t, c.polls t = false) : Undisturbed w stack ⟨w', c, stack⟩ :=
  push [] ht hr hw hb hc rfl

/-- A mild frame at the front makes no difference. -/
theorem mild_iff {f : Frame σ} (hf : f.mild = true) :
    r.Undisturbed w (f :: stack) ↔ r.Undisturbed w stack := by
  have hroused (j) : rousedBy (f :: stack) j = rousedBy stack j := by
    rw [rousedBy_cons, Frame.rouses_of_mild hf, List.nil_append]
  have hpolls (t) : (f :: stack).countP (Frame.polls t) = stack.countP (Frame.polls t) :=
    List.countP_cons_of_neg (by simp [Frame.polls_of_mild hf])
  have hsleepers (j) : w.sleepers (f :: stack) j = w.sleepers stack j := by
    rw [World.sleepers, World.sleepers, hroused]
  constructor
  · intro h
    exact ⟨⟨fun j => (h.sleepers j).trans (hsleepers j), h.fired,
      fun j hj => (h.unfired j hj).trans (hroused j), h.firing⟩, h.tasks, h.ready, h.woken,
      fun t => (h.polls t).trans (hpolls t)⟩
  · intro h
    exact ⟨⟨fun j => (h.sleepers j).trans (hsleepers j).symm, h.fired,
      fun j hj => (h.unfired j hj).trans (hroused j).symm, h.firing⟩, h.tasks, h.ready, h.woken,
      fun t => (h.polls t).trans (hpolls t).symm⟩

theorem below {f : Frame σ} (h : r.Undisturbed w (f :: stack)) (hf : f.mild = true) :
    r.Undisturbed w stack :=
  (mild_iff hf).1 h

/-- What changes neither tasks nor signals may come first. -/
theorem after (h : r.Undisturbed w' stack) (ht : w'.tasks = w.tasks) (hr : w'.ready = w.ready)
    (hw : w'.wokenTasks = w.wokenTasks) (hb : ∀ j, w'.bell j = w.bell j) :
    r.Undisturbed w stack where
  tasks := h.tasks.trans ht
  ready := h.ready.trans hr
  woken := h.woken.trans hw
  polls := h.polls
  sleepers j := by
    rw [h.sleepers, World.sleepers, World.sleepers, (Prod.mk.inj (hb j)).2]
  fired j hj := by
    rw [← (Prod.mk.inj (hb j)).1] at hj
    rw [h.fired j hj, hb]
  unfired := h.unfired
  firing j hj := h.firing j ((Prod.mk.inj (hb j)).1.trans hj)

end Run.Undisturbed

namespace World

/-! ### Exits and entries -/

theorem bell_closeWindow (w : World σ) (k j : ActivationId) : (w.closeWindow k).bell j = w.bell j :=
  bell_modifyActivation (f := fun a => { a with windowOpen := false }) (fun _ => ⟨rfl, rfl⟩) k j

/-- The wakers that a signal holds are those that it wakes when it fires, or it keeps them. -/
theorem fire_woken (s : Signal (Code σ)) : s.fire.wakers ++ s.woken = s.wakers := by
  unfold Signal.fire Signal.woken
  split
  · exact List.append_nil _
  · exact List.nil_append _

/-- An exit takes over the wakers of the signal that it fires. -/
theorem undisturbed_exiting {a : Activation σ} (hk : w.activations.get? k = some a)
    (hk' : w'.activations.get? k = some a.tornDown)
    (hne : ∀ j, j ≠ k → w'.activations.get? j = w.activations.get? j) (ht : w'.tasks = w.tasks)
    (hr : w'.ready = w.ready) (hw : w'.wokenTasks = w.wokenTasks) {c : Control σ}
    (hc : ∀ t, c.polls t = false) (cleanup : Option (Cleanup σ)) :
    Run.Undisturbed w stack ⟨w', c, .exiting k a.signal.woken cleanup :: stack⟩ := by
  have hbell : w'.bell k = (true, a.signal.fire.wakers) := by
    rw [bell_of_get? hk', Activation.tornDown, Signal.aborted_fire]
  have hbells (j) (hj : j ≠ k) : w'.bell j = w.bell j := by
    simp only [bell, aborted, wakersOf, hne j hj]
  have hroused (j) (hj : j ≠ k) : rousedBy (.exiting k a.signal.woken cleanup :: stack) j =
      rousedBy stack j := by
    rw [rousedBy_cons, Frame.rouses, if_neg (Ne.symm hj), List.nil_append]
  have hflag : w.aborted k = a.signal.aborted := (Prod.mk.inj (bell_of_get? hk)).1
  have hwakers : w.wakersOf k = a.signal.wakers := (Prod.mk.inj (bell_of_get? hk)).2
  refine ⟨⟨?sleepers, ?fired, ?unfired, ?firing⟩, ht, hr, hw, ?polls⟩
  case sleepers =>
    intro j
    by_cases h : j = k
    · subst h
      rw [sleepers, sleepers, (Prod.mk.inj hbell).2, hwakers, rousedBy_cons, Frame.rouses,
        if_pos rfl, ← List.append_assoc, fire_woken]
    · rw [sleepers, sleepers, (Prod.mk.inj (hbells j h)).2, hroused j h]
  case fired =>
    intro j hj
    by_cases h : j = k
    · subst h
      rw [hflag] at hj
      rw [hbell, bell_of_get? hk, hj, Signal.fire, if_pos hj]
    · exact hbells j h
  case unfired =>
    intro j hj
    by_cases h : j = k
    · subst h
      rw [(Prod.mk.inj hbell).1] at hj
      cases hj
    · exact hroused j h
  case firing =>
    intro j hj hj'
    by_cases h : j = k
    · subst h
      rw [hflag] at hj
      rw [(Prod.mk.inj hbell).2, Signal.fire, if_neg (by simp [hj])]
    · rw [(Prod.mk.inj (hbells j h)).1, hj] at hj'
      cases hj'
  case polls =>
    intro t
    rw [Run.polls, hc, Bool.toNat_false, Nat.zero_add]
    exact List.countP_cons_of_neg Bool.false_ne_true

theorem undisturbed_exit (h : w.exit i stack = some r) : r.Undisturbed w stack := by
  cases exit_cases h with
  | vacant => exact .same rfl rfl rfl (fun _ => rfl) fun _ => rfl
  | @active inst k a hi ha hk =>
    have hget := w.activations.get?_modify Activation.tornDown k
    have hk' := hget k
    rw [if_pos rfl, hk] at hk'
    have hne (j) (hj : j ≠ k) := (hget j).trans (if_neg hj)
    unfold observing
    split <;>
    · refine undisturbed_exiting hk hk' hne ?_ ?_ ?_ ?_ _
      · rfl
      · rfl
      · rfl
      · exact fun _ => rfl

/-- Giving up a share wakes no one, but for the exit of what the last owner leaves behind. -/
theorem undisturbed_release {e : Ending σ} (h : w.release i e stack = some r) :
    r.Undisturbed w stack := by
  cases release_cases h with
  | shared => exact .same rfl rfl rfl (fun _ => rfl) fun _ => rfl
  | last _ h => exact ((undisturbed_exit h).below rfl).after rfl rfl rfl fun _ => rfl

theorem undisturbed_dispatch {caller : Caller} {a : σ.Action} {p : Option σ.Payload}
    (h : w.dispatch m i caller a p stack = some r) : r.Undisturbed w stack := by
  cases dispatch_cases h with
  | ignored | dangles => exact .same rfl rfl rfl (fun _ => rfl) fun _ => rfl
  | departs _ _ _ h => exact ((undisturbed_exit h).below rfl).after rfl rfl rfl fun _ => rfl

theorem undisturbed_change {t : σ.State} {a : σ.Action} {p : Option σ.Payload}
    (h : w.change i t a p stack = some r) : r.Undisturbed w stack := by
  obtain ⟨inst, -, rfl⟩ := change_eq_some h
  exact .push [_, _] rfl rfl rfl (fun _ => rfl) (fun _ => rfl) rfl

theorem undisturbed_enter {tr : Trigger σ.Action} {p : Option σ.Payload}
    (h : w.enter m i tr p stack = some r) : r.Undisturbed w stack := by
  cases enter_cases h with
  | bare => exact .same rfl rfl rfl (fun _ => rfl) fun _ => rfl
  | starts | displaces =>
    exact .push [_] rfl rfl rfl (fun j => bell_push (w := w) rfl j) (fun _ => rfl) rfl

theorem undisturbed_keepCleanup {c : Code σ} (h : w.keepCleanup k c stack = some r) :
    r.Undisturbed w stack := by
  cases keepCleanup_cases h with
  | atOnce => exact .push [_] rfl rfl rfl (fun _ => rfl) (fun _ => rfl) rfl
  | forgone => exact .same rfl rfl rfl (fun _ => rfl) fun _ => rfl
  | @kept a inst j =>
    exact .same rfl rfl rfl (bell_modifyActivation (w := w)
      (f := fun b => { b with cleanup := some ⟨k, c⟩ }) (fun _ => ⟨rfl, rfl⟩) j) fun _ => rfl

theorem undisturbed_conclude {e : Ending σ} (h : w.conclude k e stack = some r) :
    r.Undisturbed w stack := by
  cases conclude_cases h with
  | error | done => exact .same rfl rfl rfl (w.bell_closeWindow k) fun _ => rfl
  | cleanup h => exact (undisturbed_keepCleanup h).after rfl rfl rfl (w.bell_closeWindow k)
  | pending => exact .same rfl rfl rfl (fun _ => rfl) fun _ => rfl

/-! ### Operations -/

theorem undisturbed_setContext {t : Target σ} {c : σ.Context} {next : Code σ}
    (h : w.setContext t c next stack = some r) : r.Undisturbed w stack := by
  cases setContext_cases h with
  | bare | expired | late => exact .same rfl rfl rfl (fun _ => rfl) fun _ => rfl
  | written => exact .push [_, _] rfl rfl rfl (fun _ => rfl) (fun _ => rfl) rfl

theorem undisturbed_forward {t : Target σ} {a : σ.Action} {p : Option σ.Payload}
    {next : Reply → Code σ} (h : w.forward m t a p next stack = some r) :
    r.Undisturbed w stack := by
  cases forward_cases h with
  | bare | expired | orphaned => exact .same rfl rfl rfl (fun _ => rfl) fun _ => rfl
  | dispatched _ _ _ _ h => exact ((undisturbed_dispatch h).below rfl).below rfl

theorem undisturbed_onAbort (t : Target σ) (observer next : Code σ) :
    (w.onAbort t observer next stack).Undisturbed w stack := by
  unfold onAbort
  split
  · exact .same rfl rfl rfl (fun _ => rfl) fun _ => rfl
  · split
    · exact .same rfl rfl rfl (fun _ => rfl) fun _ => rfl
    · exact .same rfl rfl rfl (w.bell_setObserver _ observer) fun _ => rfl

theorem undisturbed_start (t : Target σ) (slot : String) (s : σ.State) (c : σ.Context)
    (next : Reply → Code σ) : (w.start m t slot s c next stack).Undisturbed w stack := by
  unfold start
  split
  · exact .push [_, _, _] rfl rfl rfl (fun _ => rfl) (fun _ => rfl) rfl
  · exact .same rfl rfl rfl (fun _ => rfl) fun _ => rfl

theorem undisturbed_store {slot : String} (h : w.store slot i stack = some r) :
    r.Undisturbed w stack := by
  cases store_cases h with
  | empty => exact .same rfl rfl rfl (fun _ => rfl) fun _ => rfl
  | replaces _ h => exact (undisturbed_release h).after rfl rfl rfl fun _ => rfl

theorem undisturbed_unwatch (i : InstanceId) (id : SubscriptionId) {c : Control σ}
    (hc : ∀ t, c.polls t = false) :
    Run.Undisturbed w stack ⟨(w.unwatch i id).2, c, stack⟩ := by
  unfold unwatch
  split
  · exact .same rfl rfl rfl (fun _ => rfl) hc
  · split
    · exact .same rfl rfl rfl (fun _ => rfl) hc
    · split <;> exact .same rfl rfl rfl (fun _ => rfl) hc

/-- User code wakes no one. -/
theorem undisturbed_perform {t : Target σ} {c : Code σ} (h : w.perform m t stack c = some r) :
    r.Undisturbed w stack := by
  cases perform_cases h with
  | finish | raise | emit | idle | keep => exact .same rfl rfl rfl (fun _ => rfl) fun _ => rfl
  | stateUnwatched | watchState | contextUnwatched | watchContext | unknown =>
    exact .same rfl rfl rfl (fun _ => rfl) fun _ => rfl
  | setContext h => exact undisturbed_setContext h
  | dispatch h => exact undisturbed_forward h
  | onAbort observer next => exact undisturbed_onAbort t observer next
  | @clearAbort k =>
    exact .same rfl rfl rfl (bell_modifyActivation
      (f := fun a => { a with signal := a.signal.clearObserver }) (fun _ => ⟨rfl, rfl⟩) k)
      fun _ => rfl
  | within | unheld => exact .push [_] rfl rfl rfl (fun _ => rfl) (fun _ => rfl) rfl
  | holding => exact .push [_, _] rfl rfl rfl (fun _ => rfl) (fun _ => rfl) rfl
  | place slot o next =>
    cases o with
    | fresh | recovered => exact undisturbed_start ..
    | resumed => exact (undisturbed_start (w := w.record _) ..).after rfl rfl rfl fun _ => rfl
  | send _ h => exact ((undisturbed_dispatch h).below rfl).below rfl
  | drop _ h => exact ((undisturbed_release h).below rfl).after rfl rfl rfl fun _ => rfl
  | unwatch => exact undisturbed_unwatch _ _ fun _ => rfl

/-- A mild frame wakes no one. -/
theorem undisturbed_proceed {e : Ending σ} {f : Frame σ} (hf : f.mild = true)
    (h : w.proceed m e stack f = some r) : r.Undisturbed w stack := by
  cases proceed_cases h with
  | exited | cleanup | acting => cases hf
  | resume | pinning | farewell | settle | dropped | refused | notified =>
    exact .same rfl rfl rfl (fun _ => rfl) fun _ => rfl
  | notifies n => exact .push [_] rfl rfl (by cases n <;> rfl) (fun _ => rfl) (fun _ => rfl) rfl
  | owning h | rejects _ h => exact undisturbed_release h
  | changing h => exact undisturbed_change h
  | entering h => exact undisturbed_enter h
  | body h => exact undisturbed_conclude h
  | stores _ h => exact undisturbed_store h

/-! ### Polls -/

/-- What a step of a poll of the future of `k` does, which has come to a progress. -/
inductive Advance (m : Machine σ) (w : World σ) (poller : Poller) (k : ActivationId)
    (stack : List (Frame σ)) : Progress σ → Run σ → Prop
  /-- The poll goes on. -/
  | goOn {p r} (hw : r.world = w) (hs : ∀ j, rousedBy r.stack j = rousedBy stack j)
      (hp : ∀ t, r.polls t = Run.polls ⟨w, .future poller k p, stack⟩ t)
      (ha : ∀ j next last, p = .awaiting j next last → w.aborted j = true) :
      Advance m w poller k stack p r
  /-- The future is over. -/
  | finish {p r} (b) (hp : ∀ j next last, p ≠ .awaiting j next last)
      (h : w.finish poller k b stack = some r) : Advance m w poller k stack p r
  /-- The future suspends without waiting for a signal. -/
  | suspend {p p' w' last r} (hp : ∀ j next last, p ≠ .awaiting j next last)
      (hw : w' = w ∨ w' = w.fireWaker poller.waker)
      (h : w'.suspend m poller k p' last stack = some r)
      (hp' : ∀ j next last, p' ≠ .awaiting j next last) : Advance m w poller k stack p r
  /-- The future waits for a signal that has not fired. -/
  | wait {j next last r} (ha : w.aborted j = false)
      (h : (w.enlist j poller.waker).suspend m poller k (.awaiting j next last) last stack =
        some r) :
      Advance m w poller k stack (.awaiting j next last) r

theorem Advances.stirs {poller : Poller} {p : Progress σ}
    (h : w.Advances m poller k stack p r) : Advance m w poller k stack p r := by
  cases h with
  | goOn hp =>
    refine .goOn rfl (fun _ => rfl) (fun t => ?_) hp
    cases poller <;> rfl
  | act =>
    refine .goOn rfl (fun _ => rfl) (fun t => ?_) (by simp)
    cases poller with
    | entry | spawner => simp [Run.polls, Control.polls, Frame.polls]
    | executor u =>
      by_cases h : t = u <;>
        simp [Run.polls, Control.polls, Frame.polls, h, Nat.add_comm]
  | finish hp h => exact .finish _ hp h
  | yield h => exact .suspend (by simp) (.inr rfl) h (by simp)
  | stall hp h => exact .suspend hp (.inl rfl) h (by simp)
  | wait ha h => exact .wait ha h

/-- A poll has ended over `stack`, and has left signals and wakers as they are in the world `w`. -/
structure Rested (w : World σ) (stack : List (Frame σ)) (r : Run σ) : Prop where
  roused : ∀ j, rousedBy r.stack j = rousedBy stack j
  polls : ∀ t, r.polls t = stack.countP (Frame.polls t)
  bell : ∀ j, r.world.bell j = w.bell j
  woken : r.world.wokenTasks = w.wokenTasks

/-- Mild frames may be added. -/
theorem Rested.push (new : List (Frame σ)) {c : Control σ} (hb : ∀ j, w'.bell j = w.bell j)
    (hw : w'.wokenTasks = w.wokenTasks) (hc : ∀ t, c.polls t = false)
    (hn : new.all Frame.mild = true) : Rested w stack ⟨w', c, new ++ stack⟩ where
  roused := rousedBy_mild hn
  polls t := by rw [Run.polls, hc, polls_mild hn, Bool.toNat_false, Nat.zero_add]
  bell := hb
  woken := hw

theorem Rested.sleepers (h : Rested w stack r) (j : ActivationId) :
    r.world.sleepers r.stack j = w.sleepers stack j := by
  rw [World.sleepers, World.sleepers, h.roused, (Prod.mk.inj (h.bell j)).2]

/-- Destructors do not belong to a poll. -/
theorem rested_letsGo {last : Option (Code σ)} (hb : ∀ j, w'.bell j = w.bell j)
    (hw : w'.wokenTasks = w.wokenTasks) (h : w'.LetsGo m k stack last r) :
    Rested w stack r ∧ r.world.tasks = w'.tasks ∧ r.world.ready = w'.ready := by
  cases h with
  | gone | refused => exact ⟨.push [] hb hw (fun _ => rfl) rfl, rfl, rfl⟩
  | drops => exact ⟨.push [_] hb hw (fun _ => rfl) rfl, rfl, rfl⟩

/-- The executor keeps what it has polled, and takes what a spawner hands it as ready at once. -/
theorem suspend_cases {poller : Poller} {p : Progress σ} {last : Option (Code σ)}
    (h : w.suspend m poller k p last stack = some r) :
    Rested w stack r ∧
      ((∀ t, poller ≠ .executor t) ∧ r.world.tasks = w.tasks ∧ r.world.ready = w.ready ∨
        (∀ t, poller ≠ .executor t) ∧ r.world.tasks = w.tasks.push ⟨k, some p⟩ ∧
          r.world.ready = w.ready ++ [w.tasks.size] ∨
        ∃ t, poller = .executor t ∧ r.world.tasks = (w.setProgress t (some p)).tasks ∧
          r.world.ready = w.ready) := by
  cases poller with
  | entry =>
    have hbell := w.bell_closeWindow k
    cases spawn_cases h with
    | queued => exact ⟨.push [] hbell rfl (fun _ => rfl) rfl, .inr (.inl ⟨nofun, rfl, rfl⟩)⟩
    | polled => exact ⟨.push [] hbell rfl (fun _ => rfl) rfl, .inl ⟨nofun, rfl, rfl⟩⟩
    | missing _ _ h | dropped _ h =>
      have hclosed (e : Event σ) (j) : ((w.closeWindow k).record e).bell j = w.bell j := hbell j
      obtain ⟨hrest, ht, hr⟩ := rested_letsGo (hclosed _) rfl h
      exact ⟨hrest, .inl ⟨nofun, ht, hr⟩⟩
  | spawner =>
    obtain rfl := Option.some.inj h
    exact ⟨.push [] (fun _ => rfl) rfl (fun _ => rfl) rfl, .inr (.inl ⟨nofun, rfl, rfl⟩)⟩
  | executor t =>
    obtain rfl := Option.some.inj h
    exact ⟨.push [] (fun _ => rfl) rfl (fun _ => rfl) rfl, .inr (.inr ⟨t, rfl, rfl, rfl⟩)⟩

theorem finish_cases {poller : Poller} {b : Bool} (h : w.finish poller k b stack = some r) :
    Rested w stack r ∧ r.world.ready = w.ready ∧
      ((∀ t, poller ≠ .executor t) ∧ r.world.tasks = w.tasks ∨
        ∃ t, poller = .executor t ∧ r.world.tasks = (w.setProgress t none).tasks) := by
  obtain ⟨a, -, rfl⟩ := finish_eq_some h
  have hbell := w.bell_closeWindow k
  cases poller with
  | entry =>
    cases b <;> exact ⟨.push [] hbell rfl (fun _ => rfl) rfl, rfl, .inl ⟨nofun, rfl⟩⟩
  | spawner =>
    cases b <;> exact ⟨.push [] (fun _ => rfl) rfl (fun _ => rfl) rfl, rfl, .inl ⟨nofun, rfl⟩⟩
  | executor t =>
    cases b <;> exact ⟨.push [] (fun _ => rfl) rfl (fun _ => rfl) rfl, rfl, .inr ⟨t, rfl, rfl⟩⟩

end World

/-! ### Wake-ups -/

/-- The task that is queued again when a waker is woken. -/
def Waker.task? : Waker → Option TaskId
  | .idle => none
  | .task t => some t

/-- The second world comes of the first by waking `wakers` in order: each task among them is queued
unless it is finished, and no other task is woken. -/
structure World.Awakens (wakers : List Waker) (w w' : World σ) : Prop where
  tasks : w'.tasks = w.tasks
  activations : w'.activations = w.activations
  ready : ∀ t ∈ w.ready, t ∈ w'.ready
  queued : ∀ t, .task t ∈ wakers → t ∈ w'.ready ∨ w.finished t = true
  woken : w'.wokenTasks = (wakers.filterMap Waker.task?).reverse ++ w.wokenTasks

namespace World

theorem awakens_fireWaker (w : World σ) (x : Waker) : Awakens [x] w (w.fireWaker x) := by
  cases x with
  | idle => exact ⟨rfl, rfl, fun _ => id, by simp, rfl⟩
  | task t =>
    change Awakens [.task t] w (w.wake t)
    unfold wake
    split
    · next h =>
      refine ⟨rfl, rfl, fun _ => id, fun u hu => ?_, rfl⟩
      obtain rfl : u = t := by simpa using hu
      exact (Bool.or_eq_true_iff.1 h).imp_left List.contains_iff_mem.1
    · refine ⟨rfl, rfl, fun _ => List.mem_append_left _, fun u hu => .inl ?_, rfl⟩
      obtain rfl : u = t := by simpa using hu
      exact List.mem_append_right _ List.mem_cons_self

/-- A task that is woken is queued, unless it is finished. -/
theorem Awakens.queued_tasks {wakers : List Waker} (h : Awakens wakers w w') :
    ∀ t ∈ (wakers.filterMap Waker.task?).reverse, t ∈ w'.ready ∨ w.finished t = true := by
  intro t ht
  obtain ⟨v, hv, hvt⟩ := List.mem_filterMap.1 (List.mem_reverse.1 ht)
  cases v with
  | idle => cases hvt
  | task u =>
    obtain rfl := Option.some.inj hvt
    exact h.queued u hv

/-- Waking leaves the signals alone. -/
theorem Awakens.bell {wakers : List Waker} (h : Awakens wakers w w') (j : ActivationId) :
    w'.bell j = w.bell j := by
  rw [World.bell, World.bell, aborted, aborted, wakersOf, wakersOf, h.activations]

theorem bell_awoken {poller : Poller} (h : w' = w ∨ w' = w.fireWaker poller.waker)
    (j : ActivationId) : w'.bell j = w.bell j := by
  rcases h with rfl | rfl
  · rfl
  · exact (w.awakens_fireWaker _).bell j

theorem awakens_wakers (w : World σ) (xs : List Waker) : Awakens xs w (xs.foldl fireWaker w) := by
  induction xs generalizing w with
  | nil => exact ⟨rfl, rfl, fun _ => id, nofun, rfl⟩
  | cons x xs ih =>
    have hx := w.awakens_fireWaker x
    have hxs := ih (w.fireWaker x)
    have hfinished (t : TaskId) : (w.fireWaker x).finished t = w.finished t := by
      rw [finished, hx.tasks]
      rfl
    refine ⟨hxs.tasks.trans hx.tasks, hxs.activations.trans hx.activations,
      fun t ht => hxs.ready t (hx.ready t ht), fun t ht => ?_, ?_⟩
    · rcases List.mem_cons.1 ht with rfl | ht
      · exact (hx.queued t List.mem_cons_self).imp_left (hxs.ready t)
      · exact hfinished t ▸ hxs.queued t ht
    · rw [List.foldl_cons, hxs.woken, hx.woken, ← List.append_assoc, ← List.reverse_append,
        ← List.filterMap_append, List.singleton_append]

end World

end Statechart
