import Statechart.Proofs.Executor.Summons
import Statechart.Proofs.Lifecycle.Sound

/-!
No wake-up is lost. A signal wakes whoever has waited for it exactly once, when it is fired. So a
task that waits for a signal which has fired is in the ready queue, and the executor does not come
to a rest before it has been polled.
-/

namespace Statechart

variable {σ : Signature} {m : Machine σ} {ok : Run σ → Prop} {past : List (Run σ)} {r r' : Run σ}
  {w w' : World σ} {stack : List (Frame σ)} {k : ActivationId}

/-! ### Wakers that are woken -/

/-- **The books of the signals.** Whoever sleeps until a signal wakes them, or has been woken by it,
stands there once, and has been left by a poll that was pending. -/
structure Run.Accounted (past : List (Run σ)) (r : Run σ) : Prop where
  once : ∀ j, (r.world.sleepers r.stack j ++ roused past j).Nodup
  pended : ∀ j v, v ∈ r.world.sleepers r.stack j ++ roused past j ↔ ∃ q ∈ past, q.Pends j v
  /-- A signal that has not fired has woken no one, and no exit is about to. -/
  unfired : ∀ j, r.world.aborted j = false → rousedBy r.stack j = [] ∧ roused past j = []
  /-- A signal that has fired holds no wakers. -/
  spent : ∀ j, r.world.aborted j = true → r.world.wakersOf j = []

namespace Run.Accounted

theorem roused_cons (q : Run σ) (past : List (Run σ)) (j : ActivationId) :
    roused (q :: past) j = q.rouses j ++ roused past j := rfl

/-- A step in which whoever slept still does, and which is no poll that is pending. -/
theorem unroused (h : r.Accounted past) (hu : r'.Unroused r.world r.stack)
    (hr : ∀ j, r.rouses j = []) (hp : ∀ j v, ¬ r.Pends j v) : r'.Accounted (r :: past) := by
  have hroused (j) : roused (r :: past) j = roused past j := by
    rw [roused_cons, hr, List.nil_append]
  refine ⟨fun j => ?_, fun j v => ?_, fun j hj => ?_, fun j hj => ?_⟩
  · rw [hu.sleepers, hroused]
    exact h.once j
  · rw [hu.sleepers, hroused, h.pended]
    simp [hp]
  · have hbefore : r.world.aborted j = false := by
      by_contra hne
      have hfired := (Prod.mk.inj (hu.fired j (by simpa using hne))).1
      rw [hj] at hfired
      exact hne hfired.symm
    rw [hu.unfired j hj, hroused]
    exact h.unfired j hbefore
  · cases hbefore : r.world.aborted j with
    | false => exact hu.firing j hbefore hj
    | true => rw [(Prod.mk.inj (hu.fired j hbefore)).2, h.spent j hbefore]

/-- An exit wakes whom it has taken over. -/
theorem rouse {e : Ending σ} {wakers : List Waker} {cleanup : Option (Cleanup σ)}
    (h : Accounted past ⟨w, .ended e, .exiting k wakers cleanup :: stack⟩)
    (ha : r'.world.activations = w.activations) (hs : r'.stack = stack) :
    r'.Accounted (⟨w, .ended e, .exiting k wakers cleanup :: stack⟩ :: past) := by
  have hbell (j) : r'.world.bell j = w.bell j := by
    simp only [World.bell, World.aborted, World.wakersOf, ha]
  -- the wakers go from the stack to those that have been woken
  have hperm (j) : (r'.world.sleepers r'.stack j ++
      roused (⟨w, .ended e, .exiting k wakers cleanup :: stack⟩ :: past) j).Perm
        (w.sleepers (.exiting k wakers cleanup :: stack) j ++ roused past j) := by
    rw [World.sleepers, World.sleepers, roused_cons, rousedBy_cons, hs, (Prod.mk.inj (hbell j)).2]
    simp only [List.append_assoc]
    exact List.Perm.append_left _ (List.perm_append_comm_assoc ..)
  refine ⟨fun j => ?_, fun j v => ?_, fun j hj => ?_, fun j hj => ?_⟩
  · exact (hperm j).nodup_iff.2 (h.once j)
  · rw [(hperm j).mem_iff, h.pended]
    simp [Run.Pends]
  · rw [(Prod.mk.inj (hbell j)).1] at hj
    obtain ⟨hstack, hpast⟩ := h.unfired j hj
    rw [rousedBy_cons, List.append_eq_nil_iff] at hstack
    rw [hs, roused_cons, hpast, List.append_nil]
    exact ⟨hstack.2, hstack.1⟩
  · rw [(Prod.mk.inj (hbell j)).1] at hj
    rw [(Prod.mk.inj (hbell j)).2]
    exact h.spent j hj

/-- The poll of a signal that has not fired is pending with its own waker. -/
theorem pends_awaiting {poller : Poller} {j : ActivationId} {next : Future σ}
    {last : Option (Code σ)} (ha : w.aborted j = false) (i : ActivationId) (v : Waker) :
    Run.Pends ⟨w, .future poller k (.awaiting j next last), stack⟩ i v ↔
      i = j ∧ v = poller.waker := by
  constructor
  · rintro ⟨_, _, _, _, ⟨⟩, rfl, -⟩
    exact ⟨rfl, rfl⟩
  · rintro ⟨rfl, rfl⟩
    exact ⟨_, _, _, _, rfl, rfl, ha⟩

/-- A poll that is pending leaves its waker, unless it is there already. -/
theorem wait {poller : Poller} {j : ActivationId} {next : Future σ} {last : Option (Code σ)}
    (h : Accounted past ⟨w, .future poller k (.awaiting j next last), stack⟩)
    (hj : j < w.activations.size) (ha : w.aborted j = false)
    (hrest : World.Rested (w.enlist j poller.waker) stack r') :
    r'.Accounted (⟨w, .future poller k (.awaiting j next last), stack⟩ :: past) := by
  have hself := (hrest.bell j).trans (World.bell_enlist_self hj ha poller.waker)
  have hne (i) (hi : i ≠ j) := (hrest.bell i).trans (World.bell_enlist_of_ne hi poller.waker)
  obtain ⟨hstack, hpast⟩ := h.unfired j ha
  have hroused (i) : roused (⟨w, .future poller k (.awaiting j next last), stack⟩ :: past) i =
      roused past i := rfl
  have hother (i) (hi : i ≠ j) : r'.world.sleepers r'.stack i = w.sleepers stack i := by
    rw [World.sleepers, World.sleepers, hrest.roused, (Prod.mk.inj (hne i hi)).2]
  -- no one else has been woken for `j`, or is about to be
  have hbefore : w.sleepers stack j ++ roused past j = w.wakersOf j := by
    rw [World.sleepers, hstack, hpast, List.append_nil, List.append_nil]
  have hafter : r'.world.sleepers r'.stack j ++ roused past j =
      if poller.waker ∈ w.wakersOf j then w.wakersOf j else w.wakersOf j ++ [poller.waker] := by
    rw [World.sleepers, hrest.roused, hstack, hpast, List.append_nil, List.append_nil,
      (Prod.mk.inj hself).2]
  refine ⟨fun i => ?_, fun i v => ?_, fun i hi => ?_, fun i hi => ?_⟩
  · rw [hroused]
    by_cases hij : i = j
    · subst hij
      rw [hafter]
      exact nodup_enlisted (hbefore ▸ h.once i)
    · rw [hother i hij]
      exact h.once i
  · simp only [List.mem_cons, exists_eq_or_imp, pends_awaiting ha, hroused]
    by_cases hij : i = j
    · subst hij
      rw [hafter, mem_enlisted, ← h.pended, hbefore]
      simp
    · rw [hother i hij]
      simpa [hij] using h.pended i v
  · rw [hrest.roused, hroused]
    by_cases hij : i = j
    · subst hij
      exact ⟨hstack, hpast⟩
    · rw [(Prod.mk.inj (hne i hij)).1] at hi
      exact h.unfired i hi
  · by_cases hij : i = j
    · subst hij
      rw [(Prod.mk.inj hself).1] at hi
      cases hi
    · rw [(Prod.mk.inj (hne i hij)).1] at hi
      rw [(Prod.mk.inj (hne i hij)).2]
      exact h.spent i hi

/-- A step keeps the books. -/
theorem step (h : r.Accounted past) (hg : r.Grounded) (hs : r.step m = some r') :
    r'.Accounted (r :: past) := by
  cases Run.stir hs with
  | alone _ hr hp hu => exact h.unroused hu.toUnroused hr hp
  | poll hadvance =>
    cases hadvance with
    | goOn hw hroused _ ha =>
      refine h.unroused (.of_same (fun j => by rw [hw]) hroused) (fun _ => rfl) ?_
      rintro j v ⟨_, _, next, last, ⟨⟩, -, hj⟩
      rw [ha j next last rfl] at hj
      cases hj
    | finish b hp hfinish =>
      obtain ⟨hrest, -⟩ := World.finish_cases hfinish
      refine h.unroused (.of_same hrest.bell hrest.roused) (fun _ => rfl) ?_
      rintro j v ⟨_, _, next, last, ⟨⟩, -⟩
      exact hp _ _ _ rfl
    | suspend hp hw hsuspend _ =>
      obtain ⟨hrest, -⟩ := World.suspend_cases hsuspend
      refine h.unroused (.of_same (fun j => (hrest.bell j).trans (World.bell_awoken hw j))
        hrest.roused) (fun _ => rfl) ?_
      rintro j v ⟨_, _, next, last, ⟨⟩, -⟩
      exact hp _ _ _ rfl
    | wait ha hsuspend =>
      obtain ⟨hrest, -⟩ := World.suspend_cases hsuspend
      exact h.wait (hg _ rfl) ha hrest
  | rouse hw hstack _ => exact h.rouse hw.activations hstack

/-- Turns leave the books alone. -/
theorem turn (h : r.Accounted past) (ht : r.Turn r') : r'.Accounted past := by
  cases ht with
  | code c => exact ⟨h.once, h.pended, h.unfired, h.spent⟩
  | future f => exact ⟨h.once, h.pended, h.unfired, h.spent⟩
  | poll hu hp hs => exact ⟨h.once, h.pended, h.unfired, h.spent⟩
  | call c => exact ⟨h.once, h.pended, h.unfired, h.spent⟩
  | handle c hk => exact ⟨h.once, h.pended, h.unfired, h.spent⟩
  | executor hpoll =>
    obtain ⟨t, task, p, rest, -, rfl⟩ := World.ofPoll?_eq_some hpoll
    exact ⟨h.once, h.pended, h.unfired, h.spent⟩

end Run.Accounted

theorem Trail.accounted (h : Trail m Run.Grounded past r) : r.Accounted past := by
  induction h with
  | start c =>
    refine ⟨fun _ => List.nodup_nil, fun _ _ => ⟨nofun, ?_⟩, fun _ _ => ⟨rfl, rfl⟩, fun _ _ => rfl⟩
    rintro ⟨q, hq, -⟩
    cases hq
  | step _ hg hs ih => exact ih.step hg hs
  | turn _ ht ih => exact ih.turn ht

/-! ### No wake-up is lost -/

/-- A signal that has fired stays so, whatever is done. -/
theorem Run.Path.aborted (h : r.Path m ok r') {j : ActivationId} (hj : r.world.aborted j = true) :
    r'.world.aborted j = true := by
  induction h with
  | refl => exact hj
  | step _ _ hs ih => exact Run.aborted_step hs ih
  | turn _ ht ih =>
    cases ht with
    | executor hpoll =>
      obtain ⟨t, task, p, rest, -, rfl⟩ := World.ofPoll?_eq_some hpoll
      exact ih
    | _ => exact ih

/-- While a signal has not fired, it is only held. -/
theorem Run.Accounted.holds (h : r.Accounted past) {j : ActivationId}
    (hj : r.world.aborted j = false) : roused past j = [] ∧ (r.world.wakersOf j).Nodup ∧
      ∀ v, v ∈ r.world.wakersOf j ↔ ∃ q ∈ past, q.Pends j v := by
  obtain ⟨hstack, hpast⟩ := h.unfired j hj
  have hheld : r.world.sleepers r.stack j ++ roused past j = r.world.wakersOf j := by
    rw [World.sleepers, hstack, hpast, List.append_nil, List.append_nil]
  exact ⟨hpast, hheld ▸ h.once j, fun v => hheld ▸ h.pended j v⟩

/-- Once a signal has fired and its exit is past that, all has been woken that was held. -/
theorem Run.Accounted.woke (h : r.Accounted past) {j : ActivationId}
    (hj : r.world.aborted j = true)
    (hs : ∀ wakers cleanup, .exiting j wakers cleanup ∉ r.stack) :
    r.world.wakersOf j = [] ∧ ∀ v, v ∈ roused past j ↔ ∃ q ∈ past, q.Pends j v := by
  have htaken : rousedBy r.stack j = [] := by
    refine List.eq_nil_iff_forall_not_mem.2 fun v hv => ?_
    obtain ⟨wakers, cleanup, hf, -⟩ := mem_rousedBy.1 hv
    exact hs wakers cleanup hf
  have hspent := h.spent j hj
  have hwoken : r.world.sleepers r.stack j ++ roused past j = roused past j := by
    rw [World.sleepers, hspent, htaken]
    rfl
  exact ⟨hspent, fun v => hwoken ▸ h.pended j v⟩

/-- Whoever sleeps is held by a signal that has not fired, or has been taken over by an exit. -/
theorem Run.Accounted.sleeps (h : r.Accounted past) {j : ActivationId} {v : Waker}
    (hv : v ∈ r.world.sleepers r.stack j) :
    r.world.aborted j = false ∧ v ∈ r.world.wakersOf j ∨
      ∃ wakers cleanup, .exiting j wakers cleanup ∈ r.stack ∧ v ∈ wakers := by
  rcases List.mem_append.1 hv with hheld | htaken
  · refine .inl ⟨?_, hheld⟩
    by_contra hfired
    rw [h.spent j (by simpa using hfired)] at hheld
    cases hheld
  · exact .inr (mem_rousedBy.1 htaken)

/-- When nothing runs, no exit is about to wake anyone. -/
theorem Run.Over.not_exiting (h : r.Over) {j : ActivationId} {wakers : List Waker}
    {cleanup : Option (Cleanup σ)} : .exiting j wakers cleanup ∉ r.stack := by
  obtain ⟨e, -, hs⟩ := Run.over_iff.1 h
  rw [hs]
  exact List.not_mem_nil

/-- The signal of activation `j` has woken task `t`, which has been polled since. -/
def Run.Answered (past : List (Run σ)) (r : Run σ) (t : TaskId) (task : Task σ)
    (j : ActivationId) : Prop :=
  .task t ∈ roused past j ∧ summoned t task.activation r.world.journal = false

namespace Trail

variable {t : TaskId} {task : Task σ} {j : ActivationId} {rest : Future σ}
  {last : Option (Code σ)}

/-- A task that waits is queued, or will be woken. -/
theorem waits (h : Trail m Run.Grounded past r) (ht : r.world.tasks.get? t = some task)
    (hp : task.progress = some (.awaiting j rest last)) (hpoll : r.polling t = false) :
    t ∈ r.world.ready ∨ r.world.aborted j = false ∧ .task t ∈ r.world.wakersOf j ∨
      ∃ wakers cleanup, .exiting j wakers cleanup ∈ r.stack ∧ .task t ∈ wakers := by
  exact (h.attended t task j rest last ht hp hpoll).imp_right h.accounted.sleeps

/-- A task whose poll of a signal was pending is queued, or will be woken, or has been polled after
the signal had woken it. -/
theorem pending (h : Trail m Run.Grounded past r) (ht : r.world.tasks.get? t = some task)
    (hf : task.finished = false) (hp : ∃ q ∈ past, q.Pends j (.task t)) :
    t ∈ r.world.ready ∨ r.world.aborted j = false ∧ .task t ∈ r.world.wakersOf j ∨
      (∃ wakers cleanup, .exiting j wakers cleanup ∈ r.stack ∧ .task t ∈ wakers) ∨
      r.Answered past t task j := by
  rcases List.mem_append.1 ((h.accounted.pended j (.task t)).2 hp) with hsleep | hroused
  · exact .inr ((h.accounted.sleeps hsleep).imp_right .inl)
  · cases hs : summoned t task.activation r.world.journal with
    | false => exact .inr (.inr (.inr ⟨hroused, hs⟩))
    | true => exact .inl ((h.heeded.2 t task ht hs).resolve_right (by simp [hf]))

/-- When nothing runs, a task that waits is queued, or held by a signal that has not fired. -/
theorem rests (h : Trail m Run.Grounded past r) (hover : r.Over)
    (ht : r.world.tasks.get? t = some task) (hp : task.progress = some (.awaiting j rest last)) :
    t ∈ r.world.ready ∨ r.world.aborted j = false ∧ .task t ∈ r.world.wakersOf j := by
  obtain ⟨e, hc, hs⟩ := Run.over_iff.1 hover
  have hpoll : r.polling t = false := by rw [Run.polling, hc, hs]; rfl
  rcases h.waits ht hp hpoll with hready | hheld | ⟨wakers, cleanup, hexit, -⟩
  · exact .inl hready
  · exact .inr hheld
  · exact absurd hexit hover.not_exiting

/-- So is a task whose poll of a signal was pending, or it has been polled after the signal had
woken it. -/
theorem pending_rests (h : Trail m Run.Grounded past r) (hover : r.Over)
    (ht : r.world.tasks.get? t = some task) (hf : task.finished = false)
    (hp : ∃ q ∈ past, q.Pends j (.task t)) :
    t ∈ r.world.ready ∨ r.world.aborted j = false ∧ .task t ∈ r.world.wakersOf j ∨
      r.Answered past t task j := by
  rcases h.pending ht hf hp with hready | hheld | ⟨wakers, cleanup, hexit, -⟩ | hanswered
  · exact .inl hready
  · exact .inr (.inl hheld)
  · exact absurd hexit hover.not_exiting
  · exact .inr (.inr hanswered)

/-- The signal of an activation that has been exited has fired. -/
theorem fired (h : Trail m Run.Grounded past r) {i : InstanceId} {s : σ.State}
    (hexit : .exiting i j s ∈ r.world.journal) : r.world.aborted j = true := by
  have hexited : r.exited j = true := Run.exited_iff.2 ⟨i, s, (Run.mem_past rfl).2 hexit⟩
  obtain ⟨a, ha, hfired⟩ := h.reach.aborted_of_exited hexited
  rw [World.aborted, ha]
  exact hfired

/-- When nothing is left to poll, a task whose poll of the signal was pending has been polled after
the exit had woken it. -/
theorem pending_stalls (h : Trail m Run.Grounded past r) (hover : r.Over)
    (hpoll : Run.ofPoll? r.world = none) {i : InstanceId} {s : σ.State}
    (hexit : .exiting i j s ∈ r.world.journal) (ht : r.world.tasks.get? t = some task)
    (hf : task.finished = false) (hp : ∃ q ∈ past, q.Pends j (.task t)) :
    r.Answered past t task j := by
  rcases h.pending_rests hover ht hf hp with hready | ⟨hj, -⟩ | hanswered
  · rw [← World.finished_of_task ht] at hf
    exact absurd hready (World.not_ready_of_ofPoll? hpoll hf)
  · rw [h.fired hexit] at hj
    cases hj
  · exact hanswered

/-- When nothing is left to poll, no task waits for an activation that has been exited. -/
theorem stalls (h : Trail m Run.Grounded past r) (hover : r.Over)
    (hpoll : Run.ofPoll? r.world = none) {i : InstanceId} {s : σ.State}
    (hexit : .exiting i j s ∈ r.world.journal) (ht : r.world.tasks.get? t = some task) :
    task.progress ≠ some (.awaiting j rest last) := by
  intro hp
  have hf := World.finished_of_progress ht hp
  rcases h.rests hover ht hp with hready | ⟨hj, -⟩
  · exact absurd hready (World.not_ready_of_ofPoll? hpoll hf)
  · rw [h.fired hexit] at hj
    cases hj

end Trail

/-- **What is known of tasks and signals in a run**, with the runs from which a step was made on the
way to it. -/
structure Run.Wakeful (m : Machine σ) (past : List (Run σ)) (r : Run σ) : Prop where
  /-- A task that waits for a signal, and is not just being polled, is queued; or else the signal
  has not fired and holds the waker of the task, or the exit that has fired it is about to wake the
  task. -/
  waits : ∀ t task j rest last, r.world.tasks.get? t = some task →
    task.progress = some (.awaiting j rest last) → r.polling t = false → t ∈ r.world.ready ∨
      r.world.aborted j = false ∧ .task t ∈ r.world.wakersOf j ∨
      ∃ wakers cleanup, .exiting j wakers cleanup ∈ r.stack ∧ .task t ∈ wakers
  /-- When nothing runs, no exit is about to wake anyone. -/
  rests : r.Over → ∀ t task j rest last, r.world.tasks.get? t = some task →
    task.progress = some (.awaiting j rest last) → t ∈ r.world.ready ∨
      r.world.aborted j = false ∧ .task t ∈ r.world.wakersOf j
  /-- No waker has been woken twice by a signal. -/
  once : ∀ j, (roused past j).Nodup
  /-- A signal that has not fired has woken no one, and holds the wakers of the polls that were
  pending, each once. -/
  holds : ∀ j, r.world.aborted j = false → roused past j = [] ∧ (r.world.wakersOf j).Nodup ∧
    ∀ v, v ∈ r.world.wakersOf j ↔ ∃ q ∈ past, q.Pends j v
  /-- A signal that has fired, and whose exit is past that, has woken all wakers of the polls that
  were pending, and holds none. -/
  woke : ∀ j, r.world.aborted j = true → (∀ wakers cleanup, .exiting j wakers cleanup ∉ r.stack) →
    r.world.wakersOf j = [] ∧ ∀ v, v ∈ roused past j ↔ ∃ q ∈ past, q.Pends j v
  /-- To wake a waker is to put its task into the queue, unless the task is finished. -/
  wakes : ∀ e j wakers cleanup stack r', r.control = .ended e →
    r.stack = .exiting j wakers cleanup :: stack → r.step m = some r' →
      World.Awakens wakers r.world r'.world
  /-- Once a signal has fired, every poll of it is ready. -/
  goesOn : ∀ j, r.world.aborted j = true → ∀ {ok : Run σ → Prop} {r' : Run σ}, r.Path m ok r' →
    ∀ p k next last, r'.control = .future p k (.awaiting j next last) →
      r'.step m = some ⟨r'.world, .future p k (.ready next), r'.stack⟩
  /-- When there is nothing left to poll, no task waits for the signal of an activation that has
  been exited. -/
  stalls : r.Over → Run.ofPoll? r.world = none → ∀ i j s, .exiting i j s ∈ r.world.journal →
    ∀ t task rest last, r.world.tasks.get? t = some task →
      task.progress ≠ some (.awaiting j rest last)
  /-- However many signals there are that a task has polled, each of these polls that was pending is
  attended to: unless the task is finished, it is queued; or else the signal has not fired and holds
  the waker of the task, or the exit that has fired it is about to wake the task, or the signal has
  woken the task, which has been polled since. -/
  pending : ∀ t task j, r.world.tasks.get? t = some task → task.finished = false →
    (∃ q ∈ past, q.Pends j (.task t)) → t ∈ r.world.ready ∨
      r.world.aborted j = false ∧ .task t ∈ r.world.wakersOf j ∨
      (∃ wakers cleanup, .exiting j wakers cleanup ∈ r.stack ∧ .task t ∈ wakers) ∨
      r.Answered past t task j
  /-- When nothing runs, no exit is about to wake the task. -/
  pendingAtRest : r.Over → ∀ t task j, r.world.tasks.get? t = some task → task.finished = false →
    (∃ q ∈ past, q.Pends j (.task t)) → t ∈ r.world.ready ∨
      r.world.aborted j = false ∧ .task t ∈ r.world.wakersOf j ∨ r.Answered past t task j
  /-- When there is nothing left to poll, every task whose poll of the signal of an activation was
  pending that has been exited is finished, or has been polled after the signal had woken it. -/
  pendingAtLast : r.Over → Run.ofPoll? r.world = none → ∀ i j s,
    .exiting i j s ∈ r.world.journal → ∀ t task, r.world.tasks.get? t = some task →
      (∃ q ∈ past, q.Pends j (.task t)) → task.finished = true ∨ r.Answered past t task j

/-- **No wake-up is lost.** -/
theorem Trail.wakeful (h : Trail m Run.Grounded past r) : r.Wakeful m past where
  waits _ _ _ _ _ := h.waits
  rests hover _ _ _ _ _ := h.rests hover
  once j := (List.nodup_append.1 (h.accounted.once j)).2.1
  holds _ := h.accounted.holds
  woke _ := h.accounted.woke
  wakes e j wakers cleanup stack r' hc hs hstep := by
    rw [Run.step, hc, hs] at hstep
    exact (World.proceed_exiting hstep).1
  goesOn j hj ok r' hpath p k next last hc := by
    rw [Run.step, hc]
    exact if_pos (hpath.aborted hj)
  stalls hover hpoll _ _ _ hexit _ _ _ _ := h.stalls hover hpoll hexit
  pending _ _ _ := h.pending
  pendingAtRest hover _ _ _ := h.pending_rests hover
  pendingAtLast hover hpoll i j s hexit t task ht hp := by
    cases hf : task.finished with
    | true => exact .inl rfl
    | false => exact .inr (h.pending_stalls hover hpoll hexit ht hf hp)

namespace Lamp

/-- A lamp whose first state waits in the background for its end. -/
def lingering : Machine sig where
  config := ⟨.ofPairs
    [(false, {
        transitions := .ofPairs [((), true)]
        effect := some (.finish (.pending (.awaitAbort none .resolved none))) }),
      (true, {})]⟩
  initialState := false
  initialContext := (0 : Nat)
  spawner := some .queue
  declared := by decide

def lingeringPlaced : Run sig := placement.steps lingering 9

theorem over_lingeringPlaced : lingeringPlaced.Over :=
  Option.isSome_iff_exists.1 (by decide +kernel)

/-- The executor polls what the first state has left to it. -/
def polled : Run sig := (Run.ofPoll? lingeringPlaced.world).getD lingeringPlaced

def asleep : Run sig := polled.steps lingering 1

theorem over_asleep : asleep.Over := Option.isSome_iff_exists.1 (by decide +kernel)

/-- The lamp is pressed. -/
def awoken : Run sig := (Run.ofCode asleep.world (.send "lamp" () none .ofReply)).steps lingering 8

theorem over_awoken : awoken.Over := Option.isSome_iff_exists.1 (by decide +kernel)

end Lamp

/-- The task that waits for the end of the first state is queued when the lamp is pressed. -/
theorem lamp_awoken : ∃ past, Trail Lamp.lingering Run.Grounded past Lamp.awoken ∧
    (∃ task, Lamp.awoken.world.tasks.get? 0 = some task ∧
      task.progress = some (.awaiting 0 .resolved none)) ∧
    0 ∈ Lamp.awoken.world.ready := by
  have hplaced : Reach Lamp.lingering Run.Grounded Lamp.lingeringPlaced :=
    (Reach.start _).steps (by decide +kernel)
  have hpolled : Lamp.lingeringPlaced.Turn Lamp.polled := by
    obtain ⟨r, hr⟩ : ∃ r, Run.ofPoll? Lamp.lingeringPlaced.world = some r :=
      Option.isSome_iff_exists.1 (by decide +kernel)
    have heq : Lamp.polled = r := by rw [Lamp.polled, hr, Option.getD_some]
    exact heq ▸ Lamp.over_lingeringPlaced.turn_poll hr
  have hasleep : Reach Lamp.lingering Run.Grounded Lamp.asleep :=
    (hplaced.turn hpolled).steps (by decide +kernel)
  have hawoken : Reach Lamp.lingering Run.Grounded Lamp.awoken :=
    (hasleep.turn (Lamp.over_asleep.turn_call _)).steps (by decide +kernel)
  obtain ⟨past, htrail⟩ := hawoken.trail
  have hfired : Lamp.awoken.world.aborted 0 = true := by decide +kernel
  refine ⟨past, htrail, ⟨_, rfl, rfl⟩, ?_⟩
  refine (htrail.wakeful.rests Lamp.over_awoken 0 _ 0 .resolved none rfl rfl).resolve_right ?_
  rw [hfired]
  simp

end Statechart
