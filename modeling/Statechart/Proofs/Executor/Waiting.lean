import Statechart.Proofs.Executor.Wakers
import Statechart.Proofs.Run.Path

/-!
Tasks that wait. A task that waits for a signal is in the ready queue, or its waker is among those
that sleep until the signal wakes them. What a step can do to the tasks and to the sleepers is
listed once, in `Run.Stir`.
-/

namespace Statechart

variable {σ : Signature} {m : Machine σ} {ok : Run σ → Prop} {past : List (Run σ)} {r r' : Run σ}
  {w w' : World σ} {stack : List (Frame σ)} {k : ActivationId}

/-! ### Polls that are pending -/

/-- The signal for which the future waits that is about to go on. -/
def Control.awaits? : Control σ → Option ActivationId
  | .future _ _ (.awaiting j _ _) => some j
  | _ => none

namespace Run

/-- The run is about to poll the signal of activation `j` with the waker `v`, and the poll is going
to be pending. -/
def Pends (r : Run σ) (j : ActivationId) (v : Waker) : Prop :=
  ∃ p k next last, r.control = .future p k (.awaiting j next last) ∧ p.waker = v ∧
    r.world.aborted j = false

/-- A future that waits for a signal waits for one that exists. -/
def Grounded (r : Run σ) : Prop := ∀ j ∈ r.control.awaits?, j < r.world.activations.size

instance (r : Run σ) : Decidable r.Grounded :=
  inferInstanceAs (Decidable (∀ j ∈ r.control.awaits?, j < r.world.activations.size))

/-- The wakers that the next step wakes for the signal of activation `j`. -/
def rouses (j : ActivationId) (r : Run σ) : List Waker :=
  match r.control, r.stack with
  | .ended _, f :: _ => f.rouses j
  | _, _ => []

end Run

/-- The wakers that were woken on the way for the signal of activation `j`. -/
def roused (past : List (Run σ)) (j : ActivationId) : List Waker := past.flatMap (Run.rouses j)

/-! ### What a step does to those who wait -/

/-- What a step does to the tasks that wait, and to the wakers of those. -/
inductive Run.Stir (m : Machine σ) : Run σ → Run σ → Prop
  /-- The executor is left alone. -/
  | alone {r r' : Run σ} (hc : ∀ t, r.control.polls t = false) (hr : ∀ j, r.rouses j = [])
      (hp : ∀ j v, ¬ r.Pends j v) (hu : r'.Undisturbed r.world r.stack) : Stir m r r'
  /-- The poll of a future goes on, or comes to its end. -/
  | poll {w : World σ} {poller : Poller} {k : ActivationId} {p : Progress σ}
      {stack : List (Frame σ)} {r' : Run σ} (h : World.Advance m w poller k stack p r') :
      Stir m ⟨w, .future poller k p, stack⟩ r'
  /-- An exit wakes whom it has taken over. -/
  | rouse {w : World σ} {e : Ending σ} {k : ActivationId} {wakers : List Waker}
      {cleanup : Option (Cleanup σ)} {stack : List (Frame σ)} {r' : Run σ}
      (hw : World.Awakens wakers w r'.world) (hs : r'.stack = stack)
      (hc : ∀ t, r'.control.polls t = false) :
      Stir m ⟨w, .ended e, .exiting k wakers cleanup :: stack⟩ r'

/-- An exit wakes whom it has taken over, each once. -/
theorem World.proceed_exiting {e : Ending σ} {wakers : List Waker} {cleanup : Option (Cleanup σ)}
    (h : w.proceed m e stack (.exiting k wakers cleanup) = some r) :
    World.Awakens wakers w r.world ∧ r.stack = stack ∧ ∀ t, r.control.polls t = false := by
  have hw := w.awakens_wakers wakers
  cases cleanup with
  | none =>
    obtain rfl := Option.some.inj h
    exact ⟨hw, rfl, fun _ => rfl⟩
  | some c =>
    obtain rfl := Option.some.inj h
    exact ⟨⟨hw.tasks, hw.activations, hw.ready, hw.queued, hw.woken⟩, rfl, fun _ => rfl⟩

theorem Run.stir (hs : r.step m = some r') : Stir m r r' := by
  obtain ⟨w, control, stack⟩ := r
  cases control with
  | code t c =>
    exact .alone (fun _ => rfl) (fun _ => rfl) (by simp [Pends]) (World.undisturbed_perform hs)
  | future poller k p => exact .poll (World.advance_cases hs).stirs
  | ended e =>
    cases stack with
    | nil => cases hs
    | cons f stack =>
      by_cases hf : f.mild = true
      · exact .alone (fun _ => rfl) (fun j => Frame.rouses_of_mild hf j) (by simp [Pends])
          ((Run.Undisturbed.mild_iff hf).2 (World.undisturbed_proceed hf hs))
      · cases f with
        | exiting j wakers cleanup =>
          obtain ⟨hw, hstack, hc⟩ := World.proceed_exiting (m := m) (e := e) hs
          exact .rouse hw hstack hc
        | acting poller k next =>
          obtain rfl := Option.some.inj hs
          refine .alone (fun _ => rfl) (fun _ => rfl) (by simp [Pends])
            ⟨.of_same (fun _ => rfl) fun _ => rfl, rfl, rfl, rfl, fun t => ?_⟩
          cases poller with
          | entry | spawner => simp [polls, Control.polls, Frame.polls]
          | executor u =>
            by_cases h : t = u <;>
              simp [polls, Control.polls, Frame.polls, h, Nat.add_comm]
        | _ => exact absurd rfl hf

/-- A signal that has fired stays so. -/
theorem Run.aborted_step (hs : r.step m = some r') {j : ActivationId}
    (hj : r.world.aborted j = true) : r'.world.aborted j = true := by
  cases Run.stir hs with
  | alone _ _ _ hu => rw [(Prod.mk.inj (hu.fired j hj)).1, hj]
  | poll h =>
    cases h with
    | goOn hw => rwa [hw]
    | finish b _ hfinish =>
      obtain ⟨hrest, -⟩ := World.finish_cases hfinish
      rwa [(Prod.mk.inj (hrest.bell j)).1]
    | suspend _ hw hsuspend =>
      obtain ⟨hrest, -⟩ := World.suspend_cases hsuspend
      rwa [(Prod.mk.inj ((hrest.bell j).trans (World.bell_awoken hw j))).1]
    | wait ha hsuspend =>
      obtain ⟨hrest, -⟩ := World.suspend_cases hsuspend
      rw [(Prod.mk.inj ((hrest.bell j).trans (World.bell_enlist_of_ne ?_ _))).1]
      · exact hj
      · rintro rfl
        rw [ha] at hj
        cases hj
  | rouse hw hstack hc =>
    rw [World.aborted, hw.activations]
    exact hj

/-! ### The queue -/

namespace World

/-- A task that is not finished is not passed over. -/
theorem mem_dropWhile_finished {t : TaskId} (ht : t ∈ w.ready) (hf : w.finished t = false) :
    t ∈ w.ready.dropWhile w.finished := by
  rw [← List.takeWhile_append_dropWhile (p := w.finished) (l := w.ready), List.mem_append] at ht
  rcases ht with ht | ht
  · have hall := List.all_eq_true.1 List.all_takeWhile t ht
    rw [hf] at hall
    cases hall
  · exact ht

/-- When there is nothing to poll, every task in the queue is finished. -/
theorem not_ready_of_ofPoll? (h : Run.ofPoll? w = none) {t : TaskId} (hf : w.finished t = false) :
    t ∉ w.ready := by
  intro ht
  have hmem := mem_dropWhile_finished ht hf
  unfold Run.ofPoll? nextTask? at h
  cases hdrop : w.ready.dropWhile w.finished with
  | nil =>
    rw [hdrop] at hmem
    cases hmem
  | cons u rest =>
    -- the first of them is there, and is not finished
    have hu : w.finished u = false := by
      simpa [hdrop] using List.head?_dropWhile_not w.finished w.ready
    unfold finished at hu
    cases htask : w.tasks.get? u with
    | none => simp [htask] at hu
    | some task =>
      cases hprogress : task.progress with
      | none => simp [htask, Task.finished, hprogress] at hu
      | some p => simp [hdrop, htask, hprogress] at h

end World

/-! ### Tasks that wait -/

/-- Every task that waits for a signal, and is not just being polled, is queued, or is to be woken
by the signal. -/
def Run.Attended (r : Run σ) : Prop :=
  ∀ t task j rest last, r.world.tasks.get? t = some task →
    task.progress = some (.awaiting j rest last) → r.polling t = false →
      t ∈ r.world.ready ∨ .task t ∈ r.world.sleepers r.stack j

theorem World.finished_of_progress {t : TaskId} {task : Task σ} {p : Progress σ}
    (ht : w.tasks.get? t = some task) (hp : task.progress = some p) : w.finished t = false := by
  simp [World.finished, ht, Task.finished, hp]

theorem Control.polls_future {poller : Poller} {p : Progress σ} (hp : ∀ t, poller ≠ .executor t)
    (t : TaskId) : (Control.future poller k p).polls t = false := by
  cases poller with
  | entry | spawner => rfl
  | executor u => exact absurd rfl (hp u)

namespace Run.Attended

/-- Whoever sleeps goes on to sleep, or is queued, as long as no task comes any further. -/
theorem congr (h : r.Attended) (ht : r'.world.tasks = r.world.tasks)
    (hr : ∀ t ∈ r.world.ready, r.world.finished t = false → r'.polling t = false →
      t ∈ r'.world.ready)
    (hp : ∀ t, r'.polling t = false → r.polling t = false)
    (hs : ∀ t j, .task t ∈ r.world.sleepers r.stack j → r.world.finished t = false →
      t ∈ r'.world.ready ∨ .task t ∈ r'.world.sleepers r'.stack j) : r'.Attended := by
  intro t task j rest last htask hprogress hpoll
  rw [ht] at htask
  have hfinished := World.finished_of_progress htask hprogress
  rcases h t task j rest last htask hprogress (hp t hpoll) with hready | hsleep
  · exact .inl (hr t hready hfinished hpoll)
  · exact hs t j hsleep hfinished

theorem undisturbed (h : r.Attended) (hc : ∀ t, r.control.polls t = false)
    (hu : r'.Undisturbed r.world r.stack) : r'.Attended := by
  refine h.congr hu.tasks (fun t ht _ _ => hu.ready ▸ ht) (fun t ht => ?_) fun t j ht _ => .inr ?_
  · rw [Run.polling, hc, Bool.false_or, ← Run.polling_eq_any (hu.polls t), ht]
  · rwa [hu.sleepers]

/-- The poll has ended, and has brought the tasks no further. -/
theorem rested {poller : Poller} {p : Progress σ} (h : Attended ⟨w, .future poller k p, stack⟩)
    (hp : ∀ t, poller ≠ .executor t) (hrest : World.Rested w stack r')
    (ht : r'.world.tasks = w.tasks) (hr : r'.world.ready = w.ready) : r'.Attended := by
  refine h.congr ht (fun t ht _ _ => hr ▸ ht) (fun t ht => ?_) fun t j ht _ => .inr ?_
  · rw [Run.polling, Control.polls_future hp, Bool.false_or, ← Run.polling_eq_any (hrest.polls t),
      ht]
  · rwa [hrest.sleepers]

/-- The task that the executor has polled has come to `q`. -/
theorem settle {t : TaskId} {p : Progress σ} {q : Option (Progress σ)}
    (h : Attended ⟨w, .future (.executor t) k p, stack⟩) (hrest : World.Rested w stack r')
    (ht : r'.world.tasks = (w.setProgress t q).tasks) (hr : r'.world.ready = w.ready)
    (hq : ∀ j rest last, q = some (.awaiting j rest last) → .task t ∈ w.sleepers stack j) :
    r'.Attended := by
  intro u task j rest last htask hprogress hpoll
  have hget := w.tasks.get?_modify (fun task => { task with progress := q }) t u
  rw [ht] at htask
  rw [hr, hrest.sleepers]
  by_cases hu : u = t
  · subst hu
    rw [if_pos rfl] at hget
    obtain ⟨task, -, rfl⟩ := Option.map_eq_some_iff.1 (hget.symm.trans htask)
    exact .inr (hq j rest last hprogress)
  · rw [if_neg hu] at hget
    refine h u task j rest last (hget.symm.trans htask) hprogress ?_
    rw [Run.polling, ← Run.polling_eq_any (hrest.polls u), hpoll, Bool.or_false]
    exact decide_eq_false hu

/-- The executor has been handed a task, which is ready at once. -/
theorem handed {a : ActivationId} {poller : Poller} {p q : Progress σ}
    (h : Attended ⟨w, .future poller k p, stack⟩) (hp : ∀ t, poller ≠ .executor t)
    (hrest : World.Rested w stack r') (ht : r'.world.tasks = w.tasks.push ⟨a, some q⟩)
    (hr : r'.world.ready = w.ready ++ [w.tasks.size]) : r'.Attended := by
  intro u task j rest last htask hprogress hpoll
  have hget := w.tasks.get?_push ⟨a, some q⟩ u
  rw [ht] at htask
  rw [hr, hrest.sleepers]
  by_cases hu : u = w.tasks.size
  · exact .inl (List.mem_append_right _ (List.mem_singleton.2 hu))
  · rw [if_neg hu] at hget
    refine (h u task j rest last (hget.symm.trans htask) hprogress ?_).imp_left
      (List.mem_append_left _)
    rw [Run.polling, Control.polls_future hp, Bool.false_or, ← Run.polling_eq_any (hrest.polls u),
      hpoll]

theorem suspend {poller : Poller} {p q : Progress σ} {last : Option (Code σ)}
    (h : Attended ⟨w, .future poller k p, stack⟩)
    (hs : w.suspend m poller k q last stack = some r')
    (hq : ∀ t j rest last, poller = .executor t → q = .awaiting j rest last →
      .task t ∈ w.sleepers stack j) : r'.Attended := by
  obtain ⟨hrest, ⟨hp, ht, hr⟩ | ⟨hp, ht, hr⟩ | ⟨t, rfl, ht, hr⟩⟩ := World.suspend_cases hs
  · exact h.rested hp hrest ht hr
  · exact h.handed hp hrest ht hr
  · refine h.settle hrest ht hr fun j rest last hj => ?_
    exact hq t j rest last rfl (Option.some.inj hj)

theorem finish {poller : Poller} {p : Progress σ} {b : Bool}
    (h : Attended ⟨w, .future poller k p, stack⟩) (hs : w.finish poller k b stack = some r') :
    r'.Attended := by
  obtain ⟨hrest, hr, ⟨hp, ht⟩ | ⟨t, rfl, ht⟩⟩ := World.finish_cases hs
  · exact h.rested hp hrest ht hr
  · exact h.settle hrest ht hr (by simp)

/-- Waking does no harm. -/
theorem awaken {c : Control σ} {wakers : List Waker} (h : Attended ⟨w, c, stack⟩)
    (hw : World.Awakens wakers w w') : Attended ⟨w', c, stack⟩ := by
  refine h.congr hw.tasks (fun t ht _ _ => hw.ready t ht) (fun _ => id) fun t j ht _ => .inr ?_
  rw [World.sleepers, World.wakersOf, hw.activations]
  exact ht

/-- A poll in which a future waits for a signal leaves its waker there. -/
theorem wait {poller : Poller} {j : ActivationId} {next : Future σ} {last : Option (Code σ)}
    (h : Attended ⟨w, .future poller k (.awaiting j next last), stack⟩)
    (hj : j < w.activations.size) (ha : w.aborted j = false)
    (hs : (w.enlist j poller.waker).suspend m poller k (.awaiting j next last) last stack =
      some r') : r'.Attended := by
  have hwakers := (Prod.mk.inj (World.bell_enlist_self hj ha poller.waker)).2
  have hwaker : poller.waker ∈ (w.enlist j poller.waker).wakersOf j := by
    rw [hwakers]
    split
    · assumption
    · exact List.mem_append_right _ List.mem_cons_self
  have hkeep (i) (v) (hv : v ∈ w.wakersOf i) : v ∈ (w.enlist j poller.waker).wakersOf i := by
    by_cases hi : i = j
    · subst hi
      rw [hwakers]
      split
      · exact hv
      · exact List.mem_append_left _ hv
    · rwa [(Prod.mk.inj (World.bell_enlist_of_ne hi poller.waker)).2]
  refine Attended.suspend (p := .awaiting j next last) ?_ hs ?_
  · refine h.congr rfl (fun t ht _ _ => ht) (fun _ => id) fun t i ht _ => .inr ?_
    rcases List.mem_append.1 ht with ht | ht
    · exact List.mem_append_left _ (hkeep i _ ht)
    · exact List.mem_append_right _ ht
  · rintro t _ _ _ rfl ⟨⟩
    exact List.mem_append_left _ hwaker

/-- Whom an exit has taken over is queued when the exit wakes them. -/
theorem rouse {e : Ending σ} {wakers : List Waker} {cleanup : Option (Cleanup σ)}
    (h : Attended ⟨w, .ended e, .exiting k wakers cleanup :: stack⟩)
    (hw : World.Awakens wakers w r'.world) (hs : r'.stack = stack)
    (hc : ∀ t, r'.control.polls t = false) : r'.Attended := by
  refine h.congr hw.tasks (fun t ht _ _ => hw.ready t ht) (fun t ht => ?_) fun t i ht hf => ?_
  · rw [Run.polling, hc, Bool.false_or, hs] at ht
    exact ht
  · rw [World.sleepers, World.wakersOf, hw.activations, hs]
    rw [World.sleepers, rousedBy_cons, ← List.append_assoc, List.mem_append, List.mem_append] at ht
    rcases ht with (ht | ht) | ht
    · exact .inr (List.mem_append_left _ ht)
    · rw [Frame.rouses] at ht
      split at ht
      · exact .inl ((hw.queued t ht).resolve_right (by simp [hf]))
      · cases ht
    · exact .inr (List.mem_append_right _ ht)

/-- A step keeps whoever waits attended to. -/
theorem step (h : r.Attended) (hg : r.Grounded) (hs : r.step m = some r') : r'.Attended := by
  cases Run.stir hs with
  | alone hc _ _ hu => exact h.undisturbed hc hu
  | poll hadvance =>
    cases hadvance with
    | goOn hw hroused hpoll _ =>
      refine h.congr (by rw [hw]) (fun t ht _ _ => by rw [hw]; exact ht)
        (fun t ht => (Run.polling_congr (hpoll t)).symm.trans ht) fun t j ht _ => .inr ?_
      rw [World.sleepers, hw, hroused]
      exact ht
    | finish b _ hfinish => exact h.finish hfinish
    | suspend _ hw hsuspend hp =>
      rcases hw with rfl | rfl
      · exact h.suspend hsuspend fun _ j rest last _ hj => absurd hj (hp j rest last)
      · exact (h.awaken (World.awakens_fireWaker _ _)).suspend hsuspend
          fun _ j rest last _ hj => absurd hj (hp j rest last)
    | wait ha hsuspend => exact h.wait (hg _ rfl) ha hsuspend
  | rouse hw hstack hc => exact h.rouse hw hstack hc

/-- A turn that polls a task takes only this one out of the queue. -/
theorem turn (h : r.Attended) (ht : r.Turn r') : r'.Attended := by
  cases ht with
  | code c => exact h
  | @future _ p =>
    refine h.congr rfl (fun t ht _ _ => ht) (fun t ht => ?_) fun t j ht _ => .inr ht
    rw [← ht]
    cases p <;> rfl
  | @poll w t c stack u task p hu hp hs =>
    refine h.congr rfl (fun v hv _ hpoll => ?_) (fun v hv => ?_) fun v j hv _ => .inr hv
    · have hne : v ≠ u := by
        rintro rfl
        simp [Run.polling, Control.polls] at hpoll
      exact (List.mem_erase_of_ne hne).2 hv
    · rw [Run.polling, Bool.or_eq_false_iff] at hv
      exact hv.2
  | call c => exact h
  | handle c hk => exact h
  | executor hpoll =>
    obtain ⟨t, task, p, rest, ⟨-, -, hdrop⟩, rfl⟩ := World.ofPoll?_eq_some hpoll
    refine h.congr rfl (fun v hv hfinished hpoll => ?_) (fun _ _ => rfl) fun v j hv _ => .inr hv
    have hmem : v ∈ t :: rest := hdrop ▸ World.mem_dropWhile_finished hv hfinished
    rcases List.mem_cons.1 hmem with rfl | hmem
    · simp [Run.polling, Control.polls] at hpoll
    · exact hmem

end Run.Attended

theorem Trail.attended (h : Trail m Run.Grounded past r) : r.Attended := by
  induction h with
  | start c => exact fun _ _ _ _ _ htask => nomatch htask
  | step _ hg hs ih => exact ih.step hg hs
  | turn _ ht ih => exact ih.turn ht

end Statechart
