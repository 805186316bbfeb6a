import Statechart.Proofs.Executor.Waiting
import Statechart.Proofs.Run.Journal

/-!
Tasks that are woken. No task is polled twice at once, and none that is finished; so a task that is
finished stays so, and one that has been woken is in the ready queue until it is polled.
-/

namespace Statechart

variable {σ : Signature} {m : Machine σ} {ok : Run σ → Prop} {past : List (Run σ)} {r r' : Run σ}
  {w w' : World σ} {stack : List (Frame σ)} {k : ActivationId} {t : TaskId}

/-! ### Tasks at the end of a poll -/

/-- What the end of a poll means for the tasks: they stay, and but for the one that was polled they
are as they were; one that has been added is ready. -/
structure World.Tended (poller : Poller) (w w' : World σ) : Prop where
  kept : ∀ t task, w.tasks.get? t = some task → ∃ task', w'.tasks.get? t = some task' ∧
    task'.activation = task.activation ∧ (poller ≠ .executor t → task' = task)
  added : ∀ t task, w'.tasks.get? t = some task → w.tasks.get? t = none → t ∈ w'.ready
  ready : ∀ t ∈ w.ready, t ∈ w'.ready

namespace World

variable {poller : Poller}

theorem Tended.of_same (ht : w'.tasks = w.tasks) (hr : ∀ t ∈ w.ready, t ∈ w'.ready) :
    Tended poller w w' where
  kept t task h := ⟨task, ht ▸ h, rfl, fun _ => rfl⟩
  added t task h hn := by
    rw [ht, hn] at h
    cases h
  ready := hr

theorem Tended.of_push {a : ActivationId} {q : Progress σ}
    (ht : w'.tasks = w.tasks.push ⟨a, some q⟩) (hr : w'.ready = w.ready ++ [w.tasks.size]) :
    Tended poller w w' where
  kept t task h := by
    have hne : t ≠ w.tasks.size := Nat.ne_of_lt (Roster.lt_size h)
    refine ⟨task, ?_, rfl, fun _ => rfl⟩
    rw [ht, Roster.get?_push, if_neg hne, h]
  added t task h hn := by
    rw [ht, Roster.get?_push] at h
    split at h
    · next he => exact hr ▸ List.mem_append_right _ (List.mem_singleton.2 he)
    · rw [hn] at h
      cases h
  ready t ht := hr ▸ List.mem_append_left _ ht

theorem Tended.of_setProgress {t : TaskId} {q : Option (Progress σ)}
    (ht : w'.tasks = (w.setProgress t q).tasks) (hr : w'.ready = w.ready) :
    Tended (.executor t) w w' where
  kept u task h := by
    have hget := w.tasks.get?_modify (fun task => { task with progress := q }) t u
    rw [ht]
    by_cases hu : u = t
    · subst hu
      rw [if_pos rfl, h] at hget
      exact ⟨_, hget, rfl, fun hne => absurd rfl hne⟩
    · rw [if_neg hu, h] at hget
      exact ⟨task, hget, rfl, fun _ => rfl⟩
  added u task h hn := by
    have hget := w.tasks.get?_modify (fun task => { task with progress := q }) t u
    rw [hn] at hget
    rw [ht, setProgress, hget] at h
    split at h <;> cases h
  ready u hu := hr ▸ hu

theorem tended_suspend {p : Progress σ} {last : Option (Code σ)}
    (h : w.suspend m poller k p last stack = some r) : Tended poller w r.world := by
  obtain ⟨-, ⟨-, ht, hr⟩ | ⟨-, ht, hr⟩ | ⟨t, rfl, ht, hr⟩⟩ := suspend_cases h
  · exact .of_same ht fun _ => (hr ▸ ·)
  · exact .of_push ht hr
  · exact .of_setProgress ht hr

theorem tended_finish {b : Bool} (h : w.finish poller k b stack = some r) :
    Tended poller w r.world := by
  obtain ⟨-, hr, ⟨-, ht⟩ | ⟨t, rfl, ht⟩⟩ := finish_cases h
  · exact .of_same ht fun _ => (hr ▸ ·)
  · exact .of_setProgress ht hr

theorem finished_of_task {task : Task σ} (h : w.tasks.get? t = some task) :
    w.finished t = task.finished := by
  rw [finished, h, Option.all_some]

end World

/-! ### Tasks in a step -/

/-- What a step means for the tasks. They stay, and one is as it was unless a poll of it has ended;
one that has been added is ready. No poll begins, and the tasks `ts` have been woken, each of which
is queued unless it is finished. -/
structure Run.Heeds (ts : List TaskId) (r r' : Run σ) : Prop where
  kept : ∀ t task, r.world.tasks.get? t = some task → ∃ task', r'.world.tasks.get? t = some task' ∧
    task'.activation = task.activation ∧ (task' = task ∨ r'.polls t < r.polls t)
  added : ∀ t task, r'.world.tasks.get? t = some task → r.world.tasks.get? t = none →
    t ∈ r'.world.ready
  ready : ∀ t ∈ r.world.ready, t ∈ r'.world.ready
  polls : ∀ t, r'.polls t ≤ r.polls t
  woken : r'.world.wokenTasks = ts ++ r.world.wokenTasks
  queued : ∀ t ∈ ts, t ∈ r'.world.ready ∨ r.world.finished t = true

namespace Run.Heeds

variable {poller : Poller} {p : Progress σ} {ts : List TaskId}

/-- The tasks are as they were. -/
theorem of_same (ht : r'.world.tasks = r.world.tasks)
    (hr : ∀ t ∈ r.world.ready, t ∈ r'.world.ready) (hp : ∀ t, r'.polls t ≤ r.polls t)
    (hw : r'.world.wokenTasks = ts ++ r.world.wokenTasks)
    (hq : ∀ t ∈ ts, t ∈ r'.world.ready ∨ r.world.finished t = true) : Heeds ts r r' where
  kept t task h := ⟨task, ht ▸ h, rfl, .inl rfl⟩
  added t task h hn := by
    rw [ht, hn] at h
    cases h
  ready := hr
  polls := hp
  woken := hw
  queued := hq

/-- The frames of the stack poll on, whatever it is that was polled. -/
theorem countP_le (r : Run σ) (t : TaskId) : r.stack.countP (Frame.polls t) ≤ r.polls t :=
  Nat.le_add_left _ _

/-- A poll has ended, after the tasks `ts` were woken. -/
theorem of_tended (ht : w'.tasks = w.tasks) (hr : ∀ t ∈ w.ready, t ∈ w'.ready)
    (hw : w'.wokenTasks = ts ++ w.wokenTasks) (hq : ∀ t ∈ ts, t ∈ w'.ready ∨ w.finished t = true)
    (htended : World.Tended poller w' r'.world) (hrest : World.Rested w' stack r') :
    Heeds ts ⟨w, .future poller k p, stack⟩ r' where
  kept t task h := by
    obtain ⟨task', h', ha, hsame⟩ := htended.kept t task (ht ▸ h)
    refine ⟨task', h', ha, ?_⟩
    by_cases hp : poller = .executor t
    · refine .inr ?_
      rw [hrest.polls, hp]
      simp [Run.polls, Control.polls]
    · exact .inl (hsame hp)
  added t task h hn := htended.added t task h (ht ▸ hn)
  ready t h := htended.ready t (hr t h)
  polls t := hrest.polls t ▸ countP_le ⟨w, .future poller k p, stack⟩ t
  woken := hrest.woken.trans hw
  queued t h := (hq t h).imp_left (htended.ready t)

end Run.Heeds

/-- **Every step heeds the tasks.** -/
theorem Run.heeds_step (hs : r.step m = some r') : ∃ ts, Heeds ts r r' := by
  cases Run.stir hs with
  | alone _ _ _ hu =>
    refine ⟨[], .of_same hu.tasks (fun _ => (hu.ready ▸ ·)) (fun t => ?_) hu.woken nofun⟩
    exact hu.polls t ▸ Heeds.countP_le r t
  | @poll w poller k p stack _ h =>
    cases h with
    | goOn hw _ hp _ =>
      exact ⟨[], .of_same (by rw [hw]) (by rw [hw]; exact fun _ => id)
        (fun t => Nat.le_of_eq (hp t)) (by rw [hw]; rfl) nofun⟩
    | finish b _ h =>
      exact ⟨[], .of_tended rfl (fun _ => id) rfl nofun (World.tended_finish h)
        (World.finish_cases h).1⟩
    | suspend _ hw h _ =>
      rcases hw with rfl | rfl
      · exact ⟨[], .of_tended rfl (fun _ => id) rfl nofun (World.tended_suspend h)
          (World.suspend_cases h).1⟩
      · have hw := w.awakens_fireWaker poller.waker
        exact ⟨_, .of_tended hw.tasks hw.ready hw.woken hw.queued_tasks (World.tended_suspend h)
          (World.suspend_cases h).1⟩
    | wait _ h =>
      refine ⟨[], .of_tended ?_ ?_ ?_ nofun (World.tended_suspend h) (World.suspend_cases h).1⟩
      · rfl
      · exact fun _ => id
      · rfl
  | rouse hw hstack hc =>
    refine ⟨_, .of_same hw.tasks hw.ready (fun t => ?_) hw.woken hw.queued_tasks⟩
    rw [Run.polls, hc, hstack]
    exact Nat.add_le_add (Nat.zero_le _) (List.Sublist.countP_le (List.sublist_cons_self _ _))

/-! ### Polls under way -/

/-- No task is polled twice at once, and none that is finished is polled. -/
def Run.Exclusive (r : Run σ) : Prop :=
  ∀ t, r.polls t ≤ 1 ∧ (r.polls t = 1 → r.world.finished t = false)

namespace Run.Exclusive

/-- A task whose poll has ended was not finished. -/
theorem unfinished (h : r.Exclusive) (hp : r'.polls t < r.polls t) : r.world.finished t = false :=
  (h t).2 (by have := (h t).1; omega)

theorem step (h : r.Exclusive) (hs : r.step m = some r') : r'.Exclusive := by
  obtain ⟨ts, hheeds⟩ := Run.heeds_step hs
  intro t
  obtain ⟨hle, hunfinished⟩ := h t
  refine ⟨Nat.le_trans (hheeds.polls t) hle, fun ht => ?_⟩
  have hone : r.polls t = 1 := Nat.le_antisymm hle (ht ▸ hheeds.polls t)
  have hf := hunfinished hone
  cases htask : r.world.tasks.get? t with
  | none =>
    rw [World.finished, htask] at hf
    cases hf
  | some task =>
    obtain ⟨_, htask', -, rfl | hlt⟩ := hheeds.kept t task htask
    · rwa [World.finished_of_task htask', ← World.finished_of_task htask]
    · omega

/-- A poll of a task begins, which is neither finished nor polled already. -/
theorem begin (h : ∀ u, u ≠ t → stack.countP (Frame.polls u) ≤ 1 ∧
      (stack.countP (Frame.polls u) = 1 → w.finished u = false))
    (ht : stack.countP (Frame.polls t) = 0) (hf : w.finished t = false) (k : ActivationId)
    (p : Progress σ) : Exclusive ⟨w, .future (.executor t) k p, stack⟩ := by
  intro u
  by_cases hu : u = t
  · subst hu
    simp [Run.polls, Control.polls, ht, hf]
  · simpa [Run.polls, Control.polls, hu] using h u hu

theorem turn (h : r.Exclusive) (ht : r.Turn r') : r'.Exclusive := by
  cases ht with
  | code | call | handle => exact h
  | @future _ poller => cases poller <;> exact h
  | @poll w t c stack u task p hu hp hs =>
    have hframes (v) : (Frame.resume t (fun _ => c) :: stack).countP (Frame.polls v) =
        Run.polls ⟨w, .code t c, stack⟩ v := by
      simp [Frame.polls, Run.polls, Control.polls]
    refine begin (fun v _ => ?_) ?_ ?_ _ _
    · rw [hframes]
      exact h v
    · rw [hframes, Run.polls_eq_zero]
      exact hs
    · exact World.finished_of_progress hu hp
  | executor hpoll =>
    obtain ⟨t, task, p, rest, ⟨ht, hp, -⟩, rfl⟩ := World.ofPoll?_eq_some hpoll
    refine begin (fun v _ => ?_) rfl (World.finished_of_progress ht hp) _ _
    exact ⟨Nat.zero_le 1, fun hone => absurd hone Nat.zero_ne_one⟩

end Run.Exclusive

/-! ### Tasks that are called for -/

/-- Whether task `t`, with the future of `k`, has been woken and not been polled since, by what has
happened, the latest first. -/
def summoned (t : TaskId) (k : ActivationId) : List (Event σ) → Bool
  | [] => false
  | .woken u :: es => u = t || summoned t k es
  | .polled j :: es => j ≠ k && summoned t k es
  | _ :: es => summoned t k es

/-- Who is called for has just been woken, or was called for before. -/
theorem summoned_append {new old : List (Event σ)} (h : summoned t k (new ++ old) = true) :
    t ∈ new.filterMap Event.woken? ∨ summoned t k old = true := by
  induction new with
  | nil => exact .inr h
  | cons e new ih =>
    cases e with
    | woken u =>
      rcases Bool.or_eq_true_iff.1 h with hu | h
      · exact .inl (of_decide_eq_true hu ▸ List.mem_cons_self)
      · exact (ih h).imp_left (List.mem_cons_of_mem u)
    | polled j => exact ih (Bool.and_eq_true_iff.1 h).2
    | _ => exact ih h

/-- Every task that is called for is in the ready queue, unless it is finished. -/
def Run.Heeded (r : Run σ) : Prop :=
  ∀ t task, r.world.tasks.get? t = some task → summoned t task.activation r.world.journal = true →
    t ∈ r.world.ready ∨ task.finished = true

namespace Run.Heeded

theorem step (h : r.Heeded) (he : r.Exclusive) (hs : r.step m = some r') : r'.Heeded := by
  obtain ⟨ts, hheeds⟩ := Run.heeds_step hs
  obtain ⟨new, hjournal⟩ := Run.journal_step hs
  have hnew : new.filterMap Event.woken? = ts := by
    have hwoken := hheeds.woken
    rw [World.wokenTasks, hjournal, List.filterMap_append] at hwoken
    exact List.append_cancel_right hwoken
  intro t task' htask' hsummoned
  rw [hjournal] at hsummoned
  cases htask : r.world.tasks.get? t with
  | none => exact .inl (hheeds.added t task' htask' htask)
  | some task =>
    obtain ⟨_, hget, ha, hsame⟩ := hheeds.kept t task htask
    obtain rfl := Option.some.inj (htask'.symm.trans hget)
    -- a task that was finished is so still, since no poll of it can have ended
    have hkeep (hf : task.finished = true) : task'.finished = true := by
      rcases hsame with rfl | hlt
      · exact hf
      · rw [← World.finished_of_task htask, he.unfinished hlt] at hf
        cases hf
    rcases summoned_append hsummoned with hmem | hbefore
    · refine (hheeds.queued t (hnew ▸ hmem)).imp_right fun hf => hkeep ?_
      rwa [World.finished_of_task htask] at hf
    · rw [ha] at hbefore
      exact (h t task htask hbefore).imp (hheeds.ready t) hkeep

theorem turn (h : r.Heeded) (ht : r.Turn r') : r'.Heeded := by
  cases ht with
  | code | future | call | handle => exact h
  | @poll w t c stack u task p hu hp hs =>
    intro v task' hv hsummoned
    obtain ⟨hne, hbefore⟩ := Bool.and_eq_true_iff.1 hsummoned
    have hvu : v ≠ u := by
      rintro rfl
      obtain rfl := Option.some.inj (hu.symm.trans hv)
      simp at hne
    exact (h v task' hv hbefore).imp_left (List.mem_erase_of_ne hvu).2
  | @executor w _ _ hpoll =>
    obtain ⟨t, task, p, rest, ⟨ht, hp, hdrop⟩, rfl⟩ := World.ofPoll?_eq_some hpoll
    intro v task' hv hsummoned
    obtain ⟨hne, hbefore⟩ := Bool.and_eq_true_iff.1 hsummoned
    have hvt : v ≠ t := by
      rintro rfl
      obtain rfl := Option.some.inj (ht.symm.trans hv)
      simp at hne
    rcases h v task' hv hbefore with hready | hf
    · cases hf : task'.finished with
      | true => exact .inr rfl
      | false =>
        have hmem := World.mem_dropWhile_finished hready
          ((World.finished_of_task hv).trans hf)
        rw [hdrop] at hmem
        exact .inl ((List.mem_cons.1 hmem).resolve_left hvt)
    · exact .inr hf

end Run.Heeded

/-- **A task that has been woken is queued until it is polled**, unless it is finished. -/
theorem Trail.heeded (h : Trail m ok past r) : r.Exclusive ∧ r.Heeded := by
  induction h with
  | start c => exact ⟨fun _ => ⟨Nat.zero_le 1, nofun⟩, fun _ _ h => nomatch h⟩
  | step _ _ hs ih => exact ⟨ih.1.step hs, ih.2.step ih.1 hs⟩
  | turn _ ht ih => exact ⟨ih.1.turn ht, ih.2.turn ht⟩

end Statechart
