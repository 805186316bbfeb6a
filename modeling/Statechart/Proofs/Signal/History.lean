import Statechart.Proofs.Lifecycle.Sound
import Statechart.Proofs.Run.Path
import Statechart.Proofs.Signal.Toll

/-!
The histories of the signals of a run. Whatever user code does, and in the middle of whatever abort,
what is done to the signal of an activation and what comes of it is a course of that signal: it
fires once, and runs the observer that was in the slot.
-/

namespace Statechart

variable {σ : Signature} {m : Machine σ} {ok : Run σ → Prop} {r r' : Run σ} {k : ActivationId}
  {g : Signal (Code σ)} {w : World σ} {stack : List (Frame σ)}

/-! ### What is done to a signal -/

/-- The abort of `k`, if the next step fires its signal, and the observer that is run at once. -/
def Run.firing (m : Machine σ) (k : ActivationId) (r : Run σ) : List (Stroke (Code σ)) :=
  match r.step m with
  | none => []
  | some r' =>
    if r'.world.aborted k && !r.world.aborted k then .aborted :: r'.code?.toList.map .ran else []

/-- **What the next step does to the signal of `k`**, and what comes of it in this step. -/
def Run.strokes (m : Machine σ) (k : ActivationId) (r : Run σ) : List (Stroke (Code σ)) :=
  match r.world.signal? k, r.control, r.stack with
  | none, _, _ => []
  | some _, .code t (.onAbort observer _), _ =>
    if t.activation? = some k then [.set observer] else []
  | some _, .code t (.clearAbort _), _ => if t.activation? = some k then [.cleared] else []
  | some _, .future poller _ (.awaiting j ..), _ => if j = k then [.polled poller.waker] else []
  | some _, .ended _, .exiting j wakers cleanup :: _ =>
    ((Frame.exiting j wakers cleanup).chores k).map Chore.stroke
  | some _, _, _ => r.firing m k

/-- What has been done to the signal of `k`, and what has come of it, in the steps from the runs
`past`, the latest first. -/
def strokesOf (m : Machine σ) (k : ActivationId) (past : List (Run σ)) : List (Stroke (Code σ)) :=
  past.reverse.flatMap (Run.strokes m k)

/-! ### Steps -/

theorem World.aborted_eq (w : World σ) (k : ActivationId) :
    w.aborted k = (w.signal? k).any Signal.aborted := by
  rw [aborted, signal?, Option.any_map]

theorem free_choresOf (g : Signal (Code σ)) (k : ActivationId) (stack : List (Frame σ)) :
    Alarm.Free ⟨g, choresOf k stack⟩ := by
  intro b rest h
  have hmem : .run b ∈ choresOf k stack := by
    rw [show choresOf k stack = .run b :: rest from h]
    exact List.mem_cons_self
  obtain ⟨f, -, hf⟩ := List.mem_flatMap.1 hmem
  cases f with
  | exiting j wakers cleanup =>
    rw [Frame.chores] at hf
    split at hf <;> simp at hf
  | _ => cases hf

/-- Chores are done one after another. -/
theorem Alarm.course_chores {β : Type} (g : Signal β) (cs rest : List (Chore β)) :
    Course ⟨g, cs ++ rest⟩ (cs.map Chore.stroke) ⟨g, rest⟩ := by
  induction cs with
  | nil => exact .refl
  | cons c cs ih => exact (Course.refl.snoc .chore).trans ih

/-- What a step does to the signal of `k`: if it is there, it takes its course; if it is not, it
begins at most. -/
structure Run.Strikes (m : Machine σ) (k : ActivationId) (r r' : Run σ) : Prop where
  course : ∀ {g : Signal (Code σ)}, r.world.signal? k = some g →
    ∃ g', r'.world.signal? k = some g' ∧
      Alarm.Course ⟨g, choresOf k r.stack⟩ (r.strokes m k) ⟨g', choresOf k r'.stack⟩
  begun : r.world.signal? k = none → choresOf k r.stack = [] →
    (∀ g, r'.world.signal? k = some g → g = {}) ∧ choresOf k r'.stack = []

/-- Every live activation has a signal that has not fired. -/
def World.Quick (w : World σ) : Prop :=
  ∀ i inst k, w.instances.get? i = some inst → inst.active = some k → w.aborted k = false

/-- A step that leaves a signal and its aborts alone does not fire it. -/
theorem Run.firing_same (h : r.step m = some r') (hs : r'.world.signal? k = r.world.signal? k) :
    r.firing m k = [] := by
  have hflag : r'.world.aborted k = r.world.aborted k := by
    rw [World.aborted_eq, World.aborted_eq, hs]
  simp [firing, h, hflag]

theorem Run.Tolls.course (ht : r'.Tolls r.world r.stack) (h : r.step m = some r')
    (hq : r.world.Quick) (hk : r.world.signal? k = some g) :
    ∃ g', r'.world.signal? k = some g' ∧
      Alarm.Course ⟨g, choresOf k r.stack⟩ (r.firing m k) ⟨g', choresOf k r'.stack⟩ := by
  have same (hs : r'.world.signal? k = r.world.signal? k)
      (hc : choresOf k r'.stack = choresOf k r.stack) : ∃ g', r'.world.signal? k = some g' ∧
        Alarm.Course ⟨g, choresOf k r.stack⟩ (r.firing m k) ⟨g', choresOf k r'.stack⟩ := by
    rw [firing_same h hs, hc]
    exact ⟨g, hs.trans hk, .refl⟩
  cases ht with
  | still hs hc => exact same (hs k) (hc k)
  | @fired i inst j g' hi ha hj hr hs hc =>
    by_cases hkj : k = j
    · subst hkj
      obtain rfl : g' = g := Option.some.inj (hj.symm.trans hk)
      have hflag : r.world.aborted k = false := hq i inst k hi ha
      have hg : ¬ g'.aborted = true := by
        rw [World.aborted_eq, hk] at hflag
        exact Bool.eq_false_iff.1 hflag
      have hk' : r'.world.signal? k = some g'.fire := (hs k).trans (if_pos rfl)
      have hflag' : r'.world.aborted k = true := by
        rw [World.aborted_eq, hk']
        exact g'.aborted_fire
      have hfiring : r.firing m k = .aborted :: g'.fired.toList.map .ran := by
        simp [firing, h, hflag, hflag', hr]
      have hchores : g'.chores = g'.fired.toList.map .run ++ .wait :: g'.woken.map .wake :=
        if_neg hg
      have habort := Alarm.Course.refl.snoc (.abort (free_choresOf g' k r.stack))
      have hrun := Alarm.course_chores g'.fire (g'.fired.toList.map .run)
        (.wait :: g'.woken.map .wake ++ choresOf k r.stack)
      rw [hchores, List.append_assoc] at habort
      rw [List.map_map] at hrun
      refine ⟨g'.fire, hk', ?_⟩
      rw [hfiring, hc k, if_pos rfl]
      exact habort.trans hrun
    · refine same ((hs k).trans (if_neg hkj)) ((hc k).trans ?_)
      rw [if_neg hkj, List.nil_append]
  | @begun j hj hs hc =>
    have hkj : k ≠ j := by
      rintro rfl
      cases hj.symm.trans hk
    exact same ((hs k).trans (if_neg hkj)) (hc k)

/-- What leaves the signals alone, fires the one of a live activation or begins one. -/
theorem Run.Tolls.strikes (ht : r'.Tolls r.world r.stack) (h : r.step m = some r')
    (hq : r.world.Quick) (hs : ∀ g, r.world.signal? k = some g → r.strokes m k = r.firing m k) :
    r.Strikes m k r' where
  course hk := hs _ hk ▸ ht.course h hq hk
  begun hk hc := by
    cases ht with
    | still hs hc' =>
      rw [hs k, hc' k, hk, hc]
      exact ⟨fun g hg => (by cases hg), rfl⟩
    | @fired i inst j g hi ha hj hr hs hc' =>
      have hkj : k ≠ j := by
        rintro rfl
        cases hj.symm.trans hk
      rw [hs k, hc' k, if_neg hkj, if_neg hkj, hk, hc]
      exact ⟨fun g hg => (by cases hg), rfl⟩
    | @begun j hj hs hc' =>
      refine ⟨fun g hg => ?_, (hc' k).trans hc⟩
      rw [hs k, hk] at hg
      split at hg
      · exact (Option.some.inj hg).symm
      · cases hg

/-- One thing is done to a signal. -/
theorem Run.Strikes.deed {p : Prop} [Decidable p] {e : Stroke (Code σ)}
    {f : Signal (Code σ) → Signal (Code σ)}
    (hs : r'.world.signal? k = if p then (r.world.signal? k).map f else r.world.signal? k)
    (hc : choresOf k r'.stack = choresOf k r.stack)
    (he : ∀ g, r.world.signal? k = some g → r.strokes m k = if p then [e] else [])
    (hn : ∀ g, Alarm.Next ⟨g, choresOf k r.stack⟩ e ⟨f g, choresOf k r.stack⟩) :
    r.Strikes m k r' where
  course {g} hk := by
    rw [he g hk, hc, hs, hk]
    split
    · exact ⟨f g, rfl, Alarm.Course.refl.snoc (hn g)⟩
    · exact ⟨g, rfl, .refl⟩
  begun hk hc' := by
    rw [hs, hk, hc, hc']
    exact ⟨fun g hg => (by split at hg <;> cases hg), rfl⟩

namespace World

theorem signal?_modifySignal (w : World σ) (f : Signal (Code σ) → Signal (Code σ))
    (j k : ActivationId) :
    (w.modifyActivation j fun a => { a with signal := f a.signal }).signal? k =
      if j = k then (w.signal? k).map f else w.signal? k := by
  rw [signal?_modifyActivation]
  simp only [eq_comm (a := k), signal?, Option.map_map]
  rfl

/-- What makes no difference to a signal that has fired. -/
theorem signal?_fired {f : Signal (Code σ) → Signal (Code σ)} (ha : w.aborted k = true)
    (hf : ∀ g : Signal (Code σ), g.aborted = true → f g = g) :
    (w.signal? k).map f = w.signal? k := by
  rw [aborted_eq] at ha
  cases hg : w.signal? k with
  | none => rfl
  | some g =>
    rw [hg] at ha
    exact congrArg some (hf g ha)

theorem signal?_onAbort (w : World σ) (t : Target σ) (observer next : Code σ)
    (stack : List (Frame σ)) (k : ActivationId) :
    (w.onAbort t observer next stack).world.signal? k =
      (if t.activation? = some k then (w.signal? k).map (·.setObserver observer)
        else w.signal? k) ∧ choresOf k (w.onAbort t observer next stack).stack =
      choresOf k stack := by
  unfold onAbort
  cases ht : t.activation? with
  | none => exact ⟨(if_neg (by simp)).symm, rfl⟩
  | some j =>
    simp only [Option.some.injEq]
    split
    · next ha =>
      refine ⟨?_, rfl⟩
      split
      · next hj =>
        subst hj
        exact (signal?_fired ha fun g hg => if_pos hg).symm
      · rfl
    · exact ⟨w.signal?_modifySignal (·.setObserver observer) j k, rfl⟩

theorem signal?_clearAbort {t : Target σ} {next : Code σ}
    (h : w.perform m t stack (.clearAbort next) = some r) (k : ActivationId) :
    r.world.signal? k = (if t.activation? = some k then (w.signal? k).map (·.clearObserver)
      else w.signal? k) ∧ choresOf k r.stack = choresOf k stack := by
  simp only [perform] at h
  split at h
  · next ht =>
    obtain rfl := Option.some.inj h
    exact ⟨(if_neg (by simp [ht])).symm, rfl⟩
  · next j ht =>
    obtain rfl := Option.some.inj h
    simp only [ht, Option.some.injEq]
    exact ⟨w.signal?_modifySignal (·.clearObserver) j k, rfl⟩

theorem signal?_await {poller : Poller} {j k' : ActivationId} {next : Future σ}
    {last : Option (Code σ)} (h : w.advance m poller k' stack (.awaiting j next last) = some r)
    (k : ActivationId) :
    r.world.signal? k = (if j = k then (w.signal? k).map (·.register poller.waker)
      else w.signal? k) ∧ choresOf k r.stack = choresOf k stack := by
  cases advance_cases h with
  | goOn ha =>
    refine ⟨?_, rfl⟩
    split
    · next hj =>
      subst hj
      exact (signal?_fired (ha j next last rfl) fun g hg => if_pos (by simp [hg])).symm
    · rfl
  | finish hp | stall hp => exact absurd rfl (hp j next last)
  | wait _ h =>
    obtain ⟨hs, hc⟩ := tolls_suspend h
    exact ⟨(hs k).trans (w.signal?_modifySignal (·.register poller.waker) j k), hc k⟩

/-- An abort goes on when its observer has returned. -/
theorem signal?_exiting {e : Ending σ} {j : ActivationId} {wakers : List Waker}
    {cleanup : Option (Cleanup σ)}
    (h : w.proceed m e stack (.exiting j wakers cleanup) = some r) (k : ActivationId) :
    r.world.signal? k = w.signal? k ∧ r.stack = stack := by
  cases cleanup <;>
  · obtain rfl := Option.some.inj h
    exact ⟨signal?_same (activations_wakers wakers) k, rfl⟩

end World

/-- **What a step does to a signal is what comes next of it.** -/
theorem Run.strikes_step (h : r.step m = some r') (hq : r.world.Quick) (k : ActivationId) :
    r.Strikes m k r' := by
  obtain ⟨w, control, stack⟩ := r
  cases control with
  | code t c =>
    have hp : w.perform m t stack c = some r' := h
    cases c with
    | onAbort observer next =>
      obtain rfl := Option.some.inj h
      obtain ⟨hs, hc⟩ := w.signal?_onAbort t observer next stack k
      exact .deed hs hc (fun g hg => by simp only [strokes, hg])
        fun g => .set observer (free_choresOf g k stack)
    | clearAbort next =>
      obtain ⟨hs, hc⟩ := World.signal?_clearAbort hp k
      exact .deed hs hc (fun g hg => by simp only [strokes, hg])
        fun g => .clear (free_choresOf g k stack)
    | _ =>
      refine (World.tolls_perform hp (fun _ _ hc => ?_) fun _ hc => ?_).strikes h hq fun g hg => ?_
      · cases hc
      · cases hc
      · simp only [strokes, hg]
  | future poller j p =>
    have hp : w.advance m poller j stack p = some r' := h
    cases p with
    | awaiting j' next last =>
      obtain ⟨hs, hc⟩ := World.signal?_await hp k
      exact .deed hs hc (fun g hg => by simp only [strokes, hg])
        fun g => .poll poller.waker (free_choresOf g k stack)
    | stalled | ready =>
      refine (World.tolls_advance hp fun _ _ _ hp => ?_).strikes h hq fun g hg => ?_
      · cases hp
      · simp only [strokes, hg]
  | ended e =>
    cases stack with
    | nil => cases h
    | cons f stack =>
      have hp : w.proceed m e stack f = some r' := h
      cases f with
      | exiting j wakers cleanup =>
        obtain ⟨hs, hst⟩ := World.signal?_exiting hp k
        refine ⟨fun {g} hk => ⟨g, hs.trans hk, ?_⟩, fun hk hc => ?_⟩
        · rw [hst]
          simp only [strokes, hk]
          exact Alarm.course_chores g _ (choresOf k stack)
        · rw [hs, hk, hst]
          exact ⟨fun g hg => (by cases hg), (List.append_eq_nil_iff.1 hc).2⟩
      | _ =>
        refine (World.tolls_proceed hp fun _ _ _ hf => ?_).strikes h hq fun g hg => ?_
        · cases hf
        · simp only [strokes, hg]

/-! ### Runs -/

/-- A turn leaves the signals and the aborts alone. -/
theorem Run.still_turn (h : r.Turn r') (k : ActivationId) :
    r'.world.signal? k = r.world.signal? k ∧ choresOf k r'.stack = choresOf k r.stack := by
  cases h with
  | executor h =>
    obtain ⟨t, task, p, rest, -, rfl⟩ := World.ofPoll?_eq_some h
    exact ⟨rfl, rfl⟩
  | _ => exact ⟨rfl, rfl⟩

/-- The live activations of the runs that occur have not been aborted. -/
theorem Reach.quick (h : Reach m ok r) : r.world.Quick := by
  intro i inst k hi ha
  obtain ⟨t, hk, -, ht⟩ := h.sound.active i inst.standing k (World.life_instances hi) ha
  obtain ⟨a, ha, rfl⟩ := Option.map_eq_some_iff.1 hk
  rw [World.aborted, show r.world.activations.get? k = some a from ha]
  exact ht

theorem strokesOf_cons (past : List (Run σ)) :
    strokesOf m k (r :: past) = strokesOf m k past ++ r.strokes m k := by
  simp [strokesOf]

/-- **The signals of the runs that occur take their course**, each from the beginning of its
activation on. -/
theorem Trail.course {past : List (Run σ)} (h : Trail m ok past r) :
    (r.world.signal? k = none → strokesOf m k past = [] ∧ choresOf k r.stack = []) ∧
      ∀ g, r.world.signal? k = some g →
        Alarm.Course {} (strokesOf m k past) ⟨g, choresOf k r.stack⟩ := by
  induction h with
  | start c => exact ⟨fun _ => ⟨rfl, rfl⟩, fun g hg => (by cases hg)⟩
  | @step past r r' h hr hs ih =>
    obtain ⟨hcourse, hbegun⟩ := Run.strikes_step hs h.reach.quick k
    rw [strokesOf_cons]
    cases hk : r.world.signal? k with
    | none =>
      obtain ⟨hpast, hchores⟩ := ih.1 hk
      obtain ⟨hfresh, hchores'⟩ := hbegun hk hchores
      have hnone : r.strokes m k = [] := by simp only [Run.strokes, hk]
      rw [hpast, hnone, hchores']
      exact ⟨fun _ => ⟨rfl, rfl⟩, fun g hg => hfresh g hg ▸ .refl⟩
    | some g =>
      obtain ⟨g', hk', hg'⟩ := hcourse hk
      rw [hk']
      refine ⟨fun hnone => (by cases hnone), fun g'' hg'' => ?_⟩
      obtain rfl := Option.some.inj hg''
      exact (ih.2 g hk).trans hg'
  | turn _ ht ih =>
    obtain ⟨hs, hc⟩ := Run.still_turn ht k
    rw [hs, hc]
    exact ih

/-! ### The law of a signal -/

/-- **A signal fires once, and runs the observer that was set last**, if there is one that has not
been cleared since. It does so at once, and wakes those who wait when the observer has returned;
from then on its slot is empty, whatever is done to it. This is so for everything that may be done
to a signal, in whatever order, and so for the signal of every activation of every run. -/
theorem signal_told (β : Type) (m : Machine σ) (ok : Run σ → Prop) :
    (∀ {h : List (Stroke β)} {s : Alarm β}, Alarm.Course {} h s → s.Told h) ∧
    ∀ {past : List (Run σ)} {r : Run σ} {k : ActivationId} {a : Activation σ},
      Trail m ok past r → r.world.activations.get? k = some a →
        Alarm.Course {} (strokesOf m k past) ⟨a.signal, choresOf k r.stack⟩ ∧
          Alarm.Told (strokesOf m k past) ⟨a.signal, choresOf k r.stack⟩ := by
  refine ⟨fun hc => hc.told, fun {past r k a} h hk => ?_⟩
  have hcourse := h.course.2 a.signal (congrArg (Option.map Activation.signal) hk)
  exact ⟨hcourse, hcourse.told⟩

/-! ### A guarded lamp -/

/-- An observer replaces another one, and sets a third one in vain when it is run. -/
def Alarm.busy : List (Stroke Nat) :=
  [.set 1, .set 2, .polled (.task 0), .aborted, .ran 2, .set 3, .aborted, .observed,
    .woken (.task 0)]

theorem Alarm.course_busy : Course {} busy ⟨{ aborted := true }, []⟩ :=
  ((((((((Course.refl.snoc (.set 1 fun _ _ h => by cases h)).snoc
    (.set 2 fun _ _ h => by cases h)).snoc (.poll (.task 0) fun _ _ h => by cases h)).snoc
    (.abort fun _ _ h => by cases h)).snoc .chore).snoc (.set 3 fun _ _ h => by cases h)).snoc
    (.abort fun _ _ h => by cases h)).snoc .chore).snoc .chore

namespace Lamp

/-- A lamp that goes on at once. Its first effect sets an observer and then another one, which sets
a third one when it is run. -/
def guarded : Machine sig where
  config := ⟨.ofPairs
    [(false, {
        transitions := .ofPairs [((), true)]
        effect := some (.onAbort (.finish .done)
          (.onAbort (.onAbort (.finish .done) (.finish .done)) (.dispatch () none .ofReply))) }),
      (true, {})]⟩
  initialState := false
  initialContext := (0 : Nat)
  spawner := none
  declared := by decide

/-- The runs of the guarded lamp until its observer has returned. -/
def guardedRuns : List (Run sig) := ((List.range 8).map fun a => placement.steps guarded a).reverse

theorem trail_guarded : Trail guarded (fun _ => True) guardedRuns (placement.steps guarded 8) := by
  have hstart : Trail guarded (fun _ => True) [] placement := .start _
  have hcounted := hstart.counted 8 (fun _ _ => trivial) (by decide +kernel)
  rwa [List.append_nil] at hcounted

end Lamp

/-- The second observer is the only one that is run, of the busy signal and of the lamp, and there
is none left. -/
theorem Lamp.guarded_told :
    (Alarm.Told Alarm.busy ⟨{ aborted := true }, []⟩ ∧ ranIn Alarm.busy = [2]) ∧
    ∃ a, (placement.steps guarded 8).world.activations.get? 0 = some a ∧
      Alarm.Told (strokesOf guarded 0 guardedRuns)
        ⟨a.signal, choresOf 0 (placement.steps guarded 8).stack⟩ ∧
      (strokesOf guarded 0 guardedRuns).map Stroke.isDeed =
        [true, true, true, false, true, false] ∧
      (ranIn (strokesOf guarded 0 guardedRuns)).length = 1 ∧ a.signal.observer.isNone = true := by
  obtain ⟨hsignals, hruns⟩ := signal_told Nat Lamp.guarded fun _ => True
  exact ⟨⟨hsignals Alarm.course_busy, rfl⟩, _, rfl, (hruns trail_guarded rfl).2, by decide +kernel,
    by decide +kernel, by decide +kernel⟩

end Statechart
