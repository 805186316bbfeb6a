import Statechart.Proofs.Activation.Handle

/-!
The window in which an activation may write the context: it opens with the effect body, and is
closed by whatever comes first, the end of the entry or the beginning of the exit. Only through an
open window is a context written, so that the activations of an instance write one after the other,
and nothing writes while no entry is under way.
-/

namespace Statechart

variable {σ : Signature} {m : Machine σ} {ok : Run σ → Prop} {r r' : Run σ} {l : Life σ}
  {k : ActivationId}

/-! ### Open windows -/

/-- An activation accepts context writes while its entry is under way and its exit has not begun. -/
theorem Reach.window_iff (h : Reach m ok r) {a : Activation σ}
    (hk : r.world.activations.get? k = some a) :
    (a.windowOpen = true ∧ a.signal.aborted = false) ↔
      r.exited k = false ∧ r.entering k = true := by
  have hw := h.sound.window k a.tenure (World.life_activations hk)
  have he := h.exited_iff_aborted hk
  rw [← Run.entry_mem_stages]
  simp only [Activation.windowOpen_tenure, Activation.aborted_tenure] at hw
  constructor
  · rintro ⟨ho, ha⟩
    refine ⟨?_, (hw.1 ho).2⟩
    rw [← Bool.not_eq_true, he, ha]
    exact Bool.false_ne_true
  · rintro ⟨hex, hen⟩
    have ha : a.signal.aborted = false := by
      rw [← Bool.not_eq_true, ← he, hex]
      exact Bool.false_ne_true
    exact ⟨hw.2 ⟨ha, hen⟩, ha⟩

/-! ### Writes -/

/-- A move leaves the context of an instance alone, unless it is a write through an open window. -/
theorem Move.context (hm : Move m r l) (hc : r.life.Counted) {i : InstanceId} {s s' : Standing σ}
    (hi : r.life.instances i = some s) (hi' : l.instances i = some s')
    (hs : s'.context ≠ s.context) :
    ∃ k b, r.life.activations k = some b ∧ b.owner = i ∧ b.windowOpen = true := by
  have same (h : r.life.instances i = some s') : s'.context = s.context := by
    rw [hi] at h
    rw [Option.some.inj h]
  have placed := hc.placed
  clear hc
  cases hm
  case quiet => exact absurd (same hi') hs
  case write k b u c hk hb ho hj =>
    by_cases he : i = b.owner
    · exact ⟨k, b, hk, he.symm, ho⟩
    · exact absurd (same ((if_neg he).symm.trans hi')) hs
  all_goals
    generalize r.life = l at *
    simp only [Life.note, Life.on, Life.addInstance, Life.modifyInstance, Life.modifyActivation,
      Life.begin, Life.tearDown, Life.addActivation] at hi'
    grind

/-- **The context of an instance does not change while none of its entries is under way.** -/
theorem Reach.context_kept (h : Reach m ok r) (hs : r.step m = some r' ∨ r.Turn r')
    {i : InstanceId} {inst inst' : Instance σ} (hi : r.world.instances.get? i = some inst)
    (hi' : r'.world.instances.get? i = some inst')
    (hn : ∀ k a, r.world.activations.get? k = some a → a.owner = i → r.entering k = false) :
    inst'.context.value = inst.context.value := by
  have hl : r.life.instances i = some inst.standing := World.life_instances hi
  have hl' : r'.life.instances i = some inst'.standing :=
    World.life_instances hi'
  rcases hs with hs | ht
  · by_contra hne
    obtain ⟨k, b, hk, ho, hw⟩ := (Run.move_step hs).context h.sound.toCounted hl hl' hne
    obtain ⟨a, ha, rfl⟩ := Option.map_eq_some_iff.1 hk
    have he := ((h.sound.window k _ hk).1 hw).2
    rw [Run.entry_mem_stages, hn k a ha ho] at he
    cases he
  · rw [Run.life_turn ht, hl] at hl'
    exact congrArg Standing.context (Option.some.inj hl').symm

/-! ### All of it -/

theorem Run.filterMap_writer (r : Run σ) (i : InstanceId) :
    r.life.past.filterMap (Event.writer? i) = r.world.journal.filterMap (Event.writer? i) :=
  Run.filterMap_past fun e he => by cases e <;> first | rfl | cases he

/-- **The context is written through open windows only.** Whatever code asks through a handle of
activation `k`, the answer is whether the exit of `k` has not begun and its entry has not returned;
a write through the handle replaces the context in this case, and is no more than a warning in the
other. The accepted writes of an instance are made by its activations in the order of their start,
and none is made while no entry of the instance is under way. -/
theorem Reach.context_windows (h : Reach m ok r) (hd : r.displaced = false) :
    (∀ k a, r.world.activations.get? k = some a → ∀ t : Target σ, t.activation? = some k →
      ∃ v, r.world.view t = some v ∧
        (v.canSetContext = true ↔ r.exited k = false ∧ r.entering k = true) ∧
        ∀ c next, r.control = .code t (.setContext c next) →
          (v.canSetContext = true → ∃ calls, r.step m =
            some ⟨(r.world.record (.contextSet a.owner k c)).modifyInstance a.owner fun inst =>
                { inst with context := inst.context.write c }, .ended .done,
              .notifying calls :: .resume t (fun _ => next) :: r.stack⟩) ∧
          (v.canSetContext = false → ∃ e : Event σ, e.Warns ∧
            r.step m = some ⟨r.world.record e, .code t next, r.stack⟩)) ∧
    (∀ i, (r.world.history.filterMap (Event.writer? i)).Pairwise (· ≤ ·)) ∧
    ∀ r', r.step m = some r' ∨ r.Turn r' → ∀ i inst inst',
      r.world.instances.get? i = some inst → r'.world.instances.get? i = some inst' →
      (∀ k a, r.world.activations.get? k = some a → a.owner = i → r.entering k = false) →
      inst'.context.value = inst.context.value := by
  refine ⟨fun k a hk t ht => ?_, fun i => ?_, fun r' hs i inst inst' => h.context_kept hs⟩
  · obtain ⟨inst, hi⟩ := h.owner_placed hk
    refine ⟨_, World.view_eq ht hk hi, ?_, fun c next hc => ⟨fun hv => ?_, fun hv => ?_⟩⟩
    · rw [← h.window_iff hk]
      simp [View.canSetContext]
    · simp only [View.canSetContext, Bool.and_eq_true, Bool.not_eq_true'] at hv
      refine ⟨inst.context.observers.map fun o => (.context a.owner o.1 c, o.2 c), ?_⟩
      simp only [Run.step, hc]
      exact World.setContext_open ht hk hv.2 hv.1 hi c next
    · cases ha : a.signal.aborted with
      | true =>
        refine ⟨.contextExpired k a.state, ⟨_, rfl, rfl⟩, ?_⟩
        simp only [Run.step, hc]
        exact World.setContext_expired ht hk ha c next
      | false =>
        have ho : a.windowOpen = false := by simpa [View.canSetContext, ha] using hv
        refine ⟨.contextLate k a.state, ⟨_, rfl, rfl⟩, ?_⟩
        simp only [Run.step, hc]
        exact World.setContext_late ht hk ha ho c next
  · have hs := (h.lawful (Run.displaced_eq_false_iff.1 hd)).sorted i
    rw [r.filterMap_writer i] at hs
    rw [World.history, List.filterMap_reverse, List.pairwise_reverse]
    exact hs

/-- Both activations of the lamp have written the context, and neither may do so any more. -/
theorem lamp_windows :
    (∃ v, Lamp.lit.world.view (.handle 1) = some v ∧ (v.canSetContext = true ↔ False)) ∧
    Lamp.lit.world.history.filterMap (Event.writer? 0) = [0, 1] ∧
    (Lamp.lit.world.history.filterMap (Event.writer? 0)).Pairwise (· ≤ ·) := by
  have h : Reach Lamp.machine (fun _ => True) Lamp.lit := (Reach.start _).steps fun _ _ => trivial
  obtain ⟨hw, ho, -⟩ := h.context_windows (by decide +kernel)
  obtain ⟨v, hv, hiff, -⟩ := hw 1 _ rfl (.handle 1) rfl
  refine ⟨⟨v, hv, hiff.trans ⟨fun hn => ?_, False.elim⟩⟩, by decide +kernel, ho 0⟩
  exact absurd hn.2 (by decide +kernel)

end Statechart
