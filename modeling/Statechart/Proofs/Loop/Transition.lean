import Statechart.Proofs.Loop.Residue

/-!
One transition, seen from its caller. The exit runs the abort observer and the cleanup of the live
activation, which keep to an activation that is over, so that it comes to its end with nothing moved
but the instance itself; without observers, the write of the state variable leads straight to the
entry.
-/

namespace Statechart

variable {σ : Signature} {m : Machine σ} {w w' : World σ} {i : InstanceId} {k : ActivationId}
  {inst : Instance σ}

namespace World

theorem aside_modifyInstance (w : World σ) (i : InstanceId) (f : Instance σ → Instance σ) :
    w.Aside i (w.modifyInstance i f) where
  slots := rfl
  instances j hj := by rw [modifyInstance, Roster.get?_modify, if_neg hj]
  started := Nat.le_refl _
  aborted _ := id
  confined := id

/-! ### Exit -/

/-- After the abort observer, the cleanup of an exit comes to its end. -/
theorem exiting_leads (hk : w.aborted k = true) {wakers : List Waker}
    {cleanup : Option (Cleanup σ)}
    (hc : ∀ c, cleanup = some c → c.author = k ∧ c.code.Confined) (e : Ending σ)
    (stack : List (Frame σ)) :
    ∃ w' e', Run.Leads m ⟨w, .ended e, .exiting k wakers cleanup :: stack⟩
      ⟨w', .ended e', stack⟩ ∧ w.Unmoved w' := by
  have hu := w.unmoved_wakers wakers
  cases cleanup with
  | none => exact ⟨_, .done, .step rfl (.refl _), hu⟩
  | some c =>
    obtain ⟨rfl, hcode⟩ := hc c rfl
    have hu' := hu.trans (unmoved_record _ (e := .cleanupRun c.author c.author) rfl)
    obtain ⟨w', e', hl, hu'', -⟩ :=
      hcode.residue (m := m) (t := .handle c.author) rfl (hu'.aborted _ hk) stack
    exact ⟨w', e', .step rfl hl, hu'.trans hu''⟩

/-- The abort observer of an activation that is over comes to its end. -/
theorem observing_leads (hk : w.aborted k = true) {o : Option (Code σ)}
    (ho : ∀ c, o = some c → c.Confined) (stack : List (Frame σ)) :
    ∃ w' e, (w.observing k o stack).Leads m ⟨w', .ended e, stack⟩ ∧ w.Unmoved w' := by
  cases o with
  | none => exact ⟨w, .done, .refl _, .refl w⟩
  | some c =>
    have hu := w.unmoved_record (e := .observing k) rfl
    obtain ⟨w', e, hl, hu', -⟩ :=
      (ho c rfl).residue (m := m) (t := .handle k) rfl (hu.aborted k hk) stack
    exact ⟨w', e, hl, hu.trans hu'⟩

/-- An activation that is torn down loses what was stored with it. -/
theorem aside_tearDown (w : World σ) (i : InstanceId) (k : ActivationId) (s : σ.State) :
    w.Aside i (w.tearDown i k s) := by
  refine (((w.unmoved_record rfl).aside i).trans (aside_modifyInstance _ i _)).trans
    (((unmoved_modifyActivation _ k (fun a _ => a.signal.aborted_fire) fun a _ h => ?_).trans
      (unmoved_record _ rfl)).aside i)
  rw [a.tenure_tornDown]
  exact Tenure.confined_spent h

theorem moves_tearDown (s : σ.State) : (w.tearDown i k s).moves = w.moves := rfl

theorem instances_tearDown (hi : w.instances.get? i = some inst) (k : ActivationId)
    (s : σ.State) :
    (w.tearDown i k s).instances.get? i = some { inst with active := none } := by
  simp only [tearDown, record, modifyActivation, modifyInstance, Roster.get?_modify, if_true, hi,
    Option.map_some]

theorem aborted_tearDown {a : Activation σ} (hk : w.activations.get? k = some a) (i : InstanceId)
    (s : σ.State) : (w.tearDown i k s).aborted k = true := by
  refine aborted_iff.2 ⟨a.tornDown, ?_, a.signal.aborted_fire⟩
  simp only [tearDown, record, modifyActivation, modifyInstance, Roster.get?_modify, if_true, hk,
    Option.map_some]

/-- **An exit comes to its end.** It moves no other instance, and leaves this one without a live
activation. -/
theorem exit_leads (hi : w.instances.get? i = some inst)
    (hk : ∀ k, inst.active = some k → k < w.activations.size) (hs : w.Confined)
    (stack : List (Frame σ)) :
    ∃ r, w.exit i stack = some r ∧ ∃ w' e, r.Leads m ⟨w', .ended e, stack⟩ ∧ w.Aside i w' ∧
      w'.instances.get? i = some { inst with active := none } ∧ w'.moves = w.moves ∧
      ∀ k, inst.active = some k → w'.aborted k = true := by
  cases hact : inst.active with
  | none =>
    refine ⟨_, exit_of_vacant hi hact stack, w, .done, .refl _, (Unmoved.refl w).aside i, ?_, rfl,
      by rintro _ ⟨⟩⟩
    rw [hi, ← hact]
  | some k =>
    obtain ⟨a, ha⟩ := Option.isSome_iff_exists.1
      ((Roster.isSome_get? w.activations k).2 (hk k hact))
    obtain ⟨hobs, hcl⟩ := hs k a ha
    obtain ⟨w₁, hw₁⟩ : ∃ w₁, w₁ = w.tearDown i k inst.state.value := ⟨_, rfl⟩
    have hab : w₁.aborted k = true := hw₁ ▸ aborted_tearDown ha i _
    have hfired : ∀ c, a.signal.fired = some c → c.Confined := by
      intro c hf
      unfold Signal.fired at hf
      split at hf
      · cases hf
      · exact hobs c hf
    rw [exit_of_active hi hact ha, ← hw₁]
    -- what is left to be run moves nothing
    obtain ⟨w₂, e₂, hl₂, hu₂⟩ := observing_leads (m := m) hab hfired
      (.exiting k a.signal.woken a.cleanup :: stack)
    obtain ⟨w', e', hl, hu⟩ := exiting_leads (m := m) (hu₂.aborted k hab) hcl e₂ stack
    subst hw₁
    have hu := hu₂.trans hu
    refine ⟨_, rfl, w', e', hl₂.trans hl, (aside_tearDown w i k _).trans (hu.aside i), ?_,
      hu.moves.trans (moves_tearDown _), ?_⟩
    · rw [hu.instances, instances_tearDown hi]
    · rintro _ ⟨⟩
      exact hu.aborted k hab

/-! ### Transition -/

variable {a : σ.Action}

/-- An action that leads nowhere moves nothing. -/
theorem dispatch_refused (hi : w.instances.get? i = some inst) {q : Except MachineError Unit}
    (ho : m.outcome inst.state.value a = .inr q) (caller : Caller) (p : Option σ.Payload)
    (stack : List (Frame σ)) :
    ∃ w' e, w.dispatch m i caller a p stack = some ⟨w', .ended e, stack⟩ ∧ e.reply = q ∧
      w.Unmoved w' ∧ w'.activations = w.activations := by
  unfold Machine.outcome at ho
  cases ht : m.config.target? inst.state.value a with
  | none =>
    simp only [ht] at ho
    obtain rfl := Sum.inr.inj ho
    exact ⟨_, .done, by simp [dispatch, hi, ht]; rfl, rfl, w.unmoved_record rfl, rfl⟩
  | some t =>
    simp only [ht] at ho
    split at ho
    · cases ho
    · next hd =>
      obtain rfl := Sum.inr.inj ho
      exact ⟨w, _, by simp [dispatch, hi, ht, hd]; rfl, rfl, .refl w, rfl⟩

/-- A write is no entry. -/
theorem visits_of_write {s t : σ.State} {p : Option σ.Payload}
    (h : w'.moves = .wrote i s t a p :: w.moves) (j : InstanceId) : w'.visits j = w.visits j := by
  rw [visits_eq, visits_eq, h]
  rfl

/-- **A transition comes to its entry.** -/
theorem dispatch_leads (hi : w.instances.get? i = some inst) {t : σ.State}
    (ho : m.outcome inst.state.value a = .inl t) (hobs : inst.state.observers = [])
    (hk : ∀ k, inst.active = some k → k < w.activations.size) (hs : w.Confined)
    (caller : Caller) (p : Option σ.Payload) (stack : List (Frame σ)) :
    ∃ r, w.dispatch m i caller a p stack = some r ∧ ∃ w',
      r.Leads m ⟨w', .ended .done, .entering i (.action a) p :: stack⟩ ∧ w.Aside i w' ∧
      w'.instances.get? i = some { inst with state := inst.state.write t, active := none } ∧
      w'.moves = .wrote i inst.state.value t a p :: w.moves ∧
      ∀ k, inst.active = some k → w'.aborted k = true := by
  unfold Machine.outcome at ho
  cases ht : m.config.target? inst.state.value a with
  | none => simp [ht] at ho
  | some t' =>
    simp only [ht] at ho
    split at ho
    · next hd =>
      obtain rfl := Sum.inl.inj ho
      have hu := w.unmoved_record (e := .transition i caller inst.state.value t' a) rfl
      obtain ⟨r, hr, w₁, e₁, hl, hside, hi₁, hmoves, hab⟩ := exit_leads (m := m)
        (w := w.record (.transition i caller inst.state.value t' a)) hi hk (hu.confined hs)
        (.changing i t' a p :: stack)
      refine ⟨r, by simpa [dispatch, hi, ht, hd] using hr, ?_⟩
      -- the write, of which no observer is told
      have hside₁ := (w₁.aside_record i (.wrote i inst.state.value t' a p)).trans
        (aside_modifyInstance _ i fun inst => { inst with state := inst.state.write t' })
      have hstep : Run.step m ⟨w₁, .ended e₁, .changing i t' a p :: stack⟩ =
          some ⟨(w₁.record (.wrote i inst.state.value t' a p)).modifyInstance i fun inst =>
              { inst with state := inst.state.write t' }, .ended .done,
            .notifying [] :: .entering i (.action a) p :: stack⟩ := by
        simp [Run.step, proceed, change, hi₁, hobs]
      refine ⟨_, hl.trans (.step hstep (.step rfl (.refl _))),
        ((hu.aside i).trans hside).trans hside₁, ?_, ?_, fun k hk => hside₁.aborted k (hab k hk)⟩
      · simp only [modifyInstance, record, Roster.get?_modify, if_true, hi₁, Option.map_some]
      · exact congrArg _ (hmoves.trans hu.moves)
    · cases ho

end World

end Statechart
