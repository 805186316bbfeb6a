import Statechart.Proofs.Loop.Script
import Statechart.Proofs.Activation.Handle

/-!
The rest of a body whose activation is over. Code that keeps to itself has only its own activation
to work on, and once this is aborted, its writes and dispatches are refused. So the rest comes to
its end, whatever it is, and moves no instance. For scripts, the same holds of the cleanup that it
hands back, and of everything that the stack still holds for entries that have been exited.
-/

namespace Statechart

variable {σ : Signature} {m : Machine σ} {w w' w'' : World σ} {i : InstanceId} {k : ActivationId}

/-! ### Runs that lead to others -/

/-- The one run comes to the other. -/
def Run.Leads (m : Machine σ) (r r' : Run σ) : Prop := ∃ n, r.steps m n = r'

namespace Run.Leads

variable {r r' r'' : Run σ}

theorem refl (r : Run σ) : r.Leads m r := ⟨0, rfl⟩

theorem step (hs : r.step m = some r') (h : r'.Leads m r'') : r.Leads m r'' := by
  obtain ⟨n, hn⟩ := h
  exact ⟨n + 1, (steps_succ hs n).trans hn⟩

theorem trans (h : r.Leads m r') (h' : r'.Leads m r'') : r.Leads m r'' := by
  obtain ⟨n, rfl⟩ := h
  obtain ⟨n', rfl⟩ := h'
  exact ⟨n + n', steps_add r n n'⟩

/-- Once a run is over, it has passed all that it leads to. -/
theorem passed (h : r.Leads m r') {n : Nat} (hn : (r.steps m n).Over) :
    ∃ n' ≤ n, r'.steps m n' = r.steps m n := by
  obtain ⟨j, rfl⟩ := h
  rcases Nat.le_total j n with hj | hj
  · refine ⟨n - j, Nat.sub_le n j, ?_⟩
    rw [← steps_add, Nat.add_sub_cancel' hj]
  · refine ⟨0, Nat.zero_le n, ?_⟩
    obtain ⟨d, rfl⟩ := Nat.exists_eq_add_of_le hj
    rw [steps_add, steps_of_over hn]
    rfl

end Run.Leads

/-! ### Worlds beside each other -/

theorem World.aborted_iff :
    w.aborted k = true ↔ ∃ a, w.activations.get? k = some a ∧ a.signal.aborted = true := by
  simp [aborted, Option.any_eq_true]

theorem World.visits_record (e : Event σ) :
    (w.record e).visits i = w.visits i ++ (e.visit? i).toList := by
  simp only [visits, history, record, List.reverse_cons, List.filterMap_append]
  cases h : e.visit? i <;> simp [h]

/-- Whether an event reports that an instance has been entered, or that its state or its context has
been written. -/
def Event.moving : Event σ → Bool
  | entered .. | started .. | wrote .. | contextSet .. => true
  | _ => false

/-- The events that report moves of instances, the latest first. -/
def World.moves (w : World σ) : List (Event σ) := w.journal.filter Event.moving

/-- The entries are among the moves. -/
theorem World.visits_eq (w : World σ) (i : InstanceId) :
    w.visits i = (w.moves.filterMap (Event.visit? i)).reverse := by
  rw [visits, history, List.filterMap_reverse, moves, List.filterMap_filter]
  congr 2
  funext e
  cases e <;> rfl

/-- Only instance `i` has moved, and activations of it have been started or ended. -/
structure World.Aside (i : InstanceId) (w w' : World σ) : Prop where
  slots : w'.slots = w.slots
  instances : ∀ j, j ≠ i → w'.instances.get? j = w.instances.get? j
  started : w.activations.size ≤ w'.activations.size
  aborted : ∀ k, w.aborted k = true → w'.aborted k = true
  confined : w.Confined → w'.Confined

/-- No instance has moved. -/
structure World.Unmoved (w w' : World σ) : Prop where
  slots : w'.slots = w.slots
  instances : w'.instances = w.instances
  moves : w'.moves = w.moves
  started : w.activations.size ≤ w'.activations.size
  aborted : ∀ k, w.aborted k = true → w'.aborted k = true
  confined : w.Confined → w'.Confined

namespace World

theorem Aside.trans (h : w.Aside i w') (h' : w'.Aside i w'') : w.Aside i w'' where
  slots := h'.slots.trans h.slots
  instances j hj := (h'.instances j hj).trans (h.instances j hj)
  started := Nat.le_trans h.started h'.started
  aborted k hk := h'.aborted k (h.aborted k hk)
  confined hs := h'.confined (h.confined hs)

theorem Unmoved.refl (w : World σ) : w.Unmoved w :=
  ⟨rfl, rfl, rfl, Nat.le_refl _, fun _ => id, id⟩

theorem Unmoved.visits (h : w.Unmoved w') (i : InstanceId) : w'.visits i = w.visits i := by
  rw [visits_eq, visits_eq, h.moves]

theorem Unmoved.trans (h : w.Unmoved w') (h' : w'.Unmoved w'') : w.Unmoved w'' where
  slots := h'.slots.trans h.slots
  instances := h'.instances.trans h.instances
  moves := h'.moves.trans h.moves
  started := Nat.le_trans h.started h'.started
  aborted k hk := h'.aborted k (h.aborted k hk)
  confined hs := h'.confined (h.confined hs)

theorem Unmoved.aside (h : w.Unmoved w') (i : InstanceId) : w.Aside i w' :=
  ⟨h.slots, fun j _ => congrArg (Roster.get? · j) h.instances, h.started, h.aborted, h.confined⟩

theorem aside_record (w : World σ) (i : InstanceId) (e : Event σ) : w.Aside i (w.record e) :=
  ⟨rfl, fun _ _ => rfl, Nat.le_refl _, fun _ => id, id⟩

theorem unmoved_record (w : World σ) {e : Event σ} (he : e.moving = false) :
    w.Unmoved (w.record e) where
  slots := rfl
  instances := rfl
  moves := by simp [moves, record, he]
  started := Nat.le_refl _
  aborted _ := id
  confined := id

theorem unmoved_modifyActivation (w : World σ) (k : ActivationId) {f : Activation σ → Activation σ}
    (ha : ∀ a, a.signal.aborted = true → (f a).signal.aborted = true)
    (hs : ∀ a, w.activations.get? k = some a → a.tenure.Confined k → (f a).tenure.Confined k) :
    w.Unmoved (w.modifyActivation k f) where
  slots := rfl
  instances := rfl
  moves := rfl
  started := Nat.le_refl _
  aborted j hj := by
    obtain ⟨a, hja, hab⟩ := aborted_iff.1 hj
    rw [aborted_iff, modifyActivation, Roster.get?_modify]
    split
    · exact ⟨f a, by rw [hja]; rfl, ha a hab⟩
    · exact ⟨a, hja, hab⟩
  confined h j a hj := by
    rw [modifyActivation, Roster.get?_modify] at hj
    split at hj
    · next e =>
      subst e
      obtain ⟨b, hb, rfl⟩ := Option.map_eq_some_iff.1 hj
      exact hs b hb (h j b hb)
    · exact h j a hj

theorem unmoved_closeWindow (w : World σ) (k : ActivationId) : w.Unmoved (w.closeWindow k) :=
  w.unmoved_modifyActivation k (fun _ => id) fun _ _ => id

theorem unmoved_fireWaker (w : World σ) (x : Waker) : w.Unmoved (w.fireWaker x) := by
  have hr (t) := w.unmoved_record (e := .woken t) rfl
  cases x with
  | idle => exact .refl w
  | task t =>
    change w.Unmoved (w.wake t)
    unfold wake
    split
    · exact hr t
    · exact ⟨(hr t).slots, (hr t).instances, (hr t).moves, (hr t).started, (hr t).aborted,
        (hr t).confined⟩

theorem unmoved_wakers (w : World σ) (xs : List Waker) : w.Unmoved (xs.foldl fireWaker w) := by
  induction xs generalizing w with
  | nil => exact .refl w
  | cons x xs ih => exact (w.unmoved_fireWaker x).trans (ih _)

end World

/-! ### Code of an activation that is over -/

theorem Ending.own_done : Ending.Own (.done : Ending σ) := by
  rintro _ ⟨⟩
  exact .done

theorem Ending.own_error (e : MachineError) : Ending.Own (.error e : Ending σ) := by
  rintro _ ⟨⟩

/-- **The rest of code that keeps to itself comes to its end and moves nothing.** -/
theorem Code.Confined.residue {c : Code σ} (hc : c.Confined) {t : Target σ}
    (ht : t.activation? = some k) (hk : w.aborted k = true) (stack : List (Frame σ)) :
    ∃ w' e, Run.Leads m ⟨w, .code t c, stack⟩ ⟨w', .ended e, stack⟩ ∧ w.Unmoved w' ∧
      (c.Own → Ending.Own e) := by
  -- one operation, then the rest
  have go {w w₁ : World σ} {t t₁ : Target σ} {c c₁ : Code σ}
      (hs : Run.step m ⟨w, .code t c, stack⟩ = some ⟨w₁, .code t₁ c₁, stack⟩) (hu : w.Unmoved w₁)
      (hown : c.Own → c₁.Own)
      (h : ∃ w' e, Run.Leads m ⟨w₁, .code t₁ c₁, stack⟩ ⟨w', .ended e, stack⟩ ∧ w₁.Unmoved w' ∧
        (c₁.Own → Ending.Own e)) :
      ∃ w' e, Run.Leads m ⟨w, .code t c, stack⟩ ⟨w', .ended e, stack⟩ ∧ w.Unmoved w' ∧
        (c.Own → Ending.Own e) := by
    obtain ⟨w', e, hl, hu', he⟩ := h
    exact ⟨w', e, hl.step hs, hu.trans hu', fun h => he (hown h)⟩
  -- nothing is to be said of outcomes and futures
  induction hc using (fun motive => @Code.Confined.rec σ motive (fun _ _ => True) fun _ _ => True)
    generalizing w t with
  | finish _ =>
    refine ⟨w, .ok _, .step rfl (.refl _), .refl w, ?_⟩
    rintro h _ ⟨⟩
    exact h
  | raise e => exact ⟨w, .error e, .step rfl (.refl _), .refl w, fun _ => Ending.own_error e⟩
  | emit n _ ih =>
    refine go rfl (w.unmoved_record rfl) (fun h => ?_) (ih ht hk)
    cases h with | emit _ h => exact h
  | look _ ih =>
    refine go rfl (.refl w) (fun h => ?_) (ih _ ht hk)
    cases h with | look h => exact h _
  | setContext x _ ih =>
    obtain ⟨a, hka, ha⟩ := World.aborted_iff.1 hk
    refine go (World.setContext_expired ht hka ha x _) (w.unmoved_record rfl) (fun h => ?_)
      (ih ht hk)
    cases h with | setContext _ h => exact h
  | dispatch a p _ ih =>
    obtain ⟨b, hkb, hb⟩ := World.aborted_iff.1 hk
    refine go (World.forward_expired ht hkb hb a p _) (w.unmoved_record rfl) (fun h => ?_)
      (ih _ ht hk)
    cases h with | dispatch _ _ h => exact h _
  | @takePayload next _ ih =>
    have hown (p) (h : (Code.takePayload next).Own) : (next p).Own := by
      cases h with | takePayload h => exact h p
    cases t with
    | environment j tr p => exact go rfl (.refl w) (hown p) (ih p ht hk)
    | handle j => exact go rfl (.refl w) (hown none) (ih none ht hk)
    | bare => cases ht
  | onAbort _ _ _ ih =>
    refine go ?_ (w.unmoved_record (e := .observerLate k) rfl) (fun h => ?_) (ih ht hk)
    · simp [Run.step, World.perform, World.onAbort, ht, hk, World.goOn]
    · cases h with | onAbort _ h => exact h
  | clearAbort _ ih =>
    have hu := w.unmoved_modifyActivation k
      (f := fun a => { a with signal := a.signal.clearObserver }) (fun _ => id)
      fun a _ h => ⟨by rintro _ ⟨⟩, h.2⟩
    refine go ?_ hu (fun h => ?_) (ih ht (hu.aborted k hk))
    · simp [Run.step, World.perform, ht, World.goOn]
    · cases h with | clearAbort h => exact h
  | keep name _ ih =>
    have hu : w.Unmoved { w with handles := w.handles.insert name k } :=
      ⟨rfl, rfl, rfl, Nat.le_refl _, fun _ => id, id⟩
    refine go ?_ hu (fun h => ?_) (ih ht hk)
    · simp [Run.step, World.perform, ht, World.goOn]
    · cases h
  | _ => trivial

/-- The rest of a script is a script to its end. -/
theorem Code.Own.residue {c : Code σ} (hc : c.Own) {t : Target σ} (ht : t.activation? = some k)
    (hk : w.aborted k = true) (stack : List (Frame σ)) :
    ∃ w' e, Run.Leads m ⟨w, .code t c, stack⟩ ⟨w', .ended e, stack⟩ ∧ w.Unmoved w' ∧
      Ending.Own e := by
  obtain ⟨w', e, hl, hu, he⟩ := hc.confined.residue (m := m) ht hk stack
  exact ⟨w', e, hl, hu, he hc⟩

/-! ### Entries that are over -/

/-- The entry of an activation that is over comes to its end and moves nothing. -/
theorem World.conclude_residue (hk : w.aborted k = true) {e : Ending σ} (he : e.Own)
    (stack : List (Frame σ)) :
    ∃ w' e', Run.Leads m ⟨w, .ended e, .body k :: stack⟩ ⟨w', .ended e', stack⟩ ∧ w.Unmoved w' ∧
      Ending.Own e' := by
  have hclose := w.unmoved_closeWindow k
  cases e with
  | error e =>
    exact ⟨w.closeWindow k, .error e, .step rfl (.refl _), hclose, Ending.own_error e⟩
  | ok o =>
    cases he o rfl with
    | done => exact ⟨w.closeWindow k, .ok .done, .step rfl (.refl _), hclose, Ending.own_done⟩
    | @cleanup c hc =>
      -- the cleanup runs at once, on an activation that is over
      obtain ⟨a, ha, hab⟩ := aborted_iff.1 (hclose.aborted k hk)
      have hu := (hclose.trans ((w.closeWindow k).unmoved_record
        (e := .cleanupGiven k) rfl)).trans
          (unmoved_record _ (e := .cleanupAtOnce k a.state) rfl)
      obtain ⟨w', e', hl, hu', -⟩ :=
        hc.residue (m := m) (t := .handle k) rfl (hu.aborted k hk) (.settle .done :: stack)
      refine ⟨w', .done, .step ?_ (hl.trans (.step rfl (.refl _))), hu.trans hu', Ending.own_done⟩
      simp [Run.step, proceed, conclude, keepCleanup, ha, hab]

/-- What the stack holds for entries that are over. -/
inductive Frame.Inert (w : World σ) : Frame σ → Prop
  | pinning (i : InstanceId) : Inert w (.pinning i)
  | resume {t : Target σ} {k : ActivationId} {next : Reply → Code σ} (ht : t.activation? = some k)
      (hk : w.aborted k = true) (h : ∀ x, (next x).Own) : Inert w (.resume t next)
  | body {k : ActivationId} (hk : w.aborted k = true) : Inert w (.body k)

theorem Frame.Inert.mono {f : Frame σ} (h : f.Inert w)
    (ha : ∀ k, w.aborted k = true → w'.aborted k = true) : f.Inert w' := by
  cases h with
  | pinning i => exact .pinning i
  | resume ht hk h => exact .resume ht (ha _ hk) h
  | body hk => exact .body (ha _ hk)

/-- **The stack unwinds and moves nothing.** -/
theorem World.unwind {frames : List (Frame σ)} (hf : ∀ f ∈ frames, f.Inert w) {e : Ending σ}
    (he : e.Own) (base : List (Frame σ)) :
    ∃ w' e', Run.Leads m ⟨w, .ended e, frames ++ base⟩ ⟨w', .ended e', base⟩ ∧ w.Unmoved w' ∧
      Ending.Own e' := by
  induction frames generalizing w e with
  | nil => exact ⟨w, e, .refl _, .refl w, he⟩
  | cons f frames ih =>
    -- the topmost frame, then the others
    have hfirst : ∃ w₁ e₁, Run.Leads m ⟨w, .ended e, f :: (frames ++ base)⟩
        ⟨w₁, .ended e₁, frames ++ base⟩ ∧ w.Unmoved w₁ ∧ Ending.Own e₁ := by
      cases hf f List.mem_cons_self with
      | pinning i => exact ⟨w, e, .step rfl (.refl _), .refl w, he⟩
      | @resume t k next ht hk h =>
        obtain ⟨w₁, e₁, hl, hu, he₁⟩ := (h (some e.reply)).residue (m := m) ht hk (frames ++ base)
        exact ⟨w₁, e₁, .step rfl hl, hu, he₁⟩
      | body hk => exact conclude_residue hk he _
    obtain ⟨w₁, e₁, hl, hu, he₁⟩ := hfirst
    obtain ⟨w', e', hl', hu', he'⟩ :=
      ih (fun g hg => (hf g (List.mem_cons_of_mem _ hg)).mono hu.aborted) he₁
    exact ⟨w', e', hl.trans hl', hu.trans hu', he'⟩

end Statechart
