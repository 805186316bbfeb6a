import Statechart.Proofs.Resume.Pairing

/-!
Paired instances go in step. The effects of the machine keep to themselves, so that every operation
finds the same on either side: a context write is accepted or refused, an action leads to the same
target, an exit has the same to tear down. The main statement, `Pairing.Runs.steps`, says that
paired runs stay paired, step by step.
-/

namespace Statechart

variable {σ : Signature} {m : Machine σ} {P : Pairing σ} {w w' w₁ w₁' : World σ}
  {k k' : ActivationId} {stack stack' : List (Frame σ)}

/-! ### Options beside each other -/

theorem rel_map {α β : Type} {R : α → β → Prop} {o : Option α} {o' : Option β} {f : α → α}
    {f' : β → β} (h : Option.Rel R o o') (hf : ∀ a a', R a a' → R (f a) (f' a')) :
    Option.Rel R (o.map f) (o'.map f') := by
  cases h with
  | none => exact .none
  | some h => exact .some (hf _ _ h)

theorem rel_bind {α β γ δ : Type} {R : α → β → Prop} {S : γ → δ → Prop} {o : Option α}
    {o' : Option β} {f : α → Option γ} {f' : β → Option δ} (h : Option.Rel R o o')
    (hf : ∀ a a', R a a' → Option.Rel S (f a) (f' a')) : Option.Rel S (o >>= f) (o' >>= f') := by
  cases h with
  | none => exact .none
  | some h => exact hf _ _ h

theorem rel_mono {α β : Type} {R S : α → β → Prop} {o : Option α} {o' : Option β}
    (h : Option.Rel R o o') (hS : ∀ a b, R a b → S a b) : Option.Rel S o o' := by
  cases h with
  | none => exact .none
  | some h => exact .some (hS _ _ h)

/-- Of the two, both are there or none. -/
theorem rel_cases {α β : Type} {R : α → β → Prop} {o : Option α} {o' : Option β}
    (h : Option.Rel R o o') :
    o = none ∧ o' = none ∨ ∃ a a', o = some a ∧ o' = some a' ∧ R a a' := by
  cases h with
  | none => exact .inl ⟨rfl, rfl⟩
  | some h => exact .inr ⟨_, _, rfl, rfl, h⟩

namespace Pairing

/-- Every activation has one twin. -/
theorem Twins.eq_iff {j j' : ActivationId} (hj : P.Twins j j') (hk : P.Twins k k') :
    j = k ↔ j' = k' := by
  obtain ⟨d, rfl, rfl⟩ := hk
  obtain ⟨c, rfl, rfl⟩ := hj
  rw [Nat.add_left_cancel_iff, Nat.add_left_cancel_iff]

/-! ### Changes of an activation -/

namespace Activations

variable {a a' : Activation σ}

theorem fired (h : P.Activations a a') : a.signal.fired = a'.signal.fired := by
  rw [Signal.fired, Signal.fired, h.aborted, h.observer]

theorem confined_fired (h : P.Activations a a') {c : Code σ} (hc : a.signal.fired = some c) :
    c.Confined := by
  unfold Signal.fired at hc
  split at hc
  · cases hc
  · exact h.confined c hc

theorem tornDown (h : P.Activations a a') : P.Activations a.tornDown a'.tornDown where
  owner := h.owner
  owner' := h.owner'
  state := h.state
  aborted := by
    rw [show a.tornDown.signal.aborted = true from a.signal.aborted_fire,
      show a'.tornDown.signal.aborted = true from a'.signal.aborted_fire]
  windowOpen := rfl
  observer := by
    simp only [Activation.tornDown, Signal.fire, h.aborted]
    split
    · exact h.observer
    · rfl
  confined c hc := by
    simp only [Activation.tornDown, Signal.fire] at hc
    split at hc
    · exact h.confined c hc
    · cases hc
  cleanup := .none

/-- The signals change in the same way. -/
theorem signal (h : P.Activations a a') {s s' : Signal (Code σ)} (ha : s.aborted = s'.aborted)
    (ho : s.observer = s'.observer) (hc : ∀ c, s.observer = some c → c.Confined) :
    P.Activations { a with signal := s } { a' with signal := s' } :=
  ⟨h.owner, h.owner', h.state, ha, h.windowOpen, ho, hc, h.cleanup⟩

theorem setObserver (h : P.Activations a a') {c : Code σ} (hc : c.Confined) :
    P.Activations { a with signal := a.signal.setObserver c }
      { a' with signal := a'.signal.setObserver c } := by
  refine h.signal (by simpa using h.aborted) ?_ fun c' hc' => ?_
  · simp only [Signal.setObserver, h.aborted]
    split
    · exact h.observer
    · rfl
  · simp only [Signal.setObserver] at hc'
    split at hc'
    · exact h.confined c' hc'
    · obtain rfl := Option.some.inj hc'
      exact hc

end Activations

/-! ### Changes of a world -/

namespace Worlds

theorem silent (h : P.Worlds w w') (hw : w.Silent w₁) (hw' : w'.Silent w₁') :
    P.Worlds w₁ w₁' where
  slot := hw.slots ▸ h.slot
  slot' := hw'.slots ▸ h.slot'
  started := hw.activations ▸ hw'.activations ▸ h.started
  instances := hw.instances ▸ hw'.instances ▸ h.instances
  activations := hw.activations ▸ hw'.activations ▸ h.activations
  course := by
    rw [World.course_of_moves hw.moves, World.course_of_moves hw'.moves]
    exact h.course

/-- The two instances change in the same way. -/
theorem record (h : P.Worlds w w') {e e' : Event σ}
    (he : e.change? P.inst = e'.change? P.inst') :
    P.Worlds (w.record e) (w'.record e') := by
  refine ⟨h.slot, h.slot', h.started, h.instances, h.activations, ?_⟩
  obtain ⟨since, hc, hc'⟩ := h.course
  refine ⟨(e.change? P.inst).toList ++ since, ?_, ?_⟩
  · rw [World.course, World.record, List.filterMap_cons]
    cases e.change? P.inst <;> simp [← hc, World.course]
  · rw [he, World.course, World.record, List.filterMap_cons]
    cases e'.change? P.inst' <;> simp [← hc', World.course]

theorem modifyInstance (h : P.Worlds w w') {f f' : Instance σ → Instance σ}
    (hf : ∀ a a', P.Instances a a' → P.Instances (f a) (f' a')) :
    P.Worlds (w.modifyInstance P.inst f) (w'.modifyInstance P.inst' f') := by
  refine ⟨h.slot, h.slot', h.started, ?_, h.activations, h.course⟩
  simp only [World.modifyInstance, Roster.get?_modify, if_true]
  exact rel_map h.instances hf

theorem modifyActivation (h : P.Worlds w w') (hk : P.Twins k k')
    {f f' : Activation σ → Activation σ}
    (hf : ∀ a a', P.Activations a a' → P.Activations (f a) (f' a')) :
    P.Worlds (w.modifyActivation k f) (w'.modifyActivation k' f') := by
  refine ⟨h.slot, h.slot', h.started, h.instances, fun j j' hj => ?_, h.course⟩
  simp only [World.modifyActivation, Roster.get?_modify, ← hj.eq_iff hk]
  split
  · exact rel_map (h.activations j j' hj) hf
  · exact h.activations j j' hj

theorem closeWindow (h : P.Worlds w w') (hk : P.Twins k k') :
    P.Worlds (w.closeWindow k) (w'.closeWindow k') :=
  h.modifyActivation hk fun _ _ ha =>
    ⟨ha.owner, ha.owner', ha.state, ha.aborted, rfl, ha.observer, ha.confined, ha.cleanup⟩

/-- A pair of activations is started. -/
theorem begin (h : P.Worlds w w') (s : σ.State) (tr : Trigger σ.Action) (p : Option σ.Payload) :
    P.Worlds (w.begin P.inst s tr p) (w'.begin P.inst' s tr p) := by
  have hpush : P.Worlds
      { w with activations := w.activations.push { owner := P.inst, state := s } }
      { w' with activations := w'.activations.push { owner := P.inst', state := s } } := by
    refine ⟨h.slot, h.slot', ?_, h.instances, fun j j' hj => ?_, h.course⟩
    · obtain ⟨d, hd, hd'⟩ := h.started
      exact ⟨d + 1, congrArg Nat.succ hd, congrArg Nat.succ hd'⟩
    · simp only [Roster.get?_push, hj.eq_iff h.started]
      split
      · exact .some ⟨rfl, rfl, rfl, rfl, rfl, rfl, by rintro _ ⟨⟩, .none⟩
      · exact h.activations j j' hj
  refine (hpush.modifyInstance ?_).record (by simp [Event.change?])
  rintro _ _ ⟨s, x, -⟩
  exact .intro s x (.some h.started)

theorem tearDown (h : P.Worlds w w') (hk : P.Twins k k') (s : σ.State) :
    P.Worlds (w.tearDown P.inst k s) (w'.tearDown P.inst' k' s) := by
  refine (((h.record rfl).modifyInstance ?_).modifyActivation hk
    fun _ _ => Activations.tornDown).record rfl
  rintro _ _ ⟨s, x, -⟩
  exact .intro s x .none

/-! ### What a world shows -/

theorem aborted (h : P.Worlds w w') (hk : P.Twins k k') : w.aborted k = w'.aborted k' := by
  have ha := h.activations k k' hk
  unfold World.aborted
  generalize w.activations.get? k = o at ha ⊢
  generalize w'.activations.get? k' = o' at ha ⊢
  cases ha with
  | none => rfl
  | some ha => exact ha.aborted

theorem view (h : P.Worlds w w') {t t' : Target σ} (ht : P.Targets t t') :
    w.view t = w'.view t' := by
  have hview {k k' : ActivationId} (hk : P.Twins k k') (t t' : Target σ)
      (hkt : t.activation? = some k) (hkt' : t'.activation? = some k')
      (he : t.entry? = t'.entry?) : w.view t = w'.view t' := by
    rcases rel_cases (h.activations k k' hk) with ⟨ha, ha'⟩ | ⟨a, a', ha, ha', hact⟩
    · simp [World.view, hkt, hkt', ha, ha']
    · have hi := h.instances
      rw [← hact.owner, ← hact.owner'] at hi
      rcases rel_cases hi with ⟨hi, hi'⟩ | ⟨_, _, hi, hi', ⟨s, x, -⟩⟩
      · simp [World.view, hkt, hkt', ha, ha', hi, hi']
      · rw [World.view_eq hkt ha hi, World.view_eq hkt' ha' hi', hact.state, hact.aborted,
          hact.windowOpen, he]
  cases ht with
  | environment hk tr p => exact hview hk _ _ rfl rfl rfl
  | handle hk => exact hview hk _ _ rfl rfl rfl
  | bare => rfl

/-! ### Exit and transition -/

/-- The abort observer, if there is one, is about to run on either side. -/
theorem observing (h : P.Worlds w w') (hk : P.Twins k k') {o : Option (Code σ)}
    (ho : ∀ c, o = some c → c.Confined) (hs : P.Stacks stack stack') :
    P.Runs (w.observing k o stack) (w'.observing k' o stack') := by
  cases o with
  | none => exact ⟨h, .ended Ending.confined_done, hs⟩
  | some c => exact ⟨h.record rfl, .code (.handle hk) (ho c rfl), hs⟩

theorem exit (h : P.Worlds w w') (hs : P.Stacks stack stack') :
    Option.Rel P.Runs (w.exit P.inst stack) (w'.exit P.inst' stack') := by
  rcases rel_cases h.instances with ⟨hi, hi'⟩ | ⟨_, _, hi, hi', ⟨s, x, hact⟩⟩
  · simp [World.exit, hi, hi']
  cases hact with
  | none =>
    rw [World.exit_of_vacant hi rfl, World.exit_of_vacant hi' rfl]
    exact .some ⟨h, .ended Ending.confined_done, hs⟩
  | @some k k' hk =>
    rcases rel_cases (h.activations k k' hk) with ⟨ha, ha'⟩ | ⟨a, a', ha, ha', hrel⟩
    · simp [World.exit, hi, hi', ha, ha']
    · rw [World.exit_of_active hi rfl ha, World.exit_of_active hi' rfl ha', ← hrel.fired]
      exact .some ((h.tearDown hk s).observing hk (fun _ => hrel.confined_fired)
        (.cons (.exiting hk hrel.cleanup) hs))

/-- Both instances are held by their slots, so that neither is released. -/
theorem release (h : P.Worlds w w') {e : Ending σ} (he : e.Confined)
    (hs : P.Stacks stack stack') :
    Option.Rel P.Runs (w.release P.inst e stack) (w'.release P.inst' e stack') := by
  rw [World.release, World.release, if_pos (owned_of_slot h.slot stack),
    if_pos (owned_of_slot h.slot' stack')]
  exact .some ⟨h, .ended he, hs⟩

theorem dispatch (h : P.Worlds w w') (caller caller' : Caller) (a : σ.Action)
    (p : Option σ.Payload) (hs : P.Stacks stack stack') :
    Option.Rel P.Runs (w.dispatch m P.inst caller a p stack)
      (w'.dispatch m P.inst' caller' a p stack') := by
  refine rel_bind h.instances ?_
  rintro _ _ ⟨s, x, -⟩
  dsimp only
  cases m.config.target? s a with
  | none => exact .some ⟨h.record rfl, .ended Ending.confined_done, hs⟩
  | some t =>
    dsimp only
    split
    · exact (h.record rfl).exit (.cons (.changing t a p) hs)
    · exact .some ⟨h, .ended (Ending.confined_error _), hs⟩

theorem change (h : P.Worlds w w') (t : σ.State) (a : σ.Action) (p : Option σ.Payload)
    (hs : P.Stacks stack stack') :
    Option.Rel P.Runs (w.change P.inst t a p stack) (w'.change P.inst' t a p stack') := by
  refine rel_bind h.instances ?_
  rintro _ _ ⟨s, x, -⟩
  refine .some ⟨(h.record (by simp [Event.change?])).modifyInstance ?_,
    .ended Ending.confined_done, .cons .notifying (.cons (.entering _ p) hs)⟩
  rintro _ _ ⟨s, x, hact⟩
  exact .intro t x hact

/-! ### Entry -/

theorem enter (h : P.Worlds w w') (hm : m.Confined) (tr : Trigger σ.Action)
    (p : Option σ.Payload) (hs : P.Stacks stack stack') :
    Option.Rel P.Runs (w.enter m P.inst tr p stack) (w'.enter m P.inst' tr p stack') := by
  rcases rel_cases h.instances with ⟨hi, hi'⟩ | ⟨_, _, hi, hi', ⟨s, x, hact⟩⟩
  · simp [World.enter, hi, hi']
  cases he : m.config.effect? s with
  | none =>
    rw [World.enter_bare hi he, World.enter_bare hi' he]
    exact .some ⟨h.record (by simp [Event.change?]), .ended Ending.confined_done, hs⟩
  | some c =>
    rw [World.enter_effect hi he, World.enter_effect hi' he]
    refine .some ⟨?_, .code (.environment h.started tr p) (hm s c he), .cons (.body h.started) hs⟩
    cases hact with
    | none => exact h.begin s tr p
    | some _ => exact (h.record rfl).begin s tr p

theorem keepCleanup (h : P.Worlds w w') (hk : P.Twins k k') {c : Code σ} (hc : c.Confined)
    (hs : P.Stacks stack stack') :
    Option.Rel P.Runs (w.keepCleanup k c stack) (w'.keepCleanup k' c stack') := by
  refine rel_bind (h.activations k k' hk) fun a a' ha => ?_
  have hgiven : P.Worlds (w.record (.cleanupGiven k)) (w'.record (.cleanupGiven k')) :=
    h.record rfl
  dsimp only
  rw [← ha.aborted]
  split
  · exact .some ⟨hgiven.record rfl, .code (.handle hk) hc,
      .cons (.settle Ending.confined_done) hs⟩
  · rw [ha.owner, ha.owner']
    refine rel_bind hgiven.instances ?_
    rintro _ _ ⟨s, x, hact⟩
    refine .some ⟨?_, .ended Ending.confined_done, hs⟩
    cases hact with
    | none => exact hgiven
    | some hj =>
      exact hgiven.modifyActivation hj fun _ _ hb => ⟨hb.owner, hb.owner', hb.state, hb.aborted,
        hb.windowOpen, hb.observer, hb.confined, .some ⟨hk, rfl, hc⟩⟩

theorem conclude (h : P.Worlds w w') (hk : P.Twins k k') {e : Ending σ} (he : e.Confined)
    (hs : P.Stacks stack stack') :
    Option.Rel P.Runs (w.conclude k e stack) (w'.conclude k' e stack') := by
  cases e with
  | error e => exact .some ⟨h.closeWindow hk, .ended he, hs⟩
  | ok o =>
    cases he o rfl with
    | done => exact .some ⟨h.closeWindow hk, .ended he, hs⟩
    | cleanup hc => exact (h.closeWindow hk).keepCleanup hk hc hs
    | pending hf =>
      exact .some ⟨h.record rfl, .future (by simp) hk (.ready hf), hs⟩

/-! ### Operations -/

/-- Code works on twins, or on nothing on either side. -/
theorem targets_cases {t t' : Target σ} (ht : P.Targets t t') :
    t.activation? = none ∧ t'.activation? = none ∨
      ∃ k k', t.activation? = some k ∧ t'.activation? = some k' ∧ P.Twins k k' := by
  cases ht with
  | environment hk tr p => exact .inr ⟨_, _, rfl, rfl, hk⟩
  | handle hk => exact .inr ⟨_, _, rfl, rfl, hk⟩
  | bare => exact .inl ⟨rfl, rfl⟩

theorem setContext (h : P.Worlds w w') {t t' : Target σ} (ht : P.Targets t t') (x : σ.Context)
    {next : Code σ} (hn : next.Confined) (hs : P.Stacks stack stack') :
    Option.Rel P.Runs (w.setContext t x next stack) (w'.setContext t' x next stack') := by
  rcases targets_cases ht with ⟨hkt, hkt'⟩ | ⟨k, k', hkt, hkt', hk⟩
  · rw [World.setContext, World.setContext, hkt, hkt']
    exact .some ⟨h, .code ht hn, hs⟩
  · rw [World.setContext, World.setContext, hkt, hkt']
    refine rel_bind (h.activations k k' hk) fun a a' ha => ?_
    rw [← ha.aborted, ← ha.windowOpen, ha.owner, ha.owner']
    split
    · exact .some ⟨h.record rfl, .code ht hn, hs⟩
    · split
      · exact .some ⟨h.record rfl, .code ht hn, hs⟩
      · refine rel_bind h.instances ?_
        rintro _ _ ⟨s, y, -⟩
        refine .some ⟨(h.record (by simp [Event.change?])).modifyInstance ?_,
          .ended Ending.confined_done, .cons .notifying (.cons (.resume ht fun _ => hn) hs)⟩
        rintro _ _ ⟨s, y, hact⟩
        exact .intro s x hact

theorem forward (h : P.Worlds w w') {t t' : Target σ} (ht : P.Targets t t') (a : σ.Action)
    (p : Option σ.Payload) {next : Reply → Code σ} (hn : ∀ q, (next q).Confined)
    (hs : P.Stacks stack stack') :
    Option.Rel P.Runs (w.forward m t a p next stack) (w'.forward m t' a p next stack') := by
  rcases targets_cases ht with ⟨hkt, hkt'⟩ | ⟨k, k', hkt, hkt', hk⟩
  · rw [World.forward, World.forward, hkt, hkt']
    exact .some ⟨h, .code ht (hn _), hs⟩
  · rw [World.forward, World.forward, hkt, hkt']
    refine rel_bind (h.activations k k' hk) fun b b' hb => ?_
    rw [← hb.aborted, hb.owner, hb.owner', alive_of_slot h.slot, alive_of_slot h.slot']
    split
    · exact .some ⟨h.record rfl, .code ht (hn _), hs⟩
    · exact h.dispatch _ _ a p (.cons .pinning (.cons (.resume ht hn) hs))

theorem onAbort (h : P.Worlds w w') {t t' : Target σ} (ht : P.Targets t t') {o next : Code σ}
    (ho : o.Confined) (hn : next.Confined) (hs : P.Stacks stack stack') :
    P.Runs (w.onAbort t o next stack) (w'.onAbort t' o next stack') := by
  rcases targets_cases ht with ⟨hkt, hkt'⟩ | ⟨k, k', hkt, hkt', hk⟩
  · rw [World.onAbort, World.onAbort, hkt, hkt']
    exact ⟨h, .code ht hn, hs⟩
  · rw [World.onAbort, World.onAbort, hkt, hkt']
    dsimp only
    rw [← h.aborted hk]
    split
    · exact ⟨h.record rfl, .code ht hn, hs⟩
    · exact ⟨h.modifyActivation hk fun _ _ ha => ha.setObserver ho, .code ht hn, hs⟩

/-- **An operation of code that keeps to itself** finds the same on either side. -/
theorem perform (h : P.Worlds w w') {t t' : Target σ} (ht : P.Targets t t') {c : Code σ}
    (hc : c.Confined) (hs : P.Stacks stack stack') :
    Option.Rel P.Runs (w.perform m t stack c) (w'.perform m t' stack' c) := by
  cases hc with
  | @finish o ho =>
    refine .some ⟨h, .ended ?_, hs⟩
    rintro _ ⟨⟩
    exact ho
  | raise e => exact .some ⟨h, .ended (Ending.confined_error e), hs⟩
  | emit n hn => exact .some ⟨h.record rfl, .code ht hn, hs⟩
  | look hn =>
    rw [World.perform, World.perform, h.view ht]
    exact .some ⟨h, .code ht (hn _), hs⟩
  | setContext x hn => exact h.setContext ht x hn hs
  | dispatch a p hn => exact h.forward ht a p hn hs
  | takePayload hn =>
    cases ht with
    | environment hk tr p => exact .some ⟨h, .code (.environment hk tr none) (hn p), hs⟩
    | handle hk => exact .some ⟨h, .code (.handle hk) (hn none), hs⟩
    | bare => exact .some ⟨h, .code .bare (hn none), hs⟩
  | onAbort ho hn => exact .some (h.onAbort ht ho hn hs)
  | clearAbort hn =>
    rcases targets_cases ht with ⟨hkt, hkt'⟩ | ⟨k, k', hkt, hkt', hk⟩
    · rw [World.perform, World.perform, hkt, hkt']
      exact .some ⟨h, .code ht hn, hs⟩
    · rw [World.perform, World.perform, hkt, hkt']
      exact .some ⟨h.modifyActivation hk fun _ _ ha => ha.signal ha.aborted rfl (by rintro _ ⟨⟩),
        .code ht hn, hs⟩
  | keep name hn =>
    rcases targets_cases ht with ⟨hkt, hkt'⟩ | ⟨k, k', hkt, hkt', hk⟩
    · rw [World.perform, World.perform, hkt, hkt']
      exact .some ⟨h, .code ht hn, hs⟩
    · rw [World.perform, World.perform, hkt, hkt']
      exact .some ⟨h.silent ⟨rfl, rfl, rfl, rfl⟩ ⟨rfl, rfl, rfl, rfl⟩, .code ht hn, hs⟩

/-! ### Polls -/

variable {poller : Poller} {q q' : Progress σ} {last : Option (Code σ)}

theorem forget (h : P.Worlds w w') (k k' : ActivationId) :
    P.Worlds (w.forget m k) (w'.forget m k') := by
  unfold World.forget
  split
  · exact h.record rfl
  · exact h

theorem letGo (h : P.Worlds w w') (hk : P.Twins k k') (hl : ∀ c, last = some c → c.Confined)
    (hs : P.Stacks stack stack') :
    P.Runs (w.letGo m k last stack) (w'.letGo m k' last stack') := by
  cases last with
  | none => exact ⟨h.forget k k', .ended Ending.confined_done, hs⟩
  | some c => exact ⟨h, .code (.handle hk) (hl c rfl), .cons (.dropping hk) hs⟩

theorem suspend (h : P.Worlds w w') (hp : ∀ t, poller ≠ .executor t) (hk : P.Twins k k')
    (hq : P.Progresses q q') (hl : ∀ c, last = some c → c.Confined)
    (hs : P.Stacks stack stack') :
    Option.Rel P.Runs (w.suspend m poller k q last stack)
      (w'.suspend m poller k' q' last stack') := by
  cases poller with
  | entry =>
    have hclose := h.closeWindow hk
    refine rel_bind (hclose.activations k k' hk) fun a a' ha => ?_
    have hspawned : P.Worlds ((w.closeWindow k).record (.spawned k))
        ((w'.closeWindow k').record (.spawned k')) := hclose.record rfl
    cases m.spawner with
    | none =>
      have hreported : P.Worlds ((w.closeWindow k).record (.noSpawner k a.state))
          ((w'.closeWindow k').record (.noSpawner k' a'.state)) := hclose.record rfl
      exact .some (hreported.letGo hk hl hs)
    | some spawner =>
      cases spawner with
      | queue | pool =>
        exact .some ⟨hspawned.silent ⟨rfl, rfl, rfl, rfl⟩ ⟨rfl, rfl, rfl, rfl⟩,
          .ended Ending.confined_done, hs⟩
      | eager => exact .some ⟨hspawned.record rfl, .future (by simp) hk hq, hs⟩
      | discard | shutdown => exact .some (hspawned.letGo hk hl hs)
  | spawner =>
    exact .some ⟨h.silent ⟨rfl, rfl, rfl, rfl⟩ ⟨rfl, rfl, rfl, rfl⟩, .ended Ending.confined_done,
      hs⟩
  | executor t => exact absurd rfl (hp t)

theorem finish (h : P.Worlds w w') (hp : ∀ t, poller ≠ .executor t) (hk : P.Twins k k')
    (b : Bool) (hs : P.Stacks stack stack') :
    Option.Rel P.Runs (w.finish poller k b stack) (w'.finish poller k' b stack') := by
  refine rel_bind (h.activations k k' hk) fun a a' ha => ?_
  refine .some ⟨?_, .ended Ending.confined_done, hs⟩
  cases poller with
  | entry =>
    cases b with
    | false => exact h.closeWindow hk
    | true => exact (h.closeWindow hk).record rfl
  | spawner =>
    cases b with
    | false => exact h
    | true => exact h.record rfl
  | executor t => exact absurd rfl (hp t)

theorem advance (h : P.Worlds w w') (hp : ∀ t, poller ≠ .executor t) (hk : P.Twins k k')
    (hq : P.Progresses q q') (hs : P.Stacks stack stack') :
    Option.Rel P.Runs (w.advance m poller k stack q) (w'.advance m poller k' stack' q') := by
  cases hq with
  | stalled => exact h.suspend hp hk .stalled nofun hs
  | @awaiting j j' f last hj hf hl =>
    simp only [World.advance, ← h.aborted hj]
    split
    · exact .some ⟨h, .future hp hk (.ready hf), hs⟩
    · refine (h.modifyActivation hj fun _ _ ha => ha.signal ?_ ?_ ?_).suspend hp hk
        (.awaiting hj hf hl) hl hs
      · rw [Signal.aborted_register, Signal.aborted_register, ha.aborted]
      · rw [Signal.observer_register, Signal.observer_register, ha.observer]
      · rw [Signal.observer_register]
        exact ha.confined
  | ready hf =>
    cases hf with
    | resolved => exact h.finish hp hk false hs
    | resolvedWith c => exact h.finish hp hk true hs
    | act hc hn => exact .some ⟨h, .code (.handle hk) hc, .cons (.acting hp hk hn) hs⟩
    | yield hn hl =>
      exact (h.silent (w.silent_wakers [poller.waker])
        (w'.silent_wakers [poller.waker])).suspend hp hk (.ready hn) hl hs
    | never hl => exact h.suspend hp hk .stalled hl hs
    | awaitAbort hn hl => exact .some ⟨h, .future hp hk (.awaiting hk hn hl), hs⟩

/-! ### Frames -/

theorem proceed (h : P.Worlds w w') (hm : m.Confined) {e : Ending σ} (he : e.Confined)
    {f f' : Frame σ} (hf : P.Frames f f') (hs : P.Stacks stack stack') :
    Option.Rel P.Runs (w.proceed m e stack f) (w'.proceed m e stack' f') := by
  cases hf with
  | resume ht hn => exact .some ⟨h, .code ht (hn _), hs⟩
  | owning => exact h.release he hs
  | pinning => exact .some ⟨h, .ended he, hs⟩
  | settle he => exact .some ⟨h, .ended he, hs⟩
  | @exiting k k' wakers wakers' c c' hk hc =>
    have hw := h.silent (w.silent_wakers wakers) (w'.silent_wakers wakers')
    cases hc with
    | none => exact .some ⟨hw, .ended Ending.confined_done, hs⟩
    | @some c c' hc =>
      simp only [World.proceed, ← hc.code]
      exact .some ⟨hw.record rfl, .code (.handle hc.author) hc.confined, hs⟩
  | changing t a p => exact h.change t a p hs
  | notifying => exact .some ⟨h, .ended Ending.confined_done, hs⟩
  | entering tr p => exact h.enter hm tr p hs
  | body hk => exact h.conclude hk he hs
  | dropping hk => exact .some ⟨h.forget _ _, .ended Ending.confined_done, hs⟩
  | acting hp hk hn => exact .some ⟨h, .future hp hk (.ready (hn _)), hs⟩

end Worlds

/-! ### Steps -/

namespace Runs

variable {r r' : Run σ}

/-- **Paired runs take the same step.** -/
theorem step (h : P.Runs r r') (hm : m.Confined) : Option.Rel P.Runs (r.step m) (r'.step m) := by
  obtain ⟨w, control, stack⟩ := r
  obtain ⟨w', control', stack'⟩ := r'
  obtain ⟨hw, hcontrol, hs⟩ := h
  cases hcontrol with
  | code ht hc => exact hw.perform ht hc hs
  | future hp hk hq => exact hw.advance hp hk hq hs
  | ended he =>
    cases hs with
    | nil => exact .none
    | cons hf hs => exact hw.proceed hm he hf hs

/-- **Paired runs stay paired.** -/
theorem steps (h : P.Runs r r') (hm : m.Confined) (n : Nat) :
    P.Runs (r.steps m n) (r'.steps m n) := by
  induction n generalizing r r' with
  | zero => exact h
  | succ n ih =>
    rcases rel_cases (h.step hm) with ⟨hr, hr'⟩ | ⟨r₁, r₁', hr, hr', h₁⟩
    · rw [Run.steps_of_none hr, Run.steps_of_none hr']
      exact h
    · rw [Run.steps_succ hr, Run.steps_succ hr']
      exact ih h₁

/-- Paired runs end in the same way. -/
theorem ending_eq (h : P.Runs r r') : r.ending? = r'.ending? := by
  obtain ⟨w, control, stack⟩ := r
  obtain ⟨w', control', stack'⟩ := r'
  obtain ⟨-, hcontrol, hs⟩ := h
  cases hcontrol <;> cases hs <;> rfl

end Runs
end Pairing
end Statechart
