import Statechart.Proofs.Isolation.Worlds

/-!
An instance among others goes in step with one that is alone. Every function of the library works on
what belongs to one instance, and finds the same there on either side; user code does so as long as
it keeps to the instance.
-/

namespace Statechart

variable {σ : Signature} {m : Machine σ} {I : Isolation σ} {p q : Pairs} {w w' : World σ}
  {k k' : ActivationId} {stack stack' : List (Frame σ)}

/-! ### Activations -/

namespace Pairs.Wakers

variable {x x' y y' : Waker}

theorem eq_iff (hx : p.Wakers x x') (hy : p.Wakers y y') : x = y ↔ x' = y' := by
  cases hx with
  | idle => cases hy <;> simp
  | task ht =>
    cases hy with
    | idle => simp
    | task hu => rw [Waker.task.injEq, Waker.task.injEq, ht.eq_iff hu]

theorem contains_eq {xs xs' : List Waker} (h : List.Forall₂ p.Wakers xs xs')
    (hx : p.Wakers x x') : xs.contains x = xs'.contains x' := by
  rw [Bool.eq_iff_iff, List.contains_iff_mem, List.contains_iff_mem]
  induction h with
  | nil => simp
  | cons hy _ ih => rw [List.mem_cons, List.mem_cons, ih, hx.eq_iff hy]

end Pairs.Wakers

namespace Pairs.Activations

variable {i : InstanceId} {a a' : Activation σ}

theorem fired (h : p.Activations i a a') : a.signal.fired = a'.signal.fired := by
  rw [Signal.fired, Signal.fired, h.aborted, h.observer]

theorem woken (h : p.Activations i a a') :
    List.Forall₂ p.Wakers a.signal.woken a'.signal.woken := by
  rw [Signal.woken, Signal.woken, h.aborted]
  split
  · exact .nil
  · exact h.wakers

/-- The signals change in the same way. -/
theorem signal (h : p.Activations i a a') {s s' : Signal (Code σ)} (ha : s.aborted = s'.aborted)
    (ho : s.observer = s'.observer) (hw : List.Forall₂ p.Wakers s.wakers s'.wakers) :
    p.Activations i { a with signal := s } { a' with signal := s' } :=
  { h with aborted := ha, observer := ho, wakers := hw }

theorem tornDown (h : p.Activations i a a') : p.Activations i a.tornDown a'.tornDown := by
  have hsignal : p.Activations i { a with signal := a.signal.fire }
      { a' with signal := a'.signal.fire } := by
    refine h.signal (by rw [Signal.aborted_fire, Signal.aborted_fire]) ?_ ?_
    · rw [Signal.fire, Signal.fire, h.aborted]
      split
      · exact h.observer
      · rfl
    · rw [Signal.fire, Signal.fire, h.aborted]
      split
      · exact h.wakers
      · exact .nil
  exact { hsignal with windowOpen := rfl, cleanup := .none }

theorem setObserver (h : p.Activations i a a') (c : Code σ) :
    p.Activations i { a with signal := a.signal.setObserver c }
      { a' with signal := a'.signal.setObserver c } := by
  refine h.signal (by simpa using h.aborted) ?_ ?_
  · rw [Signal.setObserver, Signal.setObserver, h.aborted]
    split
    · exact h.observer
    · rfl
  · rw [Signal.setObserver, Signal.setObserver, h.aborted]
    split
    · exact h.wakers
    · exact h.wakers

theorem register (h : p.Activations i a a') {x x' : Waker} (hx : p.Wakers x x') :
    p.Activations i { a with signal := a.signal.register x }
      { a' with signal := a'.signal.register x' } := by
  refine h.signal ?_ ?_ ?_
  · rw [Signal.aborted_register, Signal.aborted_register, h.aborted]
  · rw [Signal.observer_register, Signal.observer_register, h.observer]
  · rw [Signal.register, Signal.register, h.aborted, Pairs.Wakers.contains_eq h.wakers hx]
    split
    · exact h.wakers
    · exact List.rel_append h.wakers (.cons hx .nil)

end Pairs.Activations

namespace Isolation

theorem Worlds.tearDown (h : I.Worlds p w w') (hk : p.acts.Pair k k') (s : σ.State) :
    I.Worlds p (w.tearDown I.inst k s) (w'.tearDown 0 k' s) := by
  refine (((h.record fun f f' hf => ?_).modifyInstance fun _ _ ha => ?_).modifyActivation hk
    fun _ _ => Pairs.Activations.tornDown).recordAct hk .aborted fun _ _ => rfl
  · simp only [Event.renumber, hf.inst, hf.act hk]
  · exact { ha with active := .none }

/-! ### The life of an activation -/

namespace Worlds

theorem observing (h : I.Worlds p w w') (hk : p.acts.Pair k k') (o : Option (Code σ))
    (hs : I.Stacks p stack stack') :
    I.Runs p (w.observing k o stack) (w'.observing k' o stack') := by
  cases o with
  | none => exact ⟨h, .ended _, hs⟩
  | some c => exact ⟨h.recordAct hk .observing fun _ _ => rfl, .code (.handle hk) c, hs⟩

theorem exit (h : I.Worlds p w w') (hs : I.Stacks p stack stack') :
    Option.Rel (I.Runs p) (w.exit I.inst stack) (w'.exit 0 stack') := by
  rcases rel_cases h.instances.own with ⟨hi, hi'⟩ | ⟨inst, inst', hi, hi', hrel⟩
  · simp [World.exit, hi, hi']
  rcases rel_cases hrel.active with ⟨ha, ha'⟩ | ⟨k, k', ha, ha', hk⟩
  · rw [World.exit_of_vacant hi ha, World.exit_of_vacant hi' ha']
    exact .some ⟨h, .ended _, hs⟩
  · obtain ⟨a, a', hget, hget', hact⟩ := h.activations.get hk
    rw [World.exit_of_active hi ha hget, World.exit_of_active hi' ha' hget', hact.fired,
      hrel.state.value]
    exact .some ((h.tearDown hk _).observing hk _ (.cons (.exiting hk hact.woken hact.cleanup) hs))

theorem release (h : I.Worlds p w w') (e : Ending σ) (hs : I.Stacks p stack stack') :
    Option.Rel (I.Runs p) (w.release I.inst e stack) (w'.release 0 e stack') := by
  rw [World.release, World.release, h.owned_eq hs]
  split
  · exact .some ⟨h, .ended e, hs⟩
  · exact (h.recordInst .released fun _ _ => rfl).exit (.cons (.farewell e) hs)

theorem dispatch (h : I.Worlds p w w') {caller caller' : Caller}
    (hc : ∀ f f', I.Agree p f f' → caller.renumber f = caller'.renumber f') (a : σ.Action)
    (pl : Option σ.Payload) (hs : I.Stacks p stack stack') :
    Option.Rel (I.Runs p) (w.dispatch m I.inst caller a pl stack)
      (w'.dispatch m 0 caller' a pl stack') := by
  refine rel_bind h.instances.own fun inst inst' hrel => ?_
  dsimp only
  rw [hrel.state.value]
  cases m.config.target? inst'.state.value a with
  | none =>
    exact .some ⟨h.recordInst (.ignored · inst'.state.value a) fun _ _ => rfl, .ended _, hs⟩
  | some t =>
    dsimp only
    split
    · refine (h.record fun f f' hf => ?_).exit (.cons (.changing t a pl) hs)
      simp only [Event.renumber, hf.inst, hc f f' hf]
    · exact .some ⟨h, .ended _, hs⟩

theorem change (h : I.Worlds p w w') (t : σ.State) (a : σ.Action) (pl : Option σ.Payload)
    (hs : I.Stacks p stack stack') :
    Option.Rel (I.Runs p) (w.change I.inst t a pl stack) (w'.change 0 t a pl stack') := by
  refine rel_bind h.instances.own fun inst inst' hrel => ?_
  dsimp only
  rw [hrel.state.value]
  refine .some ⟨(h.recordInst (.wrote · inst'.state.value t a pl) fun _ _ => rfl).modifyInstance
    fun _ _ ha => ?_, .ended _, .cons (.notifying ?_) (.cons (.entering _ pl) hs)⟩
  · exact { ha with state := ha.state.write t }
  · rw [List.forall₂_map_left_iff, List.forall₂_map_right_iff]
    exact hrel.state.observers.imp fun _ _ ho => ⟨.state ho.1 t, congrFun ho.2 t⟩

theorem enter (h : I.Worlds p w w') (tr : Trigger σ.Action) (pl : Option σ.Payload)
    (hs : I.Stacks p stack stack') :
    Option.Rel (I.Next p) (w.enter m I.inst tr pl stack) (w'.enter m 0 tr pl stack') := by
  rcases rel_cases h.instances.own with ⟨hi, hi'⟩ | ⟨inst, inst', hi, hi', hrel⟩
  · simp [World.enter, hi, hi']
  have hstate := hrel.state.value
  cases he : m.config.effect? inst'.state.value with
  | none =>
    rw [World.enter_bare hi (hstate ▸ he), World.enter_bare hi' he, hstate]
    exact .some ⟨p, .refl p, h.recordInst (.entered · inst'.state.value tr pl) fun _ _ => rfl,
      .ended _, hs⟩
  | some c =>
    have entered {w₁ w₁' : World σ} (h : I.Worlds p w₁ w₁') :
        I.Next p
          ⟨w₁.begin I.inst inst'.state.value tr pl,
            .code (.environment w₁.activations.size tr pl) c, .body w₁.activations.size :: stack⟩
          ⟨w₁'.begin 0 inst'.state.value tr pl,
            .code (.environment w₁'.activations.size tr pl) c,
            .body w₁'.activations.size :: stack'⟩ := by
      obtain ⟨q, hq, hk, hw⟩ := h.begin inst'.state.value tr pl
      exact ⟨q, hq, hw, .code (.environment hk tr pl) c, .cons (.body hk) (hs.mono hq)⟩
    rw [World.enter_effect hi (hstate ▸ he), World.enter_effect hi' he, hstate]
    rcases rel_cases hrel.active with ⟨ha, ha'⟩ | ⟨k, k', ha, ha', hk⟩
    · rw [ha, ha']
      exact .some (entered h)
    · rw [ha, ha']
      exact .some (entered (h.recordAct hk .displaced fun _ _ => rfl))

theorem keepCleanup (h : I.Worlds p w w') (hk : p.acts.Pair k k') (c : Code σ)
    (hs : I.Stacks p stack stack') :
    Option.Rel (I.Runs p) (w.keepCleanup k c stack) (w'.keepCleanup k' c stack') := by
  refine rel_bind (h.activations.pairs hk) fun a a' ha => ?_
  have hgiven : I.Worlds p (w.record (.cleanupGiven k)) (w'.record (.cleanupGiven k')) :=
    h.recordAct hk .cleanupGiven fun _ _ => rfl
  dsimp only
  rw [ha.aborted, ha.owner, ha.owner', ha.state]
  split
  · exact .some ⟨hgiven.recordAct hk (.cleanupAtOnce · a'.state) fun _ _ => rfl,
      .code (.handle hk) c, .cons (.settle _) hs⟩
  · refine rel_bind hgiven.instances.own fun inst inst' hrel => ?_
    refine .some ⟨?_, .ended _, hs⟩
    rcases rel_cases hrel.active with ⟨hn, hn'⟩ | ⟨j, j', hj, hj', hpair⟩
    · rw [hn, hn']
      exact hgiven
    · rw [hj, hj']
      exact hgiven.modifyActivation hpair fun _ _ hb => { hb with cleanup := .some ⟨hk, rfl⟩ }

theorem conclude (h : I.Worlds p w w') (hk : p.acts.Pair k k') (e : Ending σ)
    (hs : I.Stacks p stack stack') :
    Option.Rel (I.Runs p) (w.conclude k e stack) (w'.conclude k' e stack') := by
  cases e with
  | error e => exact .some ⟨h.closeWindow hk, .ended _, hs⟩
  | ok o =>
    cases o with
    | done => exact .some ⟨h.closeWindow hk, .ended _, hs⟩
    | cleanup c => exact (h.closeWindow hk).keepCleanup hk c hs
    | pending f =>
      exact .some ⟨h.recordAct hk .polled fun _ _ => rfl, .future .entry hk (.ready f), hs⟩

/-! ### Operations on an activation -/

/-- Code works on what stands for the same, or on nothing on either side. -/
theorem targets_cases {t t' : Target σ} (ht : p.Targets t t') :
    t.activation? = none ∧ t'.activation? = none ∨
      ∃ k k', t.activation? = some k ∧ t'.activation? = some k' ∧ p.acts.Pair k k' := by
  cases ht with
  | environment hk tr pl => exact .inr ⟨_, _, rfl, rfl, hk⟩
  | handle hk => exact .inr ⟨_, _, rfl, rfl, hk⟩
  | bare => exact .inl ⟨rfl, rfl⟩

theorem setContext (h : I.Worlds p w w') {t t' : Target σ} (ht : p.Targets t t') (x : σ.Context)
    (next : Code σ) (hs : I.Stacks p stack stack') :
    Option.Rel (I.Runs p) (w.setContext t x next stack) (w'.setContext t' x next stack') := by
  rcases targets_cases ht with ⟨hkt, hkt'⟩ | ⟨k, k', hkt, hkt', hk⟩
  · rw [World.setContext, World.setContext, hkt, hkt']
    exact .some ⟨h, .code ht next, hs⟩
  · rw [World.setContext, World.setContext, hkt, hkt']
    refine rel_bind (h.activations.pairs hk) fun a a' ha => ?_
    rw [ha.aborted, ha.windowOpen, ha.owner, ha.owner', ha.state]
    split
    · exact .some ⟨h.recordAct hk (.contextExpired · a'.state) fun _ _ => rfl, .code ht next, hs⟩
    · split
      · exact .some ⟨h.recordAct hk (.contextLate · a'.state) fun _ _ => rfl, .code ht next, hs⟩
      · refine rel_bind h.instances.own fun inst inst' hrel => ?_
        refine .some ⟨(h.record fun f f' hf => ?_).modifyInstance fun _ _ ha => ?_, .ended _,
          .cons (.notifying ?_) (.cons (.resume ht _) hs)⟩
        · simp only [Event.renumber, hf.inst, hf.act hk]
        · exact { ha with context := ha.context.write x }
        · rw [List.forall₂_map_left_iff, List.forall₂_map_right_iff]
          exact hrel.context.observers.imp fun _ _ ho => ⟨.context ho.1 x, congrFun ho.2 x⟩

theorem forward (h : I.Worlds p w w') {t t' : Target σ} (ht : p.Targets t t') (a : σ.Action)
    (pl : Option σ.Payload) (next : Reply → Code σ) (hs : I.Stacks p stack stack') :
    Option.Rel (I.Runs p) (w.forward m t a pl next stack)
      (w'.forward m t' a pl next stack') := by
  rcases targets_cases ht with ⟨hkt, hkt'⟩ | ⟨k, k', hkt, hkt', hk⟩
  · rw [World.forward, World.forward, hkt, hkt']
    exact .some ⟨h, .code ht _, hs⟩
  · rw [World.forward, World.forward, hkt, hkt']
    refine rel_bind (h.activations.pairs hk) fun b b' hb => ?_
    rw [hb.aborted, hb.owner, hb.owner', hb.state, h.alive_eq hs]
    split
    · exact .some ⟨h.recordAct hk (.dispatchExpired · b'.state a) fun _ _ => rfl, .code ht _, hs⟩
    · split
      · exact .some ⟨h.recordAct hk (.dispatchOrphaned · b'.state a) fun _ _ => rfl, .code ht _,
          hs⟩
      · have hcaller f f' (hf : I.Agree p f f') :
            (Caller.handle k).renumber f = (Caller.handle k').renumber f' :=
          congrArg Caller.handle (hf.act hk)
        exact h.dispatch hcaller a pl (.cons .pinning (.cons (.resume ht next) hs))

theorem onAbort (h : I.Worlds p w w') {t t' : Target σ} (ht : p.Targets t t') (o next : Code σ)
    (hs : I.Stacks p stack stack') :
    I.Runs p (w.onAbort t o next stack) (w'.onAbort t' o next stack') := by
  rcases targets_cases ht with ⟨hkt, hkt'⟩ | ⟨k, k', hkt, hkt', hk⟩
  · rw [World.onAbort, World.onAbort, hkt, hkt']
    exact ⟨h, .code ht next, hs⟩
  · rw [World.onAbort, World.onAbort, hkt, hkt']
    dsimp only
    rw [h.aborted hk]
    split
    · exact ⟨h.recordAct hk .observerLate fun _ _ => rfl, .code ht next, hs⟩
    · exact ⟨h.modifyActivation hk fun _ _ ha => ha.setObserver o, .code ht next, hs⟩

/-! ### Operations on slots -/

theorem start (h : I.Worlds p w w') {t t' : Target σ} (ht : p.Targets t t') {slot : String}
    (hslot : I.whose slot = I.inst) (hi : w.instances.size = I.inst) (s : σ.State)
    (x : σ.Context) (next : Reply → Code σ) (hs : I.Stacks p stack stack') :
    I.Runs p (w.start m t slot s x next stack) (w'.start m t' slot s x next stack') := by
  obtain ⟨hi', hplaced⟩ := h.place hi s x
  rw [World.start, World.start, hi, hi']
  split
  · exact ⟨hplaced.recordInst (.placed · s) fun _ _ => rfl, .ended _,
      .cons (.entering .initial none) (.cons (.placing slot hslot) (.cons (.resume ht next) hs))⟩
  · exact ⟨h, .code ht _, hs⟩

theorem place_origin (h : I.Worlds p w w') {t t' : Target σ} (ht : p.Targets t t') {slot : String}
    (hslot : I.whose slot = I.inst) (hi : w.instances.size = I.inst) (o : Origin σ)
    (next : Reply → Code σ) (hs : I.Stacks p stack stack') :
    I.Runs p (w.place m t slot o next stack) (w'.place m t' slot o next stack') := by
  cases o with
  | fresh => exact h.start ht hslot hi _ _ next hs
  | recovered s x => exact h.start ht hslot hi _ _ next hs
  | resumed s x => exact (h.record fun f f' _ => rfl).start ht hslot hi s x next hs

theorem store_new (h : I.Worlds p w w') {slot : String} (hslot : I.whose slot = I.inst)
    (hs : I.Stacks p stack stack') :
    Option.Rel (I.Runs p) (w.store slot I.inst stack) (w'.store slot 0 stack') := by
  obtain ⟨hn, hn'⟩ | ⟨hn, hn'⟩ := h.slot hslot
  · rw [World.store, World.store, hn, hn']
    exact .some ⟨h.store hslot, .ended _, hs⟩
  · rw [World.store, World.store, hn, hn']
    exact (h.store hslot).release _ hs

theorem peek_eq (h : I.Worlds p w w') {slot : String} (hslot : I.whose slot = I.inst) :
    w.peek? m slot = w'.peek? m slot := by
  obtain ⟨hn, hn'⟩ | ⟨hn, hn'⟩ := h.slot hslot
  · simp [World.peek?, hn, hn']
  · simp only [World.peek?, hn, hn', Option.bind_eq_bind, Option.bind_some]
    rcases rel_cases h.instances.own with ⟨hi, hi'⟩ | ⟨inst, inst', hi, hi', hrel⟩
    · rw [hi, hi']
    · rw [hi, hi', Option.bind_some, Option.bind_some, hrel.state.value, hrel.context.value]

end Worlds

/-- Nothing more has come to belong to the instance. -/
theorem next_of {o o' : Option (Run σ)} (h : Option.Rel (I.Runs p) o o') :
    Option.Rel (I.Next p) o o' :=
  rel_mono h fun _ _ hr => ⟨p, .refl p, hr⟩

theorem Runs.next {r r' : Run σ} (h : I.Runs p r r') :
    Option.Rel (I.Next p) (some r) (some r') :=
  .some ⟨p, .refl p, h⟩

namespace Worlds

/-- **An operation that keeps to the instance** finds the same on either side. -/
theorem perform (h : I.Worlds p w w') {t t' : Target σ} (ht : p.Targets t t') {c : Code σ}
    (hc : w.permits I.whose I.inst c = true) (hs : I.Stacks p stack stack') :
    Option.Rel (I.Next p) (w.perform m t stack c) (w'.perform m t' stack' c) := by
  cases c with
  | finish o => exact Runs.next ⟨h, .ended _, hs⟩
  | raise e => exact Runs.next ⟨h, .ended _, hs⟩
  | emit n next => exact Runs.next ⟨h.record fun _ _ _ => rfl, .code ht next, hs⟩
  | look next =>
    rw [World.perform, World.perform, h.view ht]
    exact Runs.next ⟨h, .code ht _, hs⟩
  | setContext x next => exact next_of (h.setContext ht x next hs)
  | dispatch a pl next => exact next_of (h.forward ht a pl next hs)
  | takePayload next =>
    cases ht with
    | environment hk tr pl => exact Runs.next ⟨h, .code (.environment hk tr none) _, hs⟩
    | handle hk => exact Runs.next ⟨h, .code (.handle hk) _, hs⟩
    | bare => exact Runs.next ⟨h, .code .bare _, hs⟩
  | onAbort o next => exact Runs.next (h.onAbort ht o next hs)
  | clearAbort next =>
    rcases targets_cases ht with ⟨hkt, hkt'⟩ | ⟨k, k', hkt, hkt', hk⟩
    · rw [World.perform, World.perform, hkt, hkt']
      exact Runs.next ⟨h, .code ht next, hs⟩
    · rw [World.perform, World.perform, hkt, hkt']
      exact Runs.next ⟨h.modifyActivation hk fun _ _ ha => ha.signal ha.aborted rfl ha.wakers,
        .code ht next, hs⟩
  | keep name next =>
    rcases targets_cases ht with ⟨hkt, hkt'⟩ | ⟨k, k', hkt, hkt', hk⟩
    · rw [World.perform, World.perform, hkt, hkt']
      exact Runs.next ⟨h, .code ht next, hs⟩
    · rw [World.perform, World.perform, hkt, hkt']
      exact Runs.next ⟨h.keep hk name, .code ht next, hs⟩
  | within name body next =>
    rcases rel_cases (h.handle hc) with ⟨hn, hn'⟩ | ⟨k, k', hn, hn', hk⟩
    · rw [World.perform, World.perform, hn, hn']
      exact Runs.next ⟨h, .code ht _, hs⟩
    · rw [World.perform, World.perform, hn, hn']
      exact Runs.next ⟨h, .code (.handle hk) body, .cons (.resume ht next) hs⟩
  | holding slot body next =>
    obtain ⟨hn, hn'⟩ | ⟨hn, hn'⟩ := h.slot (of_decide_eq_true hc)
    · rw [World.perform, World.perform, hn, hn']
      exact Runs.next ⟨h, .code .bare body, .cons (.resume ht next) hs⟩
    · rw [World.perform, World.perform, hn, hn']
      exact Runs.next ⟨h, .code .bare body, .cons .owning (.cons (.resume ht next) hs)⟩
  | place slot o next =>
    simp only [World.permits, Bool.and_eq_true, decide_eq_true_eq] at hc
    exact Runs.next (h.place_origin ht hc.1 hc.2 o next hs)
  | send slot a pl next =>
    obtain ⟨hn, hn'⟩ | ⟨hn, hn'⟩ := h.slot (of_decide_eq_true hc)
    · rw [World.perform, World.perform, hn, hn']
      exact Runs.next ⟨h, .code ht _, hs⟩
    · rw [World.perform, World.perform, hn, hn']
      exact next_of (h.dispatch (fun _ _ _ => rfl) a pl
        (.cons .owning (.cons (.resume ht next) hs)))
  | drop slot next =>
    have hslot : I.whose slot = I.inst := of_decide_eq_true hc
    obtain ⟨hn, hn'⟩ | ⟨hn, hn'⟩ := h.slot hslot
    · rw [World.perform, World.perform, hn, hn']
      exact Runs.next ⟨h, .code ht _, hs⟩
    · rw [World.perform, World.perform, hn, hn']
      exact next_of ((h.erase hslot).release _ (.cons (.resume ht _) hs))
  | peek slot next =>
    rw [World.perform, World.perform, h.peek_eq (of_decide_eq_true hc)]
    exact Runs.next ⟨h, .code ht _, hs⟩
  | watchState slot name observer next =>
    simp only [World.permits, Bool.and_eq_true, decide_eq_true_eq] at hc
    obtain ⟨⟨hslot, hname⟩, hcount⟩ := hc
    obtain ⟨hn, hn'⟩ | ⟨hn, hn'⟩ := h.slot hslot
    · rw [World.perform, World.perform, hn, hn']
      exact Runs.next ⟨h, .code ht _, hs⟩
    · rw [World.perform, World.perform, hn, hn']
      obtain ⟨q, hq, hw⟩ := h.watchState hname hcount observer
      exact .some ⟨q, hq, hw, .code (ht.mono hq) _, hs.mono hq⟩
  | watchContext slot name observer next =>
    simp only [World.permits, Bool.and_eq_true, decide_eq_true_eq] at hc
    obtain ⟨⟨hslot, hname⟩, hcount⟩ := hc
    obtain ⟨hn, hn'⟩ | ⟨hn, hn'⟩ := h.slot hslot
    · rw [World.perform, World.perform, hn, hn']
      exact Runs.next ⟨h, .code ht _, hs⟩
    · rw [World.perform, World.perform, hn, hn']
      obtain ⟨q, hq, hw⟩ := h.watchContext hname hcount observer
      exact .some ⟨q, hq, hw, .code (ht.mono hq) _, hs.mono hq⟩
  | unwatch slot name next =>
    simp only [World.permits, Bool.and_eq_true, decide_eq_true_eq] at hc
    obtain ⟨hn, hn'⟩ | ⟨hn, hn'⟩ := h.slot hc.1
    · rw [World.perform, World.perform, hn, hn']
      exact Runs.next ⟨h, .code ht _, hs⟩
    · rcases rel_cases (h.names.own hc.2) with ⟨hx, hx'⟩ | ⟨x, x', hx, hx', hpair⟩
      · rw [World.perform, World.perform, hn, hn', hx, hx']
        exact Runs.next ⟨h, .code ht _, hs⟩
      · rw [World.perform, World.perform, hn, hn', hx, hx']
        obtain ⟨hfound, hw⟩ := h.unwatch hpair
        have hcontrol : p.Controls (.code t (next (some (w.unwatch I.inst x).1)))
            (.code t' (next (some (w'.unwatch 0 x').1))) := by
          rw [hfound]
          exact .code ht _
        exact Runs.next ⟨hw, hcontrol, hs⟩

/-! ### Polls -/

variable {poller poller' : Poller} {x x' : Progress σ}

theorem waker (hp : p.Pollers poller poller') : p.Wakers poller.waker poller'.waker := by
  cases hp with
  | entry => exact .idle
  | spawner => exact .idle
  | executor ht => exact .task ht

theorem forget (h : I.Worlds p w w') (hk : p.acts.Pair k k') :
    I.Worlds p (w.forget m k) (w'.forget m k') := by
  unfold World.forget
  split
  · exact h.recordAct hk .refused fun _ _ => rfl
  · exact h

theorem letGo (h : I.Worlds p w w') (hk : p.acts.Pair k k') (last : Option (Code σ))
    (hs : I.Stacks p stack stack') :
    I.Runs p (w.letGo m k last stack) (w'.letGo m k' last stack') := by
  cases last with
  | none => exact ⟨h.forget hk, .ended _, hs⟩
  | some c => exact ⟨h, .code (.handle hk) c, .cons (.dropping hk) hs⟩

theorem spawn (h : I.Worlds p w w') (hk : p.acts.Pair k k') (hx : p.Progresses x x')
    (last : Option (Code σ)) (hs : I.Stacks p stack stack') :
    Option.Rel (I.Next p) (w.spawn m k x last stack) (w'.spawn m k' x' last stack') := by
  refine rel_bind (h.activations.pairs hk) fun a a' ha => ?_
  have hspawned : I.Worlds p (w.record (.spawned k)) (w'.record (.spawned k')) :=
    h.recordAct hk .spawned fun _ _ => rfl
  rw [ha.state]
  cases m.spawner with
  | none =>
    have hreported := h.recordAct hk (.noSpawner · a'.state) fun _ _ => rfl
    exact Runs.next (hreported.letGo hk last hs)
  | some spawner =>
    cases spawner with
    | queue | pool =>
      obtain ⟨q, hq, hw⟩ := hspawned.addTask hk hx
      exact .some ⟨q, hq, hw, .ended _, hs.mono hq⟩
    | eager =>
      exact Runs.next ⟨hspawned.recordAct hk .polled fun _ _ => rfl, .future .spawner hk hx, hs⟩
    | discard | shutdown => exact Runs.next (hspawned.letGo hk last hs)

theorem suspend (h : I.Worlds p w w') (hp : p.Pollers poller poller') (hk : p.acts.Pair k k')
    (hx : p.Progresses x x') (last : Option (Code σ)) (hs : I.Stacks p stack stack') :
    Option.Rel (I.Next p) (w.suspend m poller k x last stack)
      (w'.suspend m poller' k' x' last stack') := by
  cases hp with
  | entry => exact (h.closeWindow hk).spawn hk hx last hs
  | spawner =>
    obtain ⟨q, hq, hw⟩ := h.addTask hk hx
    exact .some ⟨q, hq, hw, .ended _, hs.mono hq⟩
  | executor ht => exact Runs.next ⟨h.setProgress ht (.some hx), .ended _, hs⟩

theorem finish (h : I.Worlds p w w') (hp : p.Pollers poller poller') (hk : p.acts.Pair k k')
    (b : Bool) (hs : I.Stacks p stack stack') :
    Option.Rel (I.Runs p) (w.finish poller k b stack) (w'.finish poller' k' b stack') := by
  refine rel_bind (h.activations.pairs hk) fun a a' ha => ?_
  have ignored {w₁ w₁' : World σ} (h : I.Worlds p w₁ w₁') :
      I.Worlds p (if b then w₁.record (.cleanupIgnored k a'.state) else w₁)
        (if b then w₁'.record (.cleanupIgnored k' a'.state) else w₁') := by
    cases b with
    | false => exact h
    | true => exact h.recordAct hk (.cleanupIgnored · a'.state) fun _ _ => rfl
  rw [ha.state]
  refine .some ⟨?_, .ended _, hs⟩
  cases hp with
  | entry => exact ignored (h.closeWindow hk)
  | spawner => exact ignored h
  | executor ht => exact ignored (h.setProgress ht .none)

theorem advance (h : I.Worlds p w w') (hp : p.Pollers poller poller') (hk : p.acts.Pair k k')
    (hx : p.Progresses x x')
    (hc : Run.keepsTo I.whose I.inst ⟨w, .future poller k x, stack⟩ = true)
    (hs : I.Stacks p stack stack') :
    Option.Rel (I.Next p) (w.advance m poller k stack x)
      (w'.advance m poller' k' stack' x') := by
  cases hx with
  | stalled => exact h.suspend hp hk .stalled none hs
  | @awaiting j j' hj f last =>
    simp only [World.advance, h.aborted hj]
    split
    · exact Runs.next ⟨h, .future hp hk (.ready f), hs⟩
    · exact (h.modifyActivation hj fun _ _ ha => ha.register (waker hp)).suspend hp hk
        (.awaiting hj f last) last hs
  | ready f =>
    cases f with
    | resolved => exact next_of (h.finish hp hk false hs)
    | resolvedWith c => exact next_of (h.finish hp hk true hs)
    | act c next => exact Runs.next ⟨h, .code (.handle hk) c, .cons (.acting hp hk next) hs⟩
    | yield next last => exact (h.fireWaker (waker hp)).suspend hp hk (.ready next) last hs
    | never last => exact h.suspend hp hk .stalled last hs
    | awaitAbort name next last =>
      cases name with
      | none => exact Runs.next ⟨h, .future hp hk (.awaiting hk next last), hs⟩
      | some name =>
        rcases rel_cases (h.handle hc) with ⟨hn, hn'⟩ | ⟨j, j', hn, hn', hj⟩
        · simp only [World.advance, hn, hn']
          exact Runs.next ⟨h, .future hp hk (.ready next), hs⟩
        · simp only [World.advance, hn, hn']
          exact Runs.next ⟨h, .future hp hk (.awaiting hj next last), hs⟩

/-! ### Frames -/

theorem proceed (h : I.Worlds p w w') (e : Ending σ) {f f' : Frame σ} (hf : I.Frames p f f')
    (hs : I.Stacks p stack stack') :
    Option.Rel (I.Next p) (w.proceed m e stack f) (w'.proceed m e stack' f') := by
  cases hf with
  | resume ht next => exact Runs.next ⟨h, .code ht _, hs⟩
  | owning => exact next_of (h.release e hs)
  | pinning => exact Runs.next ⟨h, .ended e, hs⟩
  | farewell e => exact Runs.next ⟨h, .ended e, hs⟩
  | settle e => exact Runs.next ⟨h, .ended e, hs⟩
  | @exiting k k' ws ws' c c' hk hw hc =>
    have hwoken := h.fireWakers hw
    cases hc with
    | none => exact Runs.next ⟨hwoken, .ended _, hs⟩
    | @some c c' hc =>
      simp only [World.proceed, hc.code]
      refine Runs.next ⟨hwoken.record fun f f' hf => ?_, .code (.handle hc.author) _, hs⟩
      simp only [Event.renumber, hf.act hk, hf.act hc.author]
  | changing t a pl => exact next_of (h.change t a pl hs)
  | @notifying calls calls' hcalls =>
    cases hcalls with
    | nil => exact Runs.next ⟨h, .ended _, hs⟩
    | @cons call call' _ _ hcall hcalls =>
      obtain ⟨n, c⟩ := call
      obtain ⟨n', c'⟩ := call'
      obtain ⟨hn, hc⟩ := hcall
      obtain rfl : c = c' := hc
      refine Runs.next ⟨h.record fun f f' hf => ?_, .code .bare c, .cons (.notifying hcalls) hs⟩
      dsimp only at hn ⊢
      cases hn <;> simp only [Notice.event, Event.renumber, hf.inst]
  | entering tr pl => exact h.enter tr pl hs
  | body hk => exact next_of (h.conclude hk e hs)
  | dropping hk => exact Runs.next ⟨h.forget hk, .ended _, hs⟩
  | acting hp hk next => exact Runs.next ⟨h, .future hp hk (.ready _), hs⟩
  | placing slot hslot =>
    cases e with
    | ok o => exact next_of (h.store_new hslot hs)
    | error e => exact next_of (h.release _ hs)

end Worlds

/-! ### Steps -/

variable {r r' : Run σ}

/-- **One step of a run that keeps to the instance** is the same on either side. -/
theorem Runs.step (h : I.Runs p r r') (hc : r.keepsTo I.whose I.inst = true) :
    Option.Rel (I.Next p) (r.step m) (r'.step m) := by
  obtain ⟨w, control, stack⟩ := r
  obtain ⟨w', control', stack'⟩ := r'
  obtain ⟨hw, hcontrol, hs⟩ := h
  cases hcontrol with
  | code ht c => exact hw.perform ht hc hs
  | future hp hk hx => exact hw.advance hp hk hx hc hs
  | ended e =>
    cases hs with
    | nil => exact .none
    | cons hf hs => exact hw.proceed e hf hs

theorem Next.trans {r r' : Run σ} (h : I.Next q r r') (hq : p.Within q) : I.Next p r r' := by
  obtain ⟨s, hs, hr⟩ := h
  exact ⟨s, hq.trans hs, hr⟩

/-- **A run that keeps to the instance** goes in step with that of the one that is alone. -/
theorem Runs.steps (h : I.Runs p r r') (n : Nat)
    (hc : ∀ j < n, (r.steps m j).keepsTo I.whose I.inst = true) :
    I.Next p (r.steps m n) (r'.steps m n) := by
  induction n generalizing p r r' with
  | zero => exact ⟨p, .refl p, h⟩
  | succ n ih =>
    rcases rel_cases (h.step (m := m) (hc 0 n.succ_pos)) with ⟨hr, hr'⟩ | ⟨r₁, r₁', hr, hr', hnext⟩
    · rw [Run.steps_of_none hr, Run.steps_of_none hr']
      exact ⟨p, .refl p, h⟩
    · obtain ⟨q, hq, h₁⟩ := hnext
      rw [Run.steps_succ hr, Run.steps_succ hr']
      refine (ih h₁ fun j hj => ?_).trans hq
      have hj := hc (j + 1) (Nat.succ_lt_succ hj)
      rwa [Run.steps_succ hr] at hj

theorem Runs.ending_eq (h : I.Runs p r r') : r.ending? = r'.ending? := by
  obtain ⟨w, control, stack⟩ := r
  obtain ⟨w', control', stack'⟩ := r'
  obtain ⟨-, hcontrol, hs⟩ := h
  cases hcontrol <;> cases hs <;> rfl

end Isolation

end Statechart
