import Statechart.Proofs.Run.Inversion

/-!
What a step does to the lifecycle of a run. Most steps leave it alone; the others are the moves
listed here, with all that is known of the run before them. The main statement, `Run.move_step`,
says that there are no others, so that an invariant of lifecycles has to be proved for the moves
only.
-/

namespace Statechart

variable {σ : Signature} {m : Machine σ}

/-! ### Moves -/

/-- Why the current state of an instance is left. -/
inductive Departure (σ : Signature) where
  | transition (caller : Caller) (source target : σ.State) (action : σ.Action)
      (payload : Option σ.Payload)
  | release

namespace Departure

/-- The event that reports a departure of instance `i`. -/
def event (i : InstanceId) : Departure σ → Event σ
  | transition caller s t a _ => .transition i caller s t a
  | release => .released i

/-- What is under way during a departure of instance `i`. -/
def stage (i : InstanceId) : Departure σ → Stage σ
  | transition _ _ t a p => .changing i t a p
  | release => .leaving i

end Departure

/-- The code that runs is about to dispatch on instance `i` as one of its owners. -/
def Run.Sends (r : Run σ) (i : InstanceId) : Prop :=
  ∃ t slot a p next, r.control = .code t (.send slot a p next) ∧ r.world.slots.get? slot = some i

/-- The run may dispatch on instance `i` in the name of a caller. -/
def Run.Admits (r : Run σ) (i : InstanceId) : Caller → Prop
  | .owner => r.Sends i
  | .handle k => ∃ b, r.life.activations k = some b ∧ b.owner = i ∧ b.aborted = false

/-- The run has a reason for a departure of instance `i`. -/
def Departure.Due (m : Machine σ) (r : Run σ) (i : InstanceId) : Departure σ → Prop
  | transition caller s t a _ =>
    (∃ st, r.life.instances i = some st ∧ st.state = s) ∧ m.config.target? s a = some t ∧
      m.config.contains t = true ∧ r.Admits i caller
  | release => True

/-- What a step from `r` may make of its lifecycle. -/
inductive Move (m : Machine σ) (r : Run σ) : Life σ → Prop
  | quiet : Move m r r.life
  | place {s c} (hs : m.config.contains s = true) :
      Move m r (((r.life.note (.placed r.life.placed s)).addInstance ⟨s, c, none⟩).on
        (.entering r.life.placed .initial none :: r.life.stages))
  /-- An instance without a live activation departs. -/
  | depart {i s} {d : Departure σ} (hi : r.life.instances i = some s) (ha : s.active = none)
      (hd : d.Due m r i) :
      Move m r ((r.life.note (d.event i)).on (d.stage i :: r.life.stages))
  /-- An instance departs, and the exit of its live activation begins. -/
  | exit {i s k b} {d : Departure σ} (hi : r.life.instances i = some s) (ha : s.active = some k)
      (hk : r.life.activations k = some b) (hd : d.Due m r i) :
      Move m r (((r.life.note (d.event i)).tearDown i k s.state).on
        (.exiting k b.cleanup :: d.stage i :: r.life.stages))
  /-- An exit is over, without a cleanup. -/
  | exited {k rest} (hs : r.life.stages = .exiting k none :: rest) : Move m r (r.life.on rest)
  /-- An exit comes to its cleanup. -/
  | cleanup {k c rest e wakers stack} (hs : r.life.stages = .exiting k (some c) :: rest)
      (hr : r.control = .ended e) (hst : r.stack = .exiting k wakers (some c) :: stack) :
      Move m r ((r.life.note (.cleanupRun c.author k)).on rest)
  /-- The departure of a released instance is over. -/
  | left {i rest} (hs : r.life.stages = .leaving i :: rest) : Move m r (r.life.on rest)
  /-- The state variable is written. -/
  | change {i t a p rest s} (hs : r.life.stages = .changing i t a p :: rest)
      (hi : r.life.instances i = some s) :
      Move m r (((r.life.note (.wrote i s.state t a p)).modifyInstance i
        fun s => { s with state := t }).on (.entering i (.action a) p :: rest))
  /-- A state without effect is entered. -/
  | enterBare {i tr p rest s} (hs : r.life.stages = .entering i tr p :: rest)
      (hi : r.life.instances i = some s) (he : m.config.effect? s.state = none) :
      Move m r ((r.life.note (.entered i s.state tr p)).on rest)
  /-- A state with an effect is entered while no activation is live. -/
  | enter {i tr p rest s c} (hs : r.life.stages = .entering i tr p :: rest)
      (hi : r.life.instances i = some s) (he : m.config.effect? s.state = some c)
      (ha : s.active = none) :
      Move m r ((r.life.begin i s.state tr p).on (.entry r.life.started :: rest))
  /-- A state with an effect is entered in spite of a live activation, which is lost. -/
  | displace {i tr p rest s c j} (hs : r.life.stages = .entering i tr p :: rest)
      (hi : r.life.instances i = some s) (he : m.config.effect? s.state = some c)
      (ha : s.active = some j) :
      Move m r (((r.life.note (.displaced j)).begin i s.state tr p).on
        (.entry r.life.started :: rest))
  /-- An entry is over, and its window is closed. -/
  | close {k rest} (hs : r.life.stages = .entry k :: rest) :
      Move m r ((r.life.modifyActivation k .closed).on rest)
  /-- An entry is over, and its cleanup is left to an instance without a live activation. -/
  | forgo {k rest b s} (hs : r.life.stages = .entry k :: rest)
      (hk : r.life.activations k = some b) (hb : b.aborted = false)
      (hi : r.life.instances b.owner = some s) (ha : s.active = none) :
      Move m r (((r.life.modifyActivation k .closed).note (.cleanupGiven k)).on rest)
  /-- An entry is over, and its cleanup is left to the live activation of the instance. -/
  | keep {k rest b s j c stack} (hs : r.life.stages = .entry k :: rest)
      (hr : r.control = .ended (.ok (.cleanup c))) (hst : r.stack = .body k :: stack)
      (hk : r.life.activations k = some b) (hb : b.aborted = false)
      (hi : r.life.instances b.owner = some s) (ha : s.active = some j) :
      Move m r ((((r.life.modifyActivation k .closed).note (.cleanupGiven k)).modifyActivation j
        fun t => { t with cleanup := some ⟨k, c⟩ }).on rest)
  /-- An entry is over that was exited meanwhile, and its cleanup runs at once. -/
  | atOnce {k rest b c stack} (hs : r.life.stages = .entry k :: rest)
      (hr : r.control = .ended (.ok (.cleanup c))) (hst : r.stack = .body k :: stack)
      (hk : r.life.activations k = some b) (hb : b.aborted = true) :
      Move m r ((((r.life.modifyActivation k .closed).note (.cleanupGiven k)).note
        (.cleanupAtOnce k b.state)).on rest)
  | write {k b s c} (hk : r.life.activations k = some b) (hb : b.aborted = false)
      (ho : b.windowOpen = true) (hi : r.life.instances b.owner = some s) :
      Move m r ((r.life.note (.contextSet b.owner k c)).modifyInstance b.owner
        fun s => { s with context := c })
  /-- The abort observer of an activation is set or cleared. -/
  | observe {k o} (ho : ∀ c, o = some c →
        ∃ t next, r.control = .code t (.onAbort c next) ∧ t.activation? = some k) :
      Move m r (r.life.modifyActivation k fun t => { t with observer := o })

theorem Move.congr {r : Run σ} {l l' : Life σ} (h : Move m r l) (e : l' = l) : Move m r l' :=
  e ▸ h

namespace World

variable {w w' : World σ} {r r' : Run σ} {stack : List (Frame σ)}

/-! ### Exit and transition -/

theorem instances_life {i : InstanceId} {inst : Instance σ} (hw : w.life (stagesOf stack) = r.life)
    (h : w.instances.get? i = some inst) : r.life.instances i = some inst.standing := by
  rw [← hw]
  exact life_instances h

theorem activations_life {k : ActivationId} {a : Activation σ}
    (hw : w.life (stagesOf stack) = r.life) (h : w.activations.get? k = some a) :
    r.life.activations k = some a.tenure := by
  rw [← hw]
  exact life_activations h

theorem move_exit {i : InstanceId} {d : Departure σ} {f : Frame σ}
    (hw : w.life (stagesOf stack) = r.life) (hf : f.stage? = some (d.stage i)) (hd : d.Due m r i)
    (h : (w.record (d.event i)).exit i (f :: stack) = some r') : Move m r r'.life := by
  have hstages : stagesOf (f :: stack) = d.stage i :: r.life.stages := by
    rw [← hw]
    simp [stagesOf, hf, life]
  have hlife (stages) :
      (w.record (d.event i)).life stages = (r.life.note (d.event i)).on stages := by
    rw [life_record, if_pos (by cases d <;> rfl), ← hw]
    rfl
  cases exit_cases h with
  | vacant hi ha =>
    refine (Move.depart (instances_life hw hi) ha hd).congr ?_
    rw [← hstages, ← hlife]
    rfl
  | @active inst k a hi ha hk =>
    have hmove := Move.exit (instances_life hw hi) ha (activations_life hw hk) hd
    rw [← hstages, show a.tenure.cleanup = a.cleanup from rfl] at hmove
    refine hmove.congr ?_
    rw [life_observing, life_tearDown, hlife]
    rfl

theorem move_release (stack : List (Frame σ)) {i : InstanceId} {e : Ending σ}
    (hw : w.life (stagesOf stack) = r.life) (h : w.release i e stack = some r') :
    Move m r r'.life := by
  cases release_cases h with
  | shared => exact Move.quiet.congr hw
  | last _ h => exact move_exit (d := .release) hw rfl trivial h

theorem move_dispatch (stack : List (Frame σ)) (caller : Caller) {i : InstanceId} {a : σ.Action}
    {p : Option σ.Payload} (hw : w.life (stagesOf stack) = r.life) (hc : r.Admits i caller)
    (h : w.dispatch m i caller a p stack = some r') : Move m r r'.life := by
  cases dispatch_cases h with
  | ignored | dangles => exact Move.quiet.congr hw
  | @departs inst t _ hi ht hd h =>
    exact move_exit (d := .transition caller inst.state.value t a p) hw rfl
      ⟨⟨_, instances_life hw hi, rfl⟩, ht, hd, hc⟩ h

theorem move_change {i : InstanceId} {t : σ.State} {a : σ.Action} {p : Option σ.Payload}
    {e : Ending σ} (h : w.change i t a p stack = some r') :
    Move m ⟨w, .ended e, .changing i t a p :: stack⟩ r'.life := by
  obtain ⟨inst, hi, rfl⟩ := change_eq_some h
  have hmove := Move.change (m := m) (r := ⟨w, .ended e, .changing i t a p :: stack⟩) rfl
    (instances_life rfl hi)
  refine hmove.congr ?_
  refine (life_modifyInstance i (g := fun s => { s with state := t }) fun _ _ => rfl).trans ?_
  rw [life_record]
  rfl

/-! ### Entry -/

theorem move_enter {i : InstanceId} {tr : Trigger σ.Action} {p : Option σ.Payload} {e : Ending σ}
    (h : w.enter m i tr p stack = some r') :
    Move m ⟨w, .ended e, .entering i tr p :: stack⟩ r'.life := by
  cases enter_cases h with
  | bare hi he =>
    exact (Move.enterBare (r := ⟨w, .ended e, .entering i tr p :: stack⟩) rfl (life_instances hi)
      he).congr (life_record _)
  | starts hi he ha =>
    exact (Move.enter (r := ⟨w, .ended e, .entering i tr p :: stack⟩) rfl (life_instances hi) he
      ha).congr (life_begin _)
  | displaces hi he ha =>
    refine (Move.displace (r := ⟨w, .ended e, .entering i tr p :: stack⟩) rfl (life_instances hi)
      he ha).congr ?_
    refine (life_begin _).trans ?_
    rw [life_record]
    rfl

theorem move_keepCleanup {k : ActivationId} {c : Code σ}
    (h : (w.closeWindow k).keepCleanup k c stack = some r') :
    Move m ⟨w, .ended (.ok (.cleanup c)), .body k :: stack⟩ r'.life := by
  have hfound {a : Activation σ} (hk : (w.closeWindow k).activations.get? k = some a) :
      ∃ b, w.activations.get? k = some b ∧ { b with windowOpen := false } = a := by
    simpa only [closeWindow, modifyActivation, Roster.get?_modify, if_true,
      Option.map_eq_some_iff] using hk
  have hgiven (stages) : ((w.closeWindow k).record (.cleanupGiven k)).life stages =
      ((w.life stages).modifyActivation k .closed).note (.cleanupGiven k) :=
    (life_record _).trans (congrArg (Life.note · _) (life_closeWindow k))
  cases keepCleanup_cases h with
  | atOnce hk ha =>
    obtain ⟨b, hb, rfl⟩ := hfound hk
    refine (Move.atOnce (r := ⟨w, .ended (.ok (.cleanup c)), .body k :: stack⟩) rfl rfl rfl
      (life_activations hb) ha).congr ?_
    exact (life_record _).trans (congrArg (Life.note · _) (hgiven _))
  | forgone hk ha hi hn =>
    obtain ⟨b, hb, rfl⟩ := hfound hk
    exact (Move.forgo (r := ⟨w, .ended (.ok (.cleanup c)), .body k :: stack⟩) rfl
      (life_activations hb) ha (life_instances (w := w) hi) hn).congr (hgiven _)
  | @kept a inst j hk ha hi hj =>
    obtain ⟨b, hb, rfl⟩ := hfound hk
    refine (Move.keep (r := ⟨w, .ended (.ok (.cleanup c)), .body k :: stack⟩) rfl rfl rfl
      (life_activations hb) ha (life_instances (w := w) hi) hj).congr ?_
    refine (life_modifyActivation j (g := fun t => { t with cleanup := some ⟨k, c⟩ })
      fun _ _ => rfl).trans ?_
    rw [hgiven]
    rfl

theorem move_conclude {k : ActivationId} {e : Ending σ} (h : w.conclude k e stack = some r') :
    Move m ⟨w, .ended e, .body k :: stack⟩ r'.life := by
  have hclose := (Move.close (m := m) (r := ⟨w, .ended e, .body k :: stack⟩) rfl).congr
    (life_closeWindow (s := stagesOf stack) k)
  cases conclude_cases h with
  | error | done => exact hclose
  | cleanup h => exact move_keepCleanup h
  | pending => exact .quiet

/-! ### Operations -/

theorem move_setContext {t : Target σ} {c : σ.Context} {next : Code σ} {code : Code σ}
    (h : w.setContext t c next stack = some r') : Move m ⟨w, .code t code, stack⟩ r'.life := by
  cases setContext_cases h with
  | bare | expired | late => exact .quiet
  | @written k a inst _ hk ha ho hi =>
    refine (Move.write (r := ⟨w, .code t code, stack⟩) (c := c) (life_activations hk) ha ho
      (life_instances hi)).congr ?_
    refine (life_modifyInstance a.owner (g := fun s => { s with context := c })
      fun _ _ => rfl).trans ?_
    rw [life_record]
    rfl

theorem move_forward {t : Target σ} {a : σ.Action} {p : Option σ.Payload} {next : Reply → Code σ}
    {code : Code σ} (h : w.forward m t a p next stack = some r') :
    Move m ⟨w, .code t code, stack⟩ r'.life := by
  cases forward_cases h with
  | bare | expired | orphaned => exact .quiet
  | @dispatched k b _ _ hk hb _ h =>
    exact move_dispatch (.pinning b.owner :: .resume t next :: stack) (.handle k) rfl
      ⟨b.tenure, life_activations hk, rfl, hb⟩ h

theorem move_onAbort {t : Target σ} {observer next : Code σ} :
    Move m ⟨w, .code t (.onAbort observer next), stack⟩ (w.onAbort t observer next stack).life := by
  unfold onAbort
  split
  · exact .quiet
  · next k hk =>
    split
    · exact .quiet
    · next ha =>
      refine (Move.observe (r := ⟨w, .code t (.onAbort observer next), stack⟩) (k := k)
        (o := some observer) fun c hc => ?_).congr ?_
      · obtain rfl := Option.some.inj hc
        exact ⟨t, next, rfl, hk⟩
      · refine life_modifyActivation k fun a hk => ?_
        have : a.signal.aborted = false := by simpa [aborted, hk] using ha
        simp [Activation.tenure, Signal.setObserver, this]

theorem move_clearAbort {t : Target σ} {k : ActivationId} {next : Code σ} {code : Code σ} :
    Move m ⟨w, .code t code, stack⟩ ((w.modifyActivation k fun a =>
      { a with signal := a.signal.clearObserver }).goOn t next stack).life :=
  (Move.observe (r := ⟨w, .code t code, stack⟩) (k := k) (o := none) fun _ hc => by
    cases hc).congr (life_modifyActivation k fun _ _ => rfl)

theorem move_start {t : Target σ} {slot : String} {s : σ.State} {c : σ.Context}
    {next : Reply → Code σ} (hw : w.life (stagesOf stack) = r.life) :
    Move m r (w.start m t slot s c next stack).life := by
  unfold start
  split
  · next hs =>
    refine (Move.place (c := c) hs).congr ?_
    refine (life_record _).trans ?_
    rw [life_pushInstance, ← hw]
    rfl
  · exact Move.quiet.congr hw

theorem move_place {t : Target σ} {slot : String} {o : Origin σ} {next : Reply → Code σ}
    {code : Code σ} : Move m ⟨w, .code t code, stack⟩ (w.place m t slot o next stack).life := by
  unfold place
  split <;> exact move_start rfl

theorem move_store (stack : List (Frame σ)) {slot : String} {i : InstanceId}
    (hw : w.life (stagesOf stack) = r.life) (h : w.store slot i stack = some r') :
    Move m r r'.life := by
  cases store_cases h with
  | empty => exact Move.quiet.congr hw
  | replaces _ h => exact move_release (w := { w with slots := w.slots.insert slot i }) stack hw h

theorem life_unwatch {stages : List (Stage σ)} (i : InstanceId) (id : SubscriptionId) :
    (w.unwatch i id).2.life stages = w.life stages := by
  unfold unwatch
  split
  · rfl
  · split
    · exact life_modifyInstance_same i fun _ => rfl
    · split
      · exact life_modifyInstance_same i fun _ => rfl
      · rfl

/-- **An operation of user code moves the lifecycle.** -/
theorem move_perform {t : Target σ} {c : Code σ} (h : w.perform m t stack c = some r') :
    Move m ⟨w, .code t c, stack⟩ r'.life := by
  cases perform_cases h with
  | finish | raise | emit | idle | keep | within | unheld | holding => exact .quiet
  | stateUnwatched | contextUnwatched | unknown => exact .quiet
  | setContext h => exact move_setContext h
  | dispatch h => exact move_forward h
  | onAbort => exact move_onAbort
  | clearAbort => exact move_clearAbort
  | place => exact move_place
  | @send slot i a p next _ hi h =>
    exact move_dispatch (.owning i :: .resume t next :: stack) .owner rfl
      ⟨t, slot, a, p, next, rfl, hi⟩ h
  | @drop slot i next _ _ h =>
    exact move_release (w := { w with slots := w.slots.erase slot })
      (.resume t (fun _ => next true) :: stack) rfl h
  | watchState | watchContext => exact Move.quiet.congr (life_modifyInstance_same _ fun _ => rfl)
  | unwatch => exact Move.quiet.congr (life_unwatch _ _)

/-! ### Polls -/

/-- What becomes of a future after its first poll does not show. -/
theorem life_spawn {k : ActivationId} {p : Progress σ} {last : Option (Code σ)}
    (h : w.spawn m k p last stack = some r') : r'.life = w.life (stagesOf stack) := by
  cases spawn_cases h with
  | missing _ _ h | dropped _ h => cases h <;> rfl
  | queued | polled => rfl

theorem move_suspend {poller : Poller} {k : ActivationId} {p q : Progress σ}
    {last : Option (Code σ)} (hw : ∀ stages, w'.life stages = w.life stages)
    (h : w'.suspend m poller k p last stack = some r') :
    Move m ⟨w, .future poller k q, stack⟩ r'.life := by
  cases poller with
  | entry =>
    refine (Move.close (r := ⟨w, .future .entry k q, stack⟩) rfl).congr ?_
    rw [life_spawn h, life_closeWindow, hw]
    rfl
  | spawner =>
    obtain rfl := Option.some.inj h
    exact Move.quiet.congr (hw _)
  | executor t =>
    obtain rfl := Option.some.inj h
    exact Move.quiet.congr (hw _)

theorem move_finish {poller : Poller} {k : ActivationId} {cleanup : Bool} {q : Progress σ}
    (h : w.finish poller k cleanup stack = some r') :
    Move m ⟨w, .future poller k q, stack⟩ r'.life := by
  obtain ⟨a, -, rfl⟩ := finish_eq_some h
  cases poller with
  | entry =>
    refine (Move.close (r := ⟨w, .future .entry k q, stack⟩) rfl).congr ?_
    refine Eq.trans ?_ (life_closeWindow (w := w) (s := stagesOf stack) k)
    cases cleanup <;> rfl
  | spawner => cases cleanup <;> exact .quiet
  | executor t => cases cleanup <;> exact .quiet

/-- **A step of a future moves the lifecycle.** -/
theorem move_advance {poller : Poller} {k : ActivationId} {p : Progress σ}
    (h : w.advance m poller k stack p = some r') :
    Move m ⟨w, .future poller k p, stack⟩ r'.life := by
  cases advance_cases h with
  | goOn | act => cases poller <;> exact .quiet
  | finish _ h => exact move_finish h
  | yield h => exact move_suspend (fun _ => life_fireWaker _) h
  | stall _ h => exact move_suspend (fun _ => rfl) h
  | @wait j _ _ _ _ h =>
    refine move_suspend (fun _ => life_modifyActivation_same j fun a => ?_) h
    simp only [Activation.tenure, Signal.aborted_register, Signal.observer_register]

/-! ### Frames -/

/-- **What a frame does when something has ended moves the lifecycle.** -/
theorem move_proceed {e : Ending σ} {f : Frame σ} (h : w.proceed m e stack f = some r') :
    Move m ⟨w, .ended e, f :: stack⟩ r'.life := by
  cases proceed_cases h with
  | resume | pinning | settle | dropped | refused | notified => exact .quiet
  | acting poller => cases poller <;> exact .quiet
  | farewell i e' => exact .left (r := ⟨w, .ended e, .farewell i e' :: stack⟩) rfl
  | exited k wakers =>
    exact (Move.exited (r := ⟨w, .ended e, .exiting k wakers none :: stack⟩) rfl).congr
      (life_foldl_fireWaker wakers)
  | cleanup k wakers c =>
    refine (Move.cleanup (r := ⟨w, .ended e, .exiting k wakers (some c) :: stack⟩) rfl rfl
      rfl).congr ?_
    exact (life_record _).trans (congrArg (Life.note · _) (life_foldl_fireWaker wakers))
  | notifies n => exact Move.quiet.congr ((life_record _).trans (by cases n <;> rfl))
  | owning h | rejects _ h => exact move_release (w := w) stack rfl h
  | changing h => exact move_change h
  | entering h => exact move_enter h
  | body h => exact move_conclude h
  | stores _ h => exact move_store (w := w) stack rfl h

end World

/-- **Every step moves the lifecycle.** -/
theorem Run.move_step {r r' : Run σ} (h : r.step m = some r') : Move m r r'.life := by
  obtain ⟨w, control, stack⟩ := r
  cases control with
  | code t c => exact World.move_perform h
  | future poller k p => exact World.move_advance h
  | ended e =>
    cases stack with
    | nil => cases h
    | cons f stack => exact World.move_proceed h

end Statechart
