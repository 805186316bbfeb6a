import Statechart.Proofs.Observation.Scene
import Statechart.Proofs.Run.Inversion

/-!
What a step does to the scene. Most of what the library does leaves it alone; a write of a state
variable or a context, a call of an observer and an operation on subscriptions change it in the one
way that belongs to them.
-/

namespace Statechart

variable {σ : Signature} {m : Machine σ}

/-- What is removed when the id is looked for among the observers of an instance. -/
def World.removal? (w : World σ) (i : InstanceId) (id : SubscriptionId) : Option (Entry Spot) := do
  let inst ← w.instances.get? i
  if inst.state.observes id then some (.removed (.state i) id)
  else if inst.context.observes id then some (.removed (.context i) id)
  else none

/-- What the operation at hand means for the ids. -/
def Run.mention? (r : Run σ) : Option (Entry Spot) :=
  match r.control with
  | .code _ (.watchState slot _ _ _) =>
    (r.world.slots.get? slot).map fun i => .subscribed (.state i) r.world.nextSubscription
  | .code _ (.watchContext slot _ _ _) =>
    (r.world.slots.get? slot).map fun i => .subscribed (.context i) r.world.nextSubscription
  | .code _ (.unwatch slot name _) => do
    let i ← r.world.slots.get? slot
    let id ← r.world.subscriptions.get? name
    r.world.removal? i id
  | _ => none

namespace World

variable {w : World σ} {i : InstanceId} {k : ActivationId} {r : Run σ} {stack : List (Frame σ)}

/-! ### Exit and transition -/

theorem scene_exit (h : w.exit i stack = some r) : r.scene = w.scene (hailsOf stack) := by
  cases exit_cases h with
  | vacant => rfl
  | @active inst k a =>
    have hsame : ((w.record (.exiting i k inst.state.value)).modifyInstance i fun inst =>
        { inst with active := none }).scene (hailsOf stack) = w.scene (hailsOf stack) :=
      scene_modifyInstance_same (fun _ => rfl) fun _ => rfl
    cases a.signal.fired <;> exact hsame

theorem scene_release {e : Ending σ} (h : w.release i e stack = some r) :
    r.scene = w.scene (hailsOf stack) := by
  cases release_cases h with
  | shared => rfl
  | last _ h => exact (scene_exit h :)

theorem scene_dispatch {caller : Caller} {a : σ.Action} {p : Option σ.Payload}
    (h : w.dispatch m i caller a p stack = some r) : r.scene = w.scene (hailsOf stack) := by
  cases dispatch_cases h with
  | ignored | dangles => rfl
  | departs _ _ _ h => exact (scene_exit h :)

theorem changes_change {t : σ.State} {a : σ.Action} {p : Option σ.Payload}
    (h : w.change i t a p stack = some r) : (w.scene (hailsOf stack)).Change none r.scene := by
  obtain ⟨inst, hi, rfl⟩ := change_eq_some h
  have hcell : (w.scene (hailsOf stack)).cells (.state i) =
      some (.state inst.state.value, inst.state.observers.map Prod.fst) := by
    simp [scene, cell?, hi]
  refine (Scene.Change.wrote (v := .state t) hcell).congr (Scene.ext ?_ rfl ?_ rfl)
  · exact cell?_modifyState (w := w.record (.wrote i inst.state.value t a p)) hi fun c => c.write t
  · simp only [Run.scene, scene, hailsOf_notifying, List.map_map, Scene.write]
    rfl

/-! ### Entry -/

theorem scene_begin {s : σ.State} {tr : Trigger σ.Action} {p : Option σ.Payload}
    (due : List (Hail σ)) : (w.begin i s tr p).scene due = w.scene due :=
  (scene_silent rfl).trans (scene_modifyInstance_same (fun _ => rfl) fun _ => rfl)

theorem scene_enter {tr : Trigger σ.Action} {p : Option σ.Payload}
    (h : w.enter m i tr p stack = some r) : r.scene = w.scene (hailsOf stack) := by
  cases enter_cases h with
  | bare => rfl
  | starts | displaces => exact scene_begin _

theorem scene_keepCleanup {c : Code σ} (h : w.keepCleanup k c stack = some r) :
    r.scene = w.scene (hailsOf stack) := by
  cases keepCleanup_cases h <;> rfl

theorem scene_conclude {e : Ending σ} (h : w.conclude k e stack = some r) :
    r.scene = w.scene (hailsOf stack) := by
  cases conclude_cases h with
  | error | done | pending => rfl
  | cleanup h => exact (scene_keepCleanup h :)

/-! ### Operations -/

theorem changes_setContext {t : Target σ} {c : σ.Context} {next : Code σ}
    (h : w.setContext t c next stack = some r) :
    (w.scene (hailsOf stack)).Change none r.scene := by
  cases setContext_cases h with
  | bare | expired | late => exact .quiet
  | @written k a inst _ _ _ _ hi =>
    have hcell : (w.scene (hailsOf stack)).cells (.context a.owner) =
        some (.context inst.context.value, inst.context.observers.map Prod.fst) := by
      simp [scene, cell?, hi]
    refine (Scene.Change.wrote (v := .context c) hcell).congr (Scene.ext ?_ rfl ?_ rfl)
    · exact cell?_modifyContext (w := w.record (.contextSet a.owner k c)) hi fun x => x.write c
    · simp only [Run.scene, scene, hailsOf_notifying, List.map_map, Scene.write]
      rfl

theorem scene_forward {t : Target σ} {a : σ.Action} {p : Option σ.Payload} {next : Reply → Code σ}
    (h : w.forward m t a p next stack = some r) : r.scene = w.scene (hailsOf stack) := by
  cases forward_cases h with
  | bare | expired | orphaned => rfl
  | dispatched _ _ _ _ h => exact (scene_dispatch h :)

theorem scene_onAbort (t : Target σ) (observer next : Code σ) :
    (w.onAbort t observer next stack).scene = w.scene (hailsOf stack) := by
  unfold onAbort
  split
  · rfl
  · split <;> rfl

theorem changes_start (t : Target σ) (slot : String) (s : σ.State) (c : σ.Context)
    (next : Reply → Code σ) :
    (w.scene (hailsOf stack)).Change none (w.start m t slot s c next stack).scene := by
  unfold start
  split
  · have hnone : w.instances.get? w.instances.size = none :=
      (Roster.get?_eq_none_iff ..).2 (Nat.le_refl _)
    have hs : (w.scene (hailsOf stack)).cells (.state w.instances.size) = none := by
      simp [scene, cell?, hnone]
    have hc : (w.scene (hailsOf stack)).cells (.context w.instances.size) = none := by
      simp [scene, cell?, hnone]
    exact (Scene.Change.placed (v := s) (c := c) hs hc).congr
      (Scene.ext (cell?_push s c) rfl rfl rfl)
  · exact .quiet

theorem changes_place (t : Target σ) (slot : String) (o : Origin σ) (next : Reply → Code σ) :
    (w.scene (hailsOf stack)).Change none (w.place m t slot o next stack).scene := by
  cases o with
  | fresh => exact changes_start ..
  | recovered s c => exact changes_start ..
  | resumed s c =>
    exact changes_start (w := w.record (.resuming s)) t slot s c next

theorem scene_store {slot : String} (h : w.store slot i stack = some r) :
    r.scene = w.scene (hailsOf stack) := by
  cases store_cases h with
  | empty => rfl
  | replaces _ h => exact (scene_release h :)

/-- What looking for an id among the observers of an instance does. -/
theorem changes_unwatch (i : InstanceId) (id : SubscriptionId) (due : List (Hail σ)) :
    (w.scene due).Change (w.removal? i id) ((w.unwatch i id).2.scene due) := by
  unfold unwatch removal?
  cases hi : w.instances.get? i with
  | none => exact .quiet
  | some inst =>
    simp only [Option.bind_eq_bind, Option.bind_some]
    split
    · next ho =>
      have hcell : (w.scene due).cells (.state i) =
          some (.state inst.state.value, inst.state.observers.map Prod.fst) := by
        simp [scene, cell?, hi]
      refine (Scene.Change.unwatched hcell (Cell.observes_iff.1 ho)).congr
        (Scene.ext ?_ rfl rfl rfl)
      refine (cell?_modifyState hi fun c => c.unsubscribe id).trans ?_
      simp [Scene.put, scene, Cell.unsubscribe, List.filter_map, Function.comp_def]
    · split
      · next ho =>
        have hcell : (w.scene due).cells (.context i) =
            some (.context inst.context.value, inst.context.observers.map Prod.fst) := by
          simp [scene, cell?, hi]
        refine (Scene.Change.unwatched hcell (Cell.observes_iff.1 ho)).congr
          (Scene.ext ?_ rfl rfl rfl)
        refine (cell?_modifyContext hi fun c => c.unsubscribe id).trans ?_
        simp [Scene.put, scene, Cell.unsubscribe, List.filter_map, Function.comp_def]
      · exact .quiet

theorem changes_watchState (i : InstanceId) (name : String) (observer : σ.State → Code σ)
    (due : List (Hail σ)) : (w.scene due).Change (some (.subscribed (.state i) w.nextSubscription))
      ((w.watchState i name observer).scene due) := by
  cases hi : w.instances.get? i with
  | none =>
    have hcell : (w.scene due).cells (.state i) = none := by simp [scene, cell?, hi]
    exact (Scene.Change.missed hcell).congr (Scene.ext (cell?_modifyAbsent hi _) rfl rfl rfl)
  | some inst =>
    have hcell : (w.scene due).cells (.state i) =
        some (.state inst.state.value, inst.state.observers.map Prod.fst) := by
      simp [scene, cell?, hi]
    refine (Scene.Change.watched hcell).congr (Scene.ext ?_ rfl rfl rfl)
    refine (cell?_modifyState hi fun c => c.subscribe w.nextSubscription observer).trans ?_
    simp [Scene.put, scene, Cell.subscribe]

theorem changes_watchContext (i : InstanceId) (name : String) (observer : σ.Context → Code σ)
    (due : List (Hail σ)) :
    (w.scene due).Change (some (.subscribed (.context i) w.nextSubscription))
      ((w.watchContext i name observer).scene due) := by
  cases hi : w.instances.get? i with
  | none =>
    have hcell : (w.scene due).cells (.context i) = none := by simp [scene, cell?, hi]
    exact (Scene.Change.missed hcell).congr (Scene.ext (cell?_modifyAbsent hi _) rfl rfl rfl)
  | some inst =>
    have hcell : (w.scene due).cells (.context i) =
        some (.context inst.context.value, inst.context.observers.map Prod.fst) := by
      simp [scene, cell?, hi]
    refine (Scene.Change.watched hcell).congr (Scene.ext ?_ rfl rfl rfl)
    refine (cell?_modifyContext hi fun c => c.subscribe w.nextSubscription observer).trans ?_
    simp [Scene.put, scene, Cell.subscribe]

/-- What is not about a subscription means nothing for the ids. -/
theorem mention?_of_not_subscribes {t : Target σ} {c : Code σ} (hc : c.subscribes = false) :
    Run.mention? ⟨w, .code t c, stack⟩ = none := by
  cases c with
  | watchState | watchContext | unwatch => cases hc
  | _ => rfl

/-- **What an operation of user code does to the scene.** -/
theorem changes_perform {t : Target σ} {c : Code σ} (h : w.perform m t stack c = some r) :
    (w.scene (hailsOf stack)).Change (Run.mention? ⟨w, .code t c, stack⟩) r.scene := by
  cases perform_cases h with
  | finish | raise | emit | clearAbort | keep | within | unheld | holding => exact .quiet
  | idle hc =>
    rw [mention?_of_not_subscribes hc]
    exact .quiet
  | setContext h => exact changes_setContext h
  | dispatch h => exact Scene.Change.quiet.congr (scene_forward h)
  | onAbort => exact Scene.Change.quiet.congr (scene_onAbort ..)
  | place => exact changes_place ..
  | send _ h => exact Scene.Change.quiet.congr (scene_dispatch h :)
  | drop _ h => exact Scene.Change.quiet.congr (scene_release h :)
  | stateUnwatched hs | contextUnwatched hs =>
    simp only [Run.mention?, hs, Option.map_none]
    exact .quiet
  | watchState hs =>
    simp only [Run.mention?, hs, Option.map_some]
    exact changes_watchState ..
  | watchContext hs =>
    simp only [Run.mention?, hs, Option.map_some]
    exact changes_watchContext ..
  | @unknown slot name hn next =>
    have hentry : Run.mention? ⟨w, .code t (.unwatch slot name next), stack⟩ = none := by
      simp only [Run.mention?, Option.bind_eq_bind, Option.bind_eq_none_iff]
      exact fun i hs id hid => absurd hid (hn i id hs)
    rw [hentry]
    exact .quiet
  | unwatch hs hn =>
    simp only [Run.mention?, hs, hn, Option.bind_eq_bind, Option.bind_some]
    exact changes_unwatch ..

/-! ### Polls -/

theorem scene_letsGo {last : Option (Code σ)} (h : w.LetsGo m k stack last r) :
    r.scene = w.scene (hailsOf stack) := by
  cases h <;> rfl

theorem scene_suspend {poller : Poller} {p : Progress σ} {last : Option (Code σ)}
    (h : w.suspend m poller k p last stack = some r) : r.scene = w.scene (hailsOf stack) := by
  cases poller with
  | entry =>
    cases spawn_cases h with
    | queued | polled => rfl
    | missing _ _ h | dropped _ h => exact (scene_letsGo h :)
  | spawner | executor =>
    obtain rfl := Option.some.inj h
    rfl

theorem scene_finish {poller : Poller} {cleanup : Bool}
    (h : w.finish poller k cleanup stack = some r) : r.scene = w.scene (hailsOf stack) := by
  obtain ⟨a, -, rfl⟩ := finish_eq_some h
  cases poller <;> cases cleanup <;> rfl

theorem scene_advance {poller : Poller} {p : Progress σ}
    (h : w.advance m poller k stack p = some r) : r.scene = w.scene (hailsOf stack) := by
  cases advance_cases h with
  | goOn | act => rfl
  | finish _ h => exact scene_finish h
  | yield h => exact (scene_suspend h).trans (scene_fireWaker _)
  | stall _ h => exact scene_suspend h
  | wait _ h => exact (scene_suspend h :)

/-! ### Frames -/

/-- What a frame does to the scene when something has ended. -/
theorem changes_proceed {e : Ending σ} {f : Frame σ} (h : w.proceed m e stack f = some r) :
    (w.scene (hailsOf (f :: stack))).Change none r.scene := by
  cases proceed_cases h with
  | resume | pinning | farewell | settle | acting | dropped | refused | notified => exact .quiet
  | exited k wakers => exact Scene.Change.quiet.congr (scene_wakers wakers)
  | cleanup k wakers =>
    exact Scene.Change.quiet.congr ((scene_silent rfl).trans (scene_wakers wakers))
  | changing h => exact (changes_change h :)
  | notifies n call calls =>
    have htold := Scene.Change.told
      (s := w.scene (n.hail :: hailsOf (.notifying calls :: stack))) rfl
    exact htold.congr (scene_saying (Notice.saying?_event n))
  | owning h | rejects _ h => exact Scene.Change.quiet.congr (scene_release h :)
  | entering h => exact Scene.Change.quiet.congr (scene_enter h :)
  | body h => exact Scene.Change.quiet.congr (scene_conclude h :)
  | stores _ h => exact Scene.Change.quiet.congr (scene_store h :)

end World

/-- **Every step changes the scene in one of the ways that are listed.** -/
theorem Run.changes_step {r r' : Run σ} (h : r.step m = some r') :
    r.scene.Change r.mention? r'.scene := by
  obtain ⟨w, control, stack⟩ := r
  cases control with
  | code t c => exact World.changes_perform h
  | future poller k p => exact Scene.Change.quiet.congr (World.scene_advance h)
  | ended e =>
    cases stack with
    | nil => cases h
    | cons f stack => exact World.changes_proceed h

theorem Run.scene_turn {r r' : Run σ} (h : r.Turn r') : r'.scene = r.scene := by
  cases h with
  | executor h =>
    obtain ⟨t, task, p, rest, -, rfl⟩ := World.ofPoll?_eq_some h
    rfl
  | _ => rfl

end Statechart
