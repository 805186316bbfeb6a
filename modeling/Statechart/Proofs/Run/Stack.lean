import Statechart.Proofs.Run.Inversion
import Statechart.Proofs.Run.Path

/-!
The stack of a run, and the errors on it. A step takes at most the topmost frame off the stack, and
this only when something has ended; whatever it adds lies above the rest. So a frame stays where it
is until everything above it has ended. An error that is on its way to a caller has been on its way
before, or user code has just raised it, or a dispatch has just come upon a dangling transition.
-/

namespace Statechart

variable {σ : Signature} {m : Machine σ} {w : World σ} {stack base : List (Frame σ)}
  {r r' : Run σ} {i n : InstanceId} {k : ActivationId} {P : MachineError → Prop}

/-! ### Errors on their way -/

/-- The error with which something has ended. -/
def Ending.error? : Ending σ → Option MachineError
  | .error e => some e
  | .ok _ => none

/-- The error that a frame hands on when its turn comes, whatever has ended above it. -/
def Frame.error? : Frame σ → Option MachineError
  | .farewell _ r => r.error?
  | .settle r => r.error?
  | _ => none

def Control.error? : Control σ → Option MachineError
  | .ended r => r.error?
  | _ => none

/-- The errors that a stack hands on. -/
def errorsOf (stack : List (Frame σ)) : List MachineError := stack.filterMap Frame.error?

/-- The errors that are on their way to a caller. -/
def Run.errors (r : Run σ) : List MachineError := r.control.error?.toList ++ errorsOf r.stack

/-- The error of a transition whose target is not declared. -/
def Machine.Dangles (m : Machine σ) (e : MachineError) : Prop :=
  ∃ s a t, m.config.target? s a = some t ∧ m.config.contains t = false ∧
    e = .unknownTarget (σ.stateName s) (σ.actionName a) (σ.stateName t)

/-- The instance that a frame places. -/
def Frame.places? : Frame σ → Option InstanceId
  | .placing i _ => some i
  | _ => none

/-- Whether a frame places no instance, and hands on no error of its own. -/
def Frame.plain (f : Frame σ) : Bool := f.error?.isNone && f.places?.isNone

theorem Frame.plain_iff {f : Frame σ} : f.plain = true ↔ f.error? = none ∧ f.places? = none := by
  simp [Frame.plain]

/-- The run stands upon a stack: it has added to it at most, the instance that it places there is
`i`, and an error of which `P` does not hold is one that the stack hands on. -/
structure Run.Upon (P : MachineError → Prop) (i : InstanceId) (stack : List (Frame σ)) (r : Run σ) :
    Prop where
  above : ∃ new, r.stack = new ++ stack ∧ ∀ f ∈ new, ∀ j, f.places? = some j → j = i
  errors : ∀ e ∈ r.errors, P e ∨ e ∈ errorsOf stack

namespace Run.Upon

theorem suffix (h : r.Upon P n stack) : stack <:+ r.stack := by
  obtain ⟨new, hs, -⟩ := h.above
  exact ⟨new, hs.symm⟩

/-- What stands upon a frame stands upon the stack below it. -/
theorem below {f : Frame σ} (h : r.Upon P n (f :: stack)) (hp : f.places? = none)
    (hf : ∀ e, f.error? = some e → P e) : r.Upon P n stack := by
  obtain ⟨new, hs, hnew⟩ := h.above
  refine ⟨⟨new ++ [f], by rw [hs, List.append_assoc, List.singleton_append], fun g hg j hj => ?_⟩,
    fun e he => ?_⟩
  · rcases List.mem_append.1 hg with hg | hg
    · exact hnew g hg j hj
    · obtain rfl := List.mem_singleton.1 hg
      rw [hp] at hj
      cases hj
  · rcases h.errors e he with hp | hs
    · exact .inl hp
    · obtain ⟨g, hg, hge⟩ := List.mem_filterMap.1 hs
      rcases List.mem_cons.1 hg with rfl | hg
      · exact .inl (hf e hge)
      · exact .inr (List.mem_filterMap.2 ⟨g, hg, hge⟩)

theorem below_plain {f : Frame σ} (h : r.Upon P n (f :: stack)) (hf : f.plain = true) :
    r.Upon P n stack := by
  obtain ⟨he, hp⟩ := Frame.plain_iff.1 hf
  refine h.below hp fun e hfe => ?_
  rw [he] at hfe
  cases hfe

/-- What has ended stands upon its stack. -/
theorem ended {e : Ending σ} (he : ∀ x, e.error? = some x → P x) :
    Upon P n stack ⟨w, .ended e, stack⟩ := by
  refine ⟨⟨[], rfl, nofun⟩, fun x hx => ?_⟩
  rcases List.mem_append.1 hx with hx | hx
  · exact .inl (he x (Option.mem_toList.1 hx))
  · exact .inr hx

/-- Frames that place nothing, and that hand on no error of their own, may be added. -/
theorem push (new : List (Frame σ)) {c : Control σ} (hc : c.error? = none)
    (hn : new.all Frame.plain = true) : Upon P n stack ⟨w, c, new ++ stack⟩ := by
  have hplain (f) (hf : f ∈ new) := Frame.plain_iff.1 (List.all_eq_true.1 hn f hf)
  refine ⟨⟨new, rfl, fun f hf j hj => ?_⟩, fun x hx => .inr ?_⟩
  · rw [(hplain f hf).2] at hj
    cases hj
  · rcases List.mem_append.1 hx with hx | hx
    · rw [hc] at hx
      cases hx
    · obtain ⟨f, hf, hfx⟩ := List.mem_filterMap.1 hx
      rcases List.mem_append.1 hf with hf | hf
      · rw [(hplain f hf).1] at hfx
        cases hfx
      · exact List.mem_filterMap.2 ⟨f, hf, hfx⟩

theorem same {c : Control σ} (hc : c.error? = none) : Upon P n stack ⟨w, c, stack⟩ :=
  push [] hc rfl

end Run.Upon

namespace World

/-! ### Exits and entries -/

theorem upon_exit (h : w.exit i stack = some r) : r.Upon P n stack := by
  cases exit_cases h with
  | vacant => exact .same rfl
  | @active inst k a => cases a.signal.fired <;> exact .push [_] rfl rfl

theorem upon_release {e : Ending σ} (he : ∀ x, e.error? = some x → P x)
    (h : w.release i e stack = some r) : r.Upon P n stack := by
  cases release_cases h with
  | shared => exact .ended he
  | last _ h => exact (upon_exit h).below rfl he

theorem upon_dispatch (hd : ∀ x, m.Dangles x → P x) {caller : Caller} {a : σ.Action}
    {p : Option σ.Payload} (h : w.dispatch m i caller a p stack = some r) : r.Upon P n stack := by
  cases dispatch_cases h with
  | ignored => exact .same rfl
  | departs _ _ _ h => exact (upon_exit h).below_plain rfl
  | dangles _ ht hc => exact .ended fun x hx => hd x ⟨_, a, _, ht, hc, (Option.some.inj hx).symm⟩

theorem upon_change {t : σ.State} {a : σ.Action} {p : Option σ.Payload}
    (h : w.change i t a p stack = some r) : r.Upon P n stack := by
  obtain ⟨inst, -, rfl⟩ := change_eq_some h
  exact .push [_, _] rfl rfl

theorem upon_enter {tr : Trigger σ.Action} {p : Option σ.Payload}
    (h : w.enter m i tr p stack = some r) : r.Upon P n stack := by
  cases enter_cases h with
  | bare => exact .same rfl
  | starts | displaces => exact .push [_] rfl rfl

theorem upon_keepCleanup {c : Code σ} (h : w.keepCleanup k c stack = some r) :
    r.Upon P n stack := by
  cases keepCleanup_cases h with
  | atOnce => exact .push [_] rfl rfl
  | forgone | kept => exact .same rfl

theorem upon_conclude {e : Ending σ} (he : ∀ x, e.error? = some x → P x)
    (h : w.conclude k e stack = some r) : r.Upon P n stack := by
  cases conclude_cases h with
  | error => exact .ended he
  | cleanup h => exact upon_keepCleanup h
  | done | pending => exact .same rfl

/-! ### Operations -/

theorem upon_setContext {t : Target σ} {c : σ.Context} {next : Code σ}
    (h : w.setContext t c next stack = some r) : r.Upon P n stack := by
  cases setContext_cases h with
  | bare | expired | late => exact .same rfl
  | written => exact .push [_, _] rfl rfl

theorem upon_forward (hd : ∀ x, m.Dangles x → P x) {t : Target σ} {a : σ.Action}
    {p : Option σ.Payload} {next : Reply → Code σ} (h : w.forward m t a p next stack = some r) :
    r.Upon P n stack := by
  cases forward_cases h with
  | bare | expired | orphaned => exact .same rfl
  | dispatched _ _ _ _ h => exact ((upon_dispatch hd h).below_plain rfl).below_plain rfl

theorem upon_onAbort (t : Target σ) (observer next : Code σ) :
    (w.onAbort t observer next stack).Upon P n stack := by
  unfold onAbort
  split
  · exact .same rfl
  · split <;> exact .same rfl

theorem upon_start {t : Target σ} {slot : String} {s : σ.State} {c : σ.Context}
    {next : Reply → Code σ} :
    (w.start m t slot s c next stack).Upon P w.instances.size stack := by
  unfold start
  split
  · refine ⟨⟨[_, _, _], rfl, fun f hf i hi => ?_⟩, fun _ => .inr⟩
    obtain rfl | rfl | rfl : f = _ ∨ f = _ ∨ f = _ := by simpa using hf
    · cases hi
    · cases hi
      rfl
    · cases hi
  · exact .same rfl

theorem upon_store {slot : String} (h : w.store slot i stack = some r) : r.Upon P n stack := by
  cases store_cases h with
  | empty => exact .same rfl
  | replaces _ h => exact upon_release (by rintro _ ⟨⟩) h

/-- An operation of user code leaves the stack as it is, or adds to it. -/
theorem upon_perform (hd : ∀ x, m.Dangles x → P x) {t : Target σ} {c : Code σ}
    (hr : ∀ x, c = .raise x → P x) (h : w.perform m t stack c = some r) :
    r.Upon P w.instances.size stack := by
  cases perform_cases h with
  | raise e => exact .ended fun x hx => hr x (congrArg Code.raise (Option.some.inj hx))
  | finish | emit | idle | clearAbort | keep => exact .same rfl
  | stateUnwatched | watchState | contextUnwatched | watchContext | unknown | unwatch =>
    exact .same rfl
  | setContext h => exact upon_setContext h
  | dispatch h => exact upon_forward hd h
  | onAbort observer next => exact upon_onAbort t observer next
  | within | unheld => exact .push [_] rfl rfl
  | holding => exact .push [_, _] rfl rfl
  | place slot o next =>
    cases o with
    | fresh | recovered => exact upon_start
    | resumed s c => exact upon_start (w := w.record _)
  | send _ h => exact ((upon_dispatch hd h).below_plain rfl).below_plain rfl
  | drop _ h => exact (upon_release (by rintro _ ⟨⟩) h).below_plain rfl

/-! ### Polls -/

theorem upon_letsGo {last : Option (Code σ)} (h : w.LetsGo m k stack last r) :
    r.Upon P n stack := by
  cases h with
  | gone | refused => exact .same rfl
  | drops => exact .push [_] rfl rfl

theorem upon_suspend {poller : Poller} {p : Progress σ} {last : Option (Code σ)}
    (h : w.suspend m poller k p last stack = some r) : r.Upon P n stack := by
  cases poller with
  | entry =>
    cases spawn_cases h with
    | missing _ _ h | dropped _ h => exact upon_letsGo h
    | queued | polled => exact .same rfl
  | spawner | executor =>
    obtain rfl := Option.some.inj h
    exact .same rfl

theorem upon_finish {poller : Poller} {cleanup : Bool}
    (h : w.finish poller k cleanup stack = some r) : r.Upon P n stack := by
  obtain ⟨a, -, rfl⟩ := finish_eq_some h
  exact .same rfl

theorem upon_advance {poller : Poller} {p : Progress σ}
    (h : w.advance m poller k stack p = some r) : r.Upon P n stack := by
  cases advance_cases h with
  | goOn => exact .same rfl
  | act => exact .push [_] rfl rfl
  | finish _ h => exact upon_finish h
  | yield h | stall _ h | wait _ h => exact upon_suspend h

/-! ### Frames -/

theorem upon_proceed {e : Ending σ} {f : Frame σ} (he : ∀ x, e.error? = some x → P x)
    (hf : ∀ x, f.error? = some x → P x) (h : w.proceed m e stack f = some r) :
    r.Upon P n stack := by
  cases proceed_cases h with
  | resume | dropped | refused | acting | exited | cleanup | notified => exact .same rfl
  | pinning => exact .ended he
  | farewell | settle => exact .ended hf
  | notifies => exact .push [_] rfl rfl
  | owning h | rejects _ h => exact upon_release he h
  | changing h => exact upon_change h
  | entering h => exact upon_enter h
  | body h => exact upon_conclude he h
  | stores _ h => exact upon_store h

end World

/-! ### Steps and turns -/

namespace Run

/-- What has ended stands above `base`, so that the next step goes on with `base`. -/
def Back (r : Run σ) (base : List (Frame σ)) : Prop := (∃ e, r.control = .ended e) ∧ r.stack = base

theorem back_ended (w : World σ) (e : Ending σ) (base : List (Frame σ)) :
    Back ⟨w, .ended e, base⟩ base :=
  ⟨⟨e, rfl⟩, rfl⟩

theorem Back.eq (h : r.Back base) : ∃ w e, r = ⟨w, .ended e, base⟩ := by
  obtain ⟨w, control, stack⟩ := r
  obtain ⟨⟨e, rfl : control = _⟩, rfl : stack = _⟩ := h
  exact ⟨w, e, rfl⟩

/-- **A frame stays on the stack until what is above it has ended**, and an instance is placed above
it only if it is the newest one. -/
theorem above_step (h : r.step m = some r') {above : List (Frame σ)} (hs : r.stack = above ++ base)
    (hn : ¬ r.Back base) : ∃ above', r'.stack = above' ++ base ∧ ∀ f ∈ above', f ∈ above ∨
      ∀ i, f.places? = some i → i = r.world.instances.size := by
  -- whatever is below what is added was there before
  have added {rest : List (Frame σ)}
      (hu : r'.Upon (fun _ => True) r.world.instances.size (rest ++ base))
      (hrest : ∀ f ∈ rest, f ∈ above) : ∃ above', r'.stack = above' ++ base ∧ ∀ f ∈ above',
        f ∈ above ∨ ∀ i, f.places? = some i → i = r.world.instances.size := by
    obtain ⟨new, hnew, hplaces⟩ := hu.above
    refine ⟨new ++ rest, by rw [hnew, List.append_assoc], fun f hf => ?_⟩
    exact (List.mem_append.1 hf).symm.imp (hrest f) (hplaces f)
  obtain ⟨w, control, stack⟩ := r
  obtain rfl : stack = above ++ base := hs
  cases control with
  | code t c =>
    exact added (World.upon_perform (fun _ _ => trivial) (fun _ _ => trivial) h) fun _ => id
  | future poller k p => exact added (World.upon_advance h) fun _ => id
  | ended e =>
    cases above with
    | nil => exact absurd ⟨⟨e, rfl⟩, rfl⟩ hn
    | cons f above =>
      exact added (World.upon_proceed (fun _ _ => trivial) (fun _ _ => trivial) h)
        fun _ => List.mem_cons_of_mem _

/-- **An error has been on its way before**, or user code has raised it, or it is that of a
dangling transition. -/
theorem errors_step (h : r.step m = some r') {e : MachineError} (he : e ∈ r'.errors) :
    e ∈ r.errors ∨ m.Dangles e ∨ ∃ t, r.control = .code t (.raise e) := by
  obtain ⟨w, control, stack⟩ := r
  cases control with
  | code t c =>
    have hupon := World.upon_perform
      (P := fun e => m.Dangles e ∨ ∃ t', Control.code t c = .code t' (.raise e))
      (fun _ => .inl) (fun _ hx => .inr ⟨t, congrArg _ hx⟩) h
    exact (hupon.errors e he).symm
  | future poller k p =>
    have hupon := World.upon_advance (P := fun _ => False) (n := 0) h
    exact .inl ((hupon.errors e he).resolve_left id)
  | ended x =>
    cases stack with
    | nil => cases h
    | cons f stack =>
      have hupon := World.upon_proceed (n := 0)
        (P := fun e => x.error? = some e ∨ f.error? = some e) (fun _ => .inl) (fun _ => .inr) h
      refine .inl (List.mem_append.2 ?_)
      rcases hupon.errors e he with (hx | hf) | hs
      · exact .inl (Option.mem_toList.2 hx)
      · exact .inr (List.mem_filterMap.2 ⟨f, List.mem_cons_self, hf⟩)
      · obtain ⟨g, hg, hge⟩ := List.mem_filterMap.1 hs
        exact .inr (List.mem_filterMap.2 ⟨g, List.mem_cons_of_mem _ hg, hge⟩)

/-- Whoever takes a turn leaves the stack as it is, or adds to it. -/
theorem upon_turn (h : r.Turn r') : r'.Upon (fun _ => False) n r.stack := by
  cases h with
  | code c' | call c | handle c hk => exact .same rfl
  | @future w p k f stack f' => exact .same rfl
  | poll hj hp hs => exact .push [_] rfl rfl
  | @executor w e r h =>
    obtain ⟨t, task, p, rest, -, rfl⟩ := World.ofPoll?_eq_some h
    exact .same rfl

end Run

end Statechart
