import Statechart.Proofs.Run.Inversion

/-!
The owners of an instance: the slots that hold it and the operations that have a share in it. A
step makes an owner of an instance only if the instance is new, or has an owner already; so what has
been let go stays without one, and is let go only once.
-/

namespace Statechart

variable {σ : Signature} {m : Machine σ} {w w' : World σ} {stack : List (Frame σ)} {r r' : Run σ}
  {i : InstanceId} {k : ActivationId}

/-! ### Owners -/

theorem any_slot_iff : w.slots.entries.any (·.2 = i) = true ↔
    ∃ slot, w.slots.get? slot = some i := by
  simp only [List.any_eq_true, Table.get?_eq_some_iff, decide_eq_true_eq]
  constructor
  · rintro ⟨⟨slot, j⟩, hm, rfl⟩
    exact ⟨slot, hm⟩
  · rintro ⟨slot, hm⟩
    exact ⟨_, hm, rfl⟩

theorem owned_iff : owned w stack i = true ↔
    (∃ slot, w.slots.get? slot = some i) ∨ stack.any (Frame.owns i) = true := by
  rw [owned, Bool.or_eq_true, any_slot_iff]

theorem owned_of_slot {slot : String} (h : w.slots.get? slot = some i)
    (stack : List (Frame σ)) : owned w stack i = true :=
  owned_iff.2 (.inl ⟨slot, h⟩)

/-- What a slot holds is alive. -/
theorem alive_of_slot {slot : String} (h : w.slots.get? slot = some i) (stack : List (Frame σ)) :
    alive w stack i = true := by
  rw [alive, any_slot_iff.2 ⟨slot, h⟩, Bool.true_or]

/-- The instance that the last owner lets go. -/
def Event.released? : Event σ → Option InstanceId
  | released i => some i
  | _ => none

/-- The instances that were let go, the latest first. -/
def World.gone (w : World σ) : List InstanceId := w.journal.filterMap Event.released?

/-- Whether someone owns instance `i`. -/
def Run.owned (r : Run σ) (i : InstanceId) : Bool := Statechart.owned r.world r.stack i

/-! ### What leaves the owners alone -/

/-- The run has the owners of the world `w` over `stack`, and has let go what `w` has let go. -/
structure Run.Keeps (w : World σ) (stack : List (Frame σ)) (r : Run σ) : Prop where
  slots : r.world.slots = w.slots
  owners : ∀ j, r.stack.any (Frame.owns j) = stack.any (Frame.owns j)
  gone : r.world.gone = w.gone

theorem Run.Keeps.owned_eq (h : r.Keeps w stack) (j : InstanceId) :
    r.owned j = Statechart.owned w stack j := by
  rw [Run.owned, Statechart.owned, Statechart.owned, h.slots, h.owners]

namespace World

theorem slots_fireWaker (w : World σ) (x : Waker) :
    (w.fireWaker x).slots = w.slots ∧ (w.fireWaker x).gone = w.gone := by
  cases x with
  | idle => exact ⟨rfl, rfl⟩
  | task t =>
    change (w.wake t).slots = w.slots ∧ (w.wake t).gone = w.gone
    unfold wake
    split <;> exact ⟨rfl, rfl⟩

theorem slots_wakers (w : World σ) (xs : List Waker) :
    (xs.foldl fireWaker w).slots = w.slots ∧ (xs.foldl fireWaker w).gone = w.gone := by
  induction xs generalizing w with
  | nil => exact ⟨rfl, rfl⟩
  | cons x xs ih =>
    obtain ⟨hs, hg⟩ := w.slots_fireWaker x
    obtain ⟨hs', hg'⟩ := ih (w.fireWaker x)
    exact ⟨hs'.trans hs, hg'.trans hg⟩

theorem keeps_exit (h : w.exit i stack = some r) : r.Keeps w stack := by
  cases exit_cases h with
  | vacant => exact ⟨rfl, fun _ => rfl, rfl⟩
  | @active inst k a => cases a.signal.fired <;> exact ⟨rfl, fun _ => rfl, rfl⟩

/-- The last share in an instance is given up when no other is left. -/
theorem keeps_release {e : Ending σ} (h : w.release i e stack = some r) :
    r.Keeps w stack ∨ owned w stack i = false ∧ r.Keeps (w.record (.released i)) stack := by
  cases release_cases h with
  | shared => exact .inl ⟨rfl, fun _ => rfl, rfl⟩
  | last ho h =>
    have hexit := keeps_exit h
    exact .inr ⟨ho, hexit.slots, hexit.owners, hexit.gone⟩

theorem keeps_dispatch {caller : Caller} {a : σ.Action} {p : Option σ.Payload}
    (h : w.dispatch m i caller a p stack = some r) : r.Keeps w stack := by
  cases dispatch_cases h with
  | ignored | dangles => exact ⟨rfl, fun _ => rfl, rfl⟩
  | departs _ _ _ h =>
    have hexit := keeps_exit h
    exact ⟨hexit.slots, hexit.owners, hexit.gone⟩

theorem keeps_change {t : σ.State} {a : σ.Action} {p : Option σ.Payload}
    (h : w.change i t a p stack = some r) : r.Keeps w stack := by
  obtain ⟨inst, -, rfl⟩ := change_eq_some h
  exact ⟨rfl, fun _ => rfl, rfl⟩

theorem keeps_enter {tr : Trigger σ.Action} {p : Option σ.Payload}
    (h : w.enter m i tr p stack = some r) : r.Keeps w stack := by
  cases enter_cases h <;> exact ⟨rfl, fun _ => rfl, rfl⟩

theorem keeps_keepCleanup {c : Code σ} (h : w.keepCleanup k c stack = some r) :
    r.Keeps w stack := by
  cases keepCleanup_cases h <;> exact ⟨rfl, fun _ => rfl, rfl⟩

theorem keeps_conclude {e : Ending σ} (h : w.conclude k e stack = some r) : r.Keeps w stack := by
  cases conclude_cases h with
  | error | done | pending => exact ⟨rfl, fun _ => rfl, rfl⟩
  | cleanup h =>
    have hkeep := keeps_keepCleanup h
    exact ⟨hkeep.slots, hkeep.owners, hkeep.gone⟩

theorem keeps_setContext {t : Target σ} {c : σ.Context} {next : Code σ}
    (h : w.setContext t c next stack = some r) : r.Keeps w stack := by
  cases setContext_cases h <;> exact ⟨rfl, fun _ => rfl, rfl⟩

theorem keeps_forward {t : Target σ} {a : σ.Action} {p : Option σ.Payload} {next : Reply → Code σ}
    (h : w.forward m t a p next stack = some r) : r.Keeps w stack := by
  cases forward_cases h with
  | bare | expired | orphaned => exact ⟨rfl, fun _ => rfl, rfl⟩
  | dispatched _ _ _ _ h =>
    have hdispatch := keeps_dispatch h
    exact ⟨hdispatch.slots, hdispatch.owners, hdispatch.gone⟩

theorem keeps_onAbort (t : Target σ) (observer next : Code σ) :
    (w.onAbort t observer next stack).Keeps w stack := by
  unfold onAbort
  split
  · exact ⟨rfl, fun _ => rfl, rfl⟩
  · split <;> exact ⟨rfl, fun _ => rfl, rfl⟩

theorem keeps_unwatch (i : InstanceId) (id : SubscriptionId) :
    (w.unwatch i id).2.slots = w.slots ∧ (w.unwatch i id).2.gone = w.gone := by
  unfold unwatch
  split
  · exact ⟨rfl, rfl⟩
  · split
    · exact ⟨rfl, rfl⟩
    · split <;> exact ⟨rfl, rfl⟩

/-! ### Polls -/

theorem keeps_suspend {poller : Poller} {p : Progress σ} {last : Option (Code σ)}
    (h : w.suspend m poller k p last stack = some r) : r.Keeps w stack := by
  cases poller with
  | entry =>
    cases spawn_cases h with
    | missing _ _ h | dropped _ h => cases h <;> exact ⟨rfl, fun _ => rfl, rfl⟩
    | queued | polled => exact ⟨rfl, fun _ => rfl, rfl⟩
  | spawner | executor =>
    obtain rfl := Option.some.inj h
    exact ⟨rfl, fun _ => rfl, rfl⟩

theorem keeps_finish {poller : Poller} {cleanup : Bool}
    (h : w.finish poller k cleanup stack = some r) : r.Keeps w stack := by
  obtain ⟨a, -, rfl⟩ := finish_eq_some h
  cases poller <;> cases cleanup <;> exact ⟨rfl, fun _ => rfl, rfl⟩

/-- A future has no share in any instance. -/
theorem keeps_advance {poller : Poller} {p : Progress σ}
    (h : w.advance m poller k stack p = some r) : r.Keeps w stack := by
  cases advance_cases h with
  | goOn | act => exact ⟨rfl, fun _ => rfl, rfl⟩
  | finish _ h => exact keeps_finish h
  | stall _ h => exact keeps_suspend h
  | yield h =>
    obtain ⟨hs, hg⟩ := w.slots_fireWaker poller.waker
    have hsuspend := keeps_suspend h
    exact ⟨hsuspend.slots.trans hs, hsuspend.owners, hsuspend.gone.trans hg⟩
  | wait _ h =>
    have hsuspend := keeps_suspend h
    exact ⟨hsuspend.slots, hsuspend.owners, hsuspend.gone⟩

end World

/-! ### What a step does to the owners -/

/-- From the one run to the other, only a new instance gets an owner without having one, only its
placement puts an instance into a slot, and at most one instance is let go, which has no owner
then. -/
structure Run.Cedes (r r' : Run σ) : Prop where
  slots : ∀ s j, r'.world.slots.get? s = some j →
    r.world.slots.get? s = some j ∨
      ∃ e stack, r.control = .ended e ∧ r.stack = .placing j s :: stack
  owned : ∀ j, r'.owned j = true →
    r.owned j = true ∨ j = r.world.instances.size ∧ j < r'.world.instances.size
  gone : r'.world.gone = r.world.gone ∨ ∃ i, r'.world.gone = i :: r.world.gone ∧ r'.owned i = false

theorem Run.Keeps.cedes (h : r'.Keeps w stack) (hg : w.gone = r.world.gone)
    (hs : ∀ s j, w.slots.get? s = some j →
      r.world.slots.get? s = some j ∨
        ∃ e stack, r.control = .ended e ∧ r.stack = .placing j s :: stack)
    (ho : ∀ j, Statechart.owned w stack j = true → r.owned j = true) : r.Cedes r' :=
  ⟨fun s j hj => hs s j (h.slots ▸ hj), fun j hj => .inl (ho j ((h.owned_eq j).symm.trans hj)),
    .inl (h.gone.trans hg)⟩

namespace World

theorem release_cedes {e : Ending σ} (h : w.release i e stack = some r')
    (hg : w.gone = r.world.gone) (hs : ∀ s j, w.slots.get? s = some j →
      r.world.slots.get? s = some j ∨
        ∃ e stack, r.control = .ended e ∧ r.stack = .placing j s :: stack)
    (ho : ∀ j, owned w stack j = true → r.owned j = true) : r.Cedes r' := by
  rcases keeps_release h with hk | ⟨hi, hk⟩
  · exact hk.cedes hg hs ho
  · refine ⟨fun s j hj => hs s j (hk.slots ▸ hj),
      fun j hj => .inl (ho j ((hk.owned_eq j).symm.trans hj)), .inr ⟨i, ?_, ?_⟩⟩
    · exact hk.gone.trans (congrArg (i :: ·) hg)
    · exact (hk.owned_eq i).trans hi

/-- A share that a slot gives is one in an instance that is owned. -/
theorem owned_owning {slot : String} (hs : w.slots.get? slot = some i) {j : InstanceId}
    (hj : owned w (.owning i :: stack) j = true) : owned w stack j = true := by
  rcases owned_iff.1 hj with ⟨slot, h⟩ | h
  · exact owned_of_slot h stack
  · rw [List.any_cons, Bool.or_eq_true] at h
    rcases h with h | h
    · obtain rfl : j = i := by simpa [Frame.owns] using h
      exact owned_of_slot hs stack
    · exact owned_iff.2 (.inr h)

theorem start_cedes {t : Target σ} {code : Code σ} {slot : String} {s : σ.State} {c : σ.Context}
    {next : Reply → Code σ} (hs : w'.slots = w.slots) (hg : w'.gone = w.gone)
    (hi : w'.instances = w.instances) :
    Run.Cedes ⟨w, .code t code, stack⟩ (w'.start m t slot s c next stack) := by
  unfold start
  split
  · refine ⟨fun s j hj => .inl (hs ▸ hj), fun j hj => ?_, .inl hg⟩
    rcases owned_iff.1 hj with ⟨slot, h⟩ | h
    · exact .inl (owned_of_slot (hs ▸ h) stack)
    · rw [List.any_cons, List.any_cons, Bool.or_eq_true, Bool.or_eq_true] at h
      rcases h with h | h | h
      · cases h
      · have hj : j = w'.instances.size := by simpa [Frame.owns] using h
        refine .inr ⟨hi ▸ hj, ?_⟩
        exact hj.symm ▸ Nat.lt_succ_self _
      · exact .inl (owned_iff.2 (.inr h))
  · have hk : Run.Keeps w stack (w'.goOn t (next (some (.error (.unknownState (σ.stateName s)))))
        stack) := ⟨hs, fun _ => rfl, hg⟩
    exact hk.cedes rfl (fun _ _ => .inl) fun _ => id

theorem store_cedes {slot : String} {e : Ending σ} (h : w.store slot i stack = some r') :
    Run.Cedes ⟨w, .ended e, .placing i slot :: stack⟩ r' := by
  have hslot (j) (hj : owned { w with slots := w.slots.insert slot i } stack j = true) :
      owned w (.placing i slot :: stack) j = true := by
    rcases owned_iff.1 hj with ⟨name, h⟩ | h
    · rw [Table.get?_insert] at h
      split at h
      · obtain rfl := Option.some.inj h
        exact owned_iff.2 (.inr (by simp [Frame.owns]))
      · exact owned_of_slot h _
    · exact owned_iff.2 (.inr (by simp [h]))
  have hput (s j) (hj : (w.slots.insert slot i).get? s = some j) : w.slots.get? s = some j ∨
      ∃ e' rest, Control.ended e = .ended e' ∧
        Frame.placing i slot :: stack = .placing j s :: rest := by
    rw [Table.get?_insert] at hj
    split at hj
    · next e =>
      obtain rfl := Option.some.inj hj
      exact .inr ⟨_, stack, rfl, e ▸ rfl⟩
    · exact .inl hj
  cases store_cases h with
  | empty => exact ⟨hput, fun j hj => .inl (hslot j hj), .inl rfl⟩
  | replaces _ h => exact release_cedes h rfl hput hslot

/-- **An operation of user code makes no owner of what has none.** -/
theorem perform_cedes {t : Target σ} {c : Code σ} (h : w.perform m t stack c = some r') :
    Run.Cedes ⟨w, .code t c, stack⟩ r' := by
  have kept {r' : Run σ} (hk : r'.Keeps w stack) : Run.Cedes ⟨w, .code t c, stack⟩ r' :=
    hk.cedes rfl (fun _ _ => .inl) fun _ => id
  cases perform_cases h with
  | finish | raise | emit | idle | clearAbort | keep => exact kept ⟨rfl, fun _ => rfl, rfl⟩
  | stateUnwatched | watchState | contextUnwatched | watchContext | unknown =>
    exact kept ⟨rfl, fun _ => rfl, rfl⟩
  | within | unheld => exact kept ⟨rfl, fun _ => rfl, rfl⟩
  | setContext h => exact kept (keeps_setContext h)
  | dispatch h => exact kept (keeps_forward h)
  | onAbort observer next => exact kept (keeps_onAbort t observer next)
  | holding hi => exact ⟨fun _ _ => .inl, fun j hj => .inl (owned_owning hi hj), .inl rfl⟩
  | place =>
    unfold place
    split <;> exact start_cedes rfl rfl rfl
  | send hi h => exact (keeps_dispatch h).cedes rfl (fun _ _ => .inl) fun _ => owned_owning hi
  | @drop slot i next r' hi h =>
    have hput (s j) (hj : (w.slots.erase slot).get? s = some j) : w.slots.get? s = some j := by
      rw [Table.get?_erase] at hj
      split at hj
      · cases hj
      · exact hj
    refine release_cedes h rfl (fun s j hj => .inl (hput s j hj)) fun j hj => ?_
    rcases owned_iff.1 hj with ⟨name, h⟩ | h
    · exact owned_of_slot (hput name j h) stack
    · exact owned_iff.2 (.inr h)
  | @unwatch slot name i id hs hn next =>
    exact kept ⟨(keeps_unwatch i id).1, fun _ => rfl, (keeps_unwatch i id).2⟩

theorem proceed_cedes {e : Ending σ} {f : Frame σ} (h : w.proceed m e stack f = some r') :
    Run.Cedes ⟨w, .ended e, f :: stack⟩ r' := by
  have below (j) (hj : owned w stack j = true) : owned w (f :: stack) j = true := by
    rcases owned_iff.1 hj with ⟨slot, h⟩ | h
    · exact owned_of_slot h _
    · exact owned_iff.2 (.inr (by simp [h]))
  have kept {r' : Run σ} (hk : r'.Keeps w stack) : Run.Cedes ⟨w, .ended e, f :: stack⟩ r' :=
    hk.cedes rfl (fun _ _ => .inl) below
  cases proceed_cases h with
  | resume | pinning | farewell | settle | dropped | refused | acting | notified =>
    exact kept ⟨rfl, fun _ => rfl, rfl⟩
  | owning h | rejects _ h => exact release_cedes h rfl (fun _ _ => .inl) below
  | exited k wakers | cleanup k wakers =>
    obtain ⟨hs, hg⟩ := w.slots_wakers wakers
    exact kept ⟨hs, fun _ => rfl, hg⟩
  | changing h => exact kept (keeps_change h)
  | notifies n call calls => cases n <;> exact kept ⟨rfl, fun _ => rfl, rfl⟩
  | entering h => exact kept (keeps_enter h)
  | body h => exact kept (keeps_conclude h)
  | stores _ h => exact store_cedes h

end World

/-- **A step makes no owner of what has none**, lets go only what has none, and puts only what is
being placed into a slot. -/
theorem Run.step_cedes (h : r.step m = some r') : r.Cedes r' := by
  obtain ⟨w, control, stack⟩ := r
  cases control with
  | code t c => exact World.perform_cedes h
  | future poller k p => exact (World.keeps_advance h).cedes rfl (fun _ _ => .inl) fun _ => id
  | ended e =>
    cases stack with
    | nil => cases h
    | cons f stack => exact World.proceed_cedes h

theorem Run.slots_turn (h : r.Turn r') : r'.world.slots = r.world.slots := by
  cases h with
  | executor h =>
    obtain ⟨t, task, p, rest, -, rfl⟩ := World.ofPoll?_eq_some h
    rfl
  | _ => rfl

theorem Run.owned_turn (h : r.Turn r') (i : InstanceId) : r'.owned i = r.owned i := by
  have hstack : r'.stack.any (Frame.owns i) = r.stack.any (Frame.owns i) := by
    cases h with
    | executor h =>
      obtain ⟨t, task, p, rest, -, rfl⟩ := World.ofPoll?_eq_some h
      rfl
    | _ => rfl
  rw [owned, owned, Statechart.owned, Statechart.owned, slots_turn h, hstack]

end Statechart
