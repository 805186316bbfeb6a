import Statechart.Proofs.Activation.Handle

/-!
The handles of an activation serve one transition. As long as no activation has lost its place, a
handle that is not aborted belongs to the activation that the next exit takes, so that the
transition it asks for ends it; from the moment the exit begins, it is good for warnings only.
-/

namespace Statechart

variable {σ : Signature} {m : Machine σ} {ok : Run σ → Prop} {r : Run σ} {k : ActivationId}

/-- How many transitions were asked for through the handles of activation `k`. -/
def Run.moves (r : Run σ) (k : ActivationId) : Nat :=
  (r.world.journal.filterMap Event.mover?).count k

theorem Run.filterMap_mover (r : Run σ) :
    r.life.past.filterMap Event.mover? = r.world.journal.filterMap Event.mover? :=
  Run.filterMap_past fun e he => by cases e <;> first | rfl | cases he

/-- **A handle moves its instance on at most once, and is spent once the exit has begun.** Whoever
holds it, and whenever it is used: a dispatch and a context write that come later are answered as
if they had succeeded, are logged as one warning, and leave everything else as it is. -/
theorem Reach.handle_spent (h : Reach m ok r) (hd : r.displaced = false) (k : ActivationId) :
    r.moves k ≤ 1 ∧
    (r.exited k = true → ∀ t : Target σ, t.activation? = some k →
      (∀ a p next, r.control = .code t (.dispatch a p next) →
        ∃ e : Event σ, e.Warns ∧
          r.step m = some ⟨r.world.record e, .code t (next (some (.ok ()))), r.stack⟩) ∧
      (∀ c next, r.control = .code t (.setContext c next) →
        ∃ e : Event σ, e.Warns ∧
          r.step m = some ⟨r.world.record e, .code t next, r.stack⟩)) := by
  have hl := h.lawful (Run.displaced_eq_false_iff.1 hd)
  constructor
  · unfold Run.moves
    rw [← r.filterMap_mover]
    exact List.nodup_iff_count.1 hl.nodup k
  · intro hk t ht
    obtain ⟨a, ha, hb⟩ := h.aborted_of_exited hk
    constructor
    · intro act p next hc
      refine ⟨.dispatchExpired k a.state act, ⟨_, rfl, rfl⟩, ?_⟩
      simp only [Run.step, hc]
      exact World.forward_expired ht ha hb act p next
    · intro c next hc
      refine ⟨.contextExpired k a.state, ⟨_, rfl, rfl⟩, ?_⟩
      simp only [Run.step, hc]
      exact World.setContext_expired ht ha hb c next

/-- A handle of the activation that has moved the lamp on is good for a warning only. -/
theorem lamp_handle_spent :
    (Run.onHandle Lamp.lit.world 0 (.dispatch () none .ofReply)).moves 0 ≤ 1 ∧
    ∃ e : Event Lamp.sig, e.Warns ∧
      (Run.onHandle Lamp.lit.world 0 (.dispatch () none .ofReply)).step Lamp.machine =
        some (.onHandle (Lamp.lit.world.record e) 0 (.ofReply (some (.ok ())))) := by
  have h : Reach Lamp.machine (fun _ => True) Lamp.lit := (Reach.start _).steps fun _ _ => trivial
  have ht := Lamp.over_lit.turn_handle (k := 0) (by decide +kernel) (.dispatch () none .ofReply)
  obtain ⟨hm, hs⟩ := (h.turn ht).handle_spent (by decide +kernel) 0
  exact ⟨hm, (hs (by decide +kernel) (.handle 0) rfl).1 _ _ _ rfl⟩

end Statechart
