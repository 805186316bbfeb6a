import Statechart.Proofs.Lifecycle.Intact

/-!
What the operations through an activation do: a context write, and a dispatch. Both look at the
activation first. When it is over, or its window is closed, they leave the world as it is, apart
from one event that is logged as a warning. A dispatch that is not refused is carried out like one
by an owner of the instance.
-/

namespace Statechart

variable {σ : Signature} {m : Machine σ} {w : World σ} {t : Target σ} {k : ActivationId}
  {a : Activation σ} {stack : List (Frame σ)}

/-- An event that the log reports as a warning. -/
def Event.Warns (e : Event σ) : Prop := ∃ line, e.line? = some line ∧ line.level = .warn

namespace World

theorem view_eq (ht : t.activation? = some k) (hk : w.activations.get? k = some a)
    {inst : Instance σ} (hi : w.instances.get? a.owner = some inst) :
    w.view t = some ⟨a.state, inst.context.value, a.signal.aborted, a.windowOpen, t.entry?⟩ := by
  simp [view, ht, hk, hi]

theorem setContext_expired (ht : t.activation? = some k) (hk : w.activations.get? k = some a)
    (ha : a.signal.aborted = true) (c : σ.Context) (next : Code σ) :
    w.setContext t c next stack =
      some ⟨w.record (.contextExpired k a.state), .code t next, stack⟩ := by
  simp [setContext, ht, hk, ha, goOn]

theorem setContext_late (ht : t.activation? = some k) (hk : w.activations.get? k = some a)
    (ha : a.signal.aborted = false) (ho : a.windowOpen = false) (c : σ.Context) (next : Code σ) :
    w.setContext t c next stack =
      some ⟨w.record (.contextLate k a.state), .code t next, stack⟩ := by
  simp [setContext, ht, hk, ha, ho, goOn]

theorem setContext_open (ht : t.activation? = some k) (hk : w.activations.get? k = some a)
    (ha : a.signal.aborted = false) (ho : a.windowOpen = true) {inst : Instance σ}
    (hi : w.instances.get? a.owner = some inst) (c : σ.Context) (next : Code σ) :
    w.setContext t c next stack =
      some ⟨(w.record (.contextSet a.owner k c)).modifyInstance a.owner fun inst =>
          { inst with context := inst.context.write c }, .ended .done,
        .notifying (inst.context.observers.map fun o => (.context a.owner o.1 c, o.2 c)) ::
          .resume t (fun _ => next) :: stack⟩ := by
  simp [setContext, ht, hk, ha, ho, hi]

theorem forward_expired (ht : t.activation? = some k) (hk : w.activations.get? k = some a)
    (ha : a.signal.aborted = true) (act : σ.Action) (p : Option σ.Payload)
    (next : Reply → Code σ) :
    w.forward m t act p next stack =
      some ⟨w.record (.dispatchExpired k a.state act), .code t (next (some (.ok ()))), stack⟩ := by
  simp [forward, ht, hk, ha, goOn]

theorem forward_live (ht : t.activation? = some k) (hk : w.activations.get? k = some a)
    (ha : a.signal.aborted = false) (hl : alive w stack a.owner = true) (act : σ.Action)
    (p : Option σ.Payload) (next : Reply → Code σ) :
    w.forward m t act p next stack = w.dispatch m a.owner (.handle k) act p
      (.pinning a.owner :: .resume t next :: stack) := by
  simp [forward, ht, hk, ha, hl]

end World

/-! ### Dispatches that are carried out -/

namespace Run

variable {r : Run σ} {i : InstanceId} {act : σ.Action} {p : Option σ.Payload}
  {next : Reply → Code σ}

theorem step_send {slot : String} (hslot : r.world.slots.get? slot = some i)
    (hc : r.control = .code t (.send slot act p next)) :
    r.step m = r.world.dispatch m i .owner act p (.owning i :: .resume t next :: r.stack) := by
  simp only [step, hc, World.perform, hslot]

theorem step_dispatch (ht : t.activation? = some k) (hk : r.world.activations.get? k = some a)
    (ho : a.owner = i) (ha : a.signal.aborted = false) (hl : alive r.world r.stack i = true)
    (hc : r.control = .code t (.dispatch act p next)) :
    r.step m = r.world.dispatch m i (.handle k) act p
      (.pinning i :: .resume t next :: r.stack) := by
  subst ho
  simp only [step, hc, World.perform]
  exact World.forward_live ht hk ha hl act p next

end Run

end Statechart
