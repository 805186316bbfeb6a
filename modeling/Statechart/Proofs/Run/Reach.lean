import Statechart.Run
import Mathlib.Tactic.Common

/-!
The runs that occur. A machine leaves open what user code does and when it is called; `Run.Turn`
collects these choices, and `Reach` closes the empty world under turns and steps. User code may
remember more than its tree tells, so a turn may put any other code, or any other future, in the
place of the one that is about to go on. It may also poll a task while it runs, in any order.
-/

namespace Statechart

variable {σ : Signature} {m : Machine σ}

/-! ### Counted steps -/

namespace Run

def Over (r : Run σ) : Prop := ∃ e, r.ending? = some e

theorem over_iff {r : Run σ} : r.Over ↔ ∃ e, r.control = .ended e ∧ r.stack = [] := by
  obtain ⟨w, control, stack⟩ := r
  unfold Over ending?
  cases control <;> cases stack <;> simp

theorem ending_of_not_over {r : Run σ} (h : ¬ r.Over) : r.ending? = none := by
  cases he : r.ending? with
  | none => rfl
  | some e => exact absurd ⟨e, he⟩ h

theorem step_of_over {r : Run σ} (h : r.Over) : r.step m = none := by
  obtain ⟨e, hc, hs⟩ := over_iff.1 h
  simp [step, hc, hs]

theorem steps_of_none {r : Run σ} (h : r.step m = none) (n : Nat) : r.steps m n = r := by
  cases n <;> simp [steps, h]

theorem steps_of_over {r : Run σ} (h : r.Over) (n : Nat) : r.steps m n = r :=
  steps_of_none (step_of_over h) n

theorem steps_succ {r r' : Run σ} (h : r.step m = some r') (n : Nat) :
    r.steps m (n + 1) = r'.steps m n := by
  simp [steps, h]

theorem steps_add (r : Run σ) (a b : Nat) : r.steps m (a + b) = (r.steps m a).steps m b := by
  induction a generalizing r with
  | zero => simp [steps]
  | succ a ih =>
    rw [Nat.succ_add]
    cases h : r.step m with
    | some r' => rw [steps_succ h, steps_succ h, ih]
    | none => simp only [steps_of_none h]

end Run

/-! ### Turns -/

/-- Whether a frame belongs to a poll of task `j` by the executor. -/
def Frame.polls (j : TaskId) : Frame σ → Bool
  | .acting (.executor t) _ _ => j = t
  | _ => false

/-- The world in which task `j` is no longer queued. -/
def World.unqueue (w : World σ) (j : TaskId) : World σ := { w with ready := w.ready.erase j }

/-- What is left open by a machine: how user code goes on, and what is called when nothing runs. -/
inductive Run.Turn : Run σ → Run σ → Prop
  | code {w t c stack} (c') : Turn ⟨w, .code t c, stack⟩ ⟨w, .code t c', stack⟩
  | future {w p k f stack} (f') : Turn ⟨w, .future p k f, stack⟩ ⟨w, .future p k f', stack⟩
  /-- Code polls a task that is not being polled. -/
  | poll {w t c stack j task p} (hj : w.tasks.get? j = some task) (hp : task.progress = some p)
      (hs : stack.any (Frame.polls j) = false) :
      Turn ⟨w, .code t c, stack⟩
        ⟨(w.unqueue j).record (.polled task.activation),
          .future (.executor j) task.activation p, .resume t (fun _ => c) :: stack⟩
  /-- Code that works on nothing is called. -/
  | call {w e} (c) : Turn ⟨w, .ended e, []⟩ (.ofCode w c)
  | handle {w e k} (c) (hk : k < w.activations.size) : Turn ⟨w, .ended e, []⟩ (.onHandle w k c)
  /-- The executor polls the first ready task. -/
  | executor {w e r} (h : Run.ofPoll? w = some r) : Turn ⟨w, .ended e, []⟩ r

/-- The executor polls the first task in the queue that is not finished. -/
theorem World.ofPoll?_eq_some {w : World σ} {r : Run σ} (h : Run.ofPoll? w = some r) :
    ∃ t, ∃ task : Task σ, ∃ p rest, (w.tasks.get? t = some task ∧ task.progress = some p ∧
        w.ready.dropWhile w.finished = t :: rest) ∧
      r = ⟨{ w with ready := rest }.record (.polled task.activation),
        .future (.executor t) task.activation p, []⟩ := by
  unfold Run.ofPoll? nextTask? at h
  split at h
  · cases h
  · next t task _ heq =>
    split at heq
    · cases heq
    · next rest hdrop =>
      obtain ⟨_, ht, ⟨⟩⟩ := Option.map_eq_some_iff.1 heq
      obtain ⟨p, hp, rfl⟩ := Option.map_eq_some_iff.1 h
      exact ⟨t, task, p, rest, ⟨ht, hp, hdrop⟩, rfl⟩

/-- When a run is over, code may be called on any handle. -/
theorem Run.Over.turn_handle {r : Run σ} (h : r.Over) {k : ActivationId}
    (hk : k < r.world.activations.size) (c : Code σ) : r.Turn (.onHandle r.world k c) := by
  obtain ⟨e, hc, hs⟩ := over_iff.1 h
  obtain ⟨w, control, stack⟩ := r
  subst hc hs
  exact .handle c hk

/-- When a run is over, code that works on nothing may be called. -/
theorem Run.Over.turn_call {r : Run σ} (h : r.Over) (c : Code σ) : r.Turn (.ofCode r.world c) := by
  obtain ⟨e, hc, hs⟩ := over_iff.1 h
  obtain ⟨w, control, stack⟩ := r
  subst hc hs
  exact .call c

/-- When a run is over, the executor may poll the first ready task. -/
theorem Run.Over.turn_poll {r r' : Run σ} (h : r.Over) (hp : Run.ofPoll? r.world = some r') :
    r.Turn r' := by
  obtain ⟨e, hc, hs⟩ := over_iff.1 h
  obtain ⟨w, control, stack⟩ := r
  subst hc hs
  exact .executor hp

/-! ### Reachable runs -/

/-- **The runs that occur**, as long as every step is made from a run that `ok` admits. -/
inductive Reach (m : Machine σ) (ok : Run σ → Prop) : Run σ → Prop
  | start (c : Code σ) : Reach m ok (.ofCode {} c)
  | step {r r' : Run σ} (h : Reach m ok r) (hr : ok r) (hs : r.step m = some r') : Reach m ok r'
  | turn {r r' : Run σ} (h : Reach m ok r) (ht : r.Turn r') : Reach m ok r'

namespace Reach

variable {ok : Run σ → Prop} {r : Run σ}

theorem mono {ok' : Run σ → Prop} (h : Reach m ok r) (hok : ∀ r, ok r → ok' r) :
    Reach m ok' r := by
  induction h with
  | start c => exact .start c
  | step _ hr hs ih => exact ih.step (hok _ hr) hs
  | turn _ ht ih => exact ih.turn ht

/-- A run reaches whatever it comes to in counted steps. -/
theorem steps (h : Reach m ok r) {n : Nat} (hok : ∀ a < n, ok (r.steps m a)) :
    Reach m ok (r.steps m n) := by
  induction n generalizing r with
  | zero => exact h
  | succ n ih =>
    cases hs : r.step m with
    | none => simpa [Run.steps, hs] using h
    | some r' =>
      rw [Run.steps_succ hs]
      refine ih (h.step (hok 0 (Nat.succ_pos n)) hs) fun a ha => ?_
      have := hok (a + 1) (Nat.succ_lt_succ ha)
      rwa [Run.steps_succ hs] at this

end Reach

/-! ### A lamp -/

namespace Lamp

/-- What a lamp is built over; it counts in its context. -/
def sig : Signature where
  State := Bool
  Action := Unit
  stateName s := if s then "on" else "off"
  actionName _ := "press"
  stateText s := if s then "On" else "Off"
  actionText _ := "Press"
  Context := Nat
  Payload := Unit
  Note := Unit

/-- A lamp that presses its own switch once it is placed, and again when it goes out. -/
def machine : Machine sig where
  config := ⟨.ofPairs
    [(false, {
        transitions := .ofPairs [((), true)]
        effect := some (.setContext (1 : Nat) (.dispatch () none .ofReply)) }),
      (true, {
        transitions := .ofPairs [((), false)]
        effect := some (.setContext (2 : Nat)
          (.finish (.cleanup (.dispatch () none .ofReply)))) })]⟩
  initialState := false
  initialContext := (0 : Nat)
  spawner := none
  declared := by decide

/-- The placement of a lamp. -/
def placement : Run sig := .ofCode {} (.place "lamp" .fresh .ofReply)

def lit : Run sig := placement.steps machine 22

theorem over_lit : lit.Over := Option.isSome_iff_exists.1 (by decide +kernel)

end Lamp

end Statechart
