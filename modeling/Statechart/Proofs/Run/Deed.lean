import Statechart.Proofs.Run.Reach
import Mathlib.Logic.Relation

/-!
Courses of a machine that is worked on from outside: one deed after another, each of them begun when
the one before it has returned. In between, every step is the machine's own, so that two machines
may be compared deed by deed.
-/

namespace Statechart

variable {σ : Signature}

/-- What is done from outside when nothing runs. -/
inductive Deed (σ : Signature) where
  /-- Code that works on nothing is called. -/
  | call (c : Code σ)
  /-- Code is called on a handle of activation `k`. -/
  | handle (k : ActivationId) (c : Code σ)
  /-- The executor polls the first ready task. -/
  | tick
  /-- A task is polled, in whatever order. -/
  | poll (t : TaskId)

namespace Deed

/-- Whether the executor is run. -/
def polls : Deed σ → Bool
  | tick | poll _ => true
  | _ => false

/-- The run of a deed in a world, if the handle or the task is there. -/
def start? (w : World σ) : Deed σ → Option (Run σ)
  | call c => some (.ofCode w c)
  | handle k c => if k < w.activations.size then some (.onHandle w k c) else none
  | tick => Run.ofPoll? w
  | poll t => do
    let task ← w.tasks.get? t
    let p ← task.progress
    return ⟨(w.unqueue t).record (.polled task.activation),
      .future (.executor t) task.activation p, [.resume .bare fun _ => .finish .done]⟩

end Deed

/-- **The runs that come of deeds**, one after another on the empty world. The list before the run
holds those from which a step was made, the latest first. -/
inductive Course (m : Machine σ) : List (Deed σ) → List (Run σ) → Run σ → Prop
  | start (c : Code σ) : Course m [.call c] [] (.ofCode {} c)
  | step {ds : List (Deed σ)} {past : List (Run σ)} {r r' : Run σ} (h : Course m ds past r)
      (hs : r.step m = some r') : Course m ds (r :: past) r'
  | next {ds : List (Deed σ)} {past : List (Run σ)} {r r' : Run σ} (h : Course m ds past r)
      (hr : r.Over) (d : Deed σ) (hd : d.start? r.world = some r') : Course m (ds ++ [d]) past r'

variable {m : Machine σ} {ds : List (Deed σ)} {past : List (Run σ)} {r r' : Run σ}

/-- A deed begins in turns, after what was done before is over. -/
theorem Run.Over.turns (hr : r.Over) {d : Deed σ} (hd : d.start? r.world = some r') :
    Relation.TransGen Run.Turn r r' := by
  cases d with
  | call c =>
    obtain rfl := Option.some.inj hd
    exact .single (hr.turn_call c)
  | handle k c =>
    obtain ⟨hk, hd⟩ := Option.ite_none_right_eq_some.1 hd
    obtain rfl := Option.some.inj hd
    exact .single (hr.turn_handle hk c)
  | tick => exact .single (hr.turn_poll hd)
  | poll t =>
    simp only [Deed.start?, Option.bind_eq_bind, Option.bind_eq_some_iff] at hd
    obtain ⟨task, ht, p, hp, hd⟩ := hd
    obtain rfl := Option.some.inj hd
    -- code that ends at once makes room for the poll
    exact .tail (.single (hr.turn_call (.finish .done))) (.poll ht hp rfl)

/-- What comes of deeds occurs. -/
theorem Course.reach (h : Course m ds past r) : Reach m (fun _ => True) r := by
  induction h with
  | start c => exact .start c
  | step _ hs ih => exact ih.step trivial hs
  | next _ hr d hd ih =>
    have hturns := hr.turns hd
    clear hd
    induction hturns with
    | single ht => exact ih.turn ht
    | tail _ ht ih => exact ih.turn ht

/-- A course goes on for as long as its last deed does. -/
theorem Course.steps (h : Course m ds past r) (n : Nat) :
    ∃ past', Course m ds past' (r.steps m n) ∧
      ∀ s ∈ past', s ∈ past ∨ ∃ a < n, s = r.steps m a := by
  induction n generalizing past r with
  | zero => exact ⟨past, h, fun _ => .inl⟩
  | succ n ih =>
    cases hs : r.step m with
    | none => exact ⟨past, by rwa [Run.steps_of_none hs], fun _ => .inl⟩
    | some r' =>
      rw [Run.steps_succ hs]
      obtain ⟨past', h', hpast⟩ := ih (h.step hs)
      refine ⟨past', h', fun s hmem => ?_⟩
      rcases hpast s hmem with hmem | ⟨a, ha, rfl⟩
      · rcases List.mem_cons.1 hmem with rfl | hmem
        · exact .inr ⟨0, Nat.succ_pos n, rfl⟩
        · exact .inl hmem
      · exact .inr ⟨a + 1, Nat.succ_lt_succ ha, (Run.steps_succ hs a).symm⟩

end Statechart
