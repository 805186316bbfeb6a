import Statechart.Proofs.Run.Reach

/-!
Paths from a run to the later ones. On the way, user code does what it likes, as it does before: a
path is made of the same steps and turns as the runs that occur.
-/

namespace Statechart

variable {σ : Signature} {m : Machine σ} {ok ok' : Run σ → Prop} {r₀ r r' : Run σ}

/-- What a run comes to, as long as every step is made from a run that `ok` admits. -/
inductive Run.Path (m : Machine σ) (ok : Run σ → Prop) (r₀ : Run σ) : Run σ → Prop
  | refl : Path m ok r₀ r₀
  | step {r r' : Run σ} (h : Path m ok r₀ r) (hr : ok r) (hs : r.step m = some r') : Path m ok r₀ r'
  | turn {r r' : Run σ} (h : Path m ok r₀ r) (ht : r.Turn r') : Path m ok r₀ r'

/-- What a run that occurs comes to occurs as well. -/
theorem Reach.path (h : Reach m ok r₀) (hp : r₀.Path m ok r) : Reach m ok r := by
  induction hp with
  | refl => exact h
  | step _ hr hs ih => exact ih.step hr hs
  | turn _ ht ih => exact ih.turn ht

namespace Run.Path

theorem mono (h : r₀.Path m ok r) (hok : ∀ r, ok r → ok' r) : r₀.Path m ok' r := by
  induction h with
  | refl => exact .refl
  | step _ hr hs ih => exact ih.step (hok _ hr) hs
  | turn _ ht ih => exact ih.turn ht

theorem trans (h : r₀.Path m ok r) (h' : r.Path m ok r') : r₀.Path m ok r' := by
  induction h' with
  | refl => exact h
  | step _ hr hs ih => exact ih.step hr hs
  | turn _ ht ih => exact ih.turn ht

/-- A run comes to whatever it comes to in counted steps. -/
theorem steps (h : r₀.Path m ok r) {n : Nat} (hok : ∀ a < n, ok (r.steps m a)) :
    r₀.Path m ok (r.steps m n) := by
  induction n generalizing r with
  | zero => exact h
  | succ n ih =>
    cases hs : r.step m with
    | none => simpa [Run.steps, hs] using h
    | some r' =>
      rw [Run.steps_succ hs]
      refine ih (h.step (hok 0 (Nat.succ_pos n)) hs) fun a ha => ?_
      have := hok (a + 1) (Nat.succ_lt_succ ha)
      rwa [Run.steps_succ hs] at this

end Run.Path

/-! ### Runs with what has led to them -/

/-- **The runs that occur, each with the runs from which a step was made on the way to it**, the
latest first. -/
inductive Trail (m : Machine σ) (ok : Run σ → Prop) : List (Run σ) → Run σ → Prop
  | start (c : Code σ) : Trail m ok [] (.ofCode {} c)
  | step {past : List (Run σ)} {r r' : Run σ} (h : Trail m ok past r) (hr : ok r)
      (hs : r.step m = some r') : Trail m ok (r :: past) r'
  | turn {past : List (Run σ)} {r r' : Run σ} (h : Trail m ok past r) (ht : r.Turn r') :
      Trail m ok past r'

theorem Trail.reach (h : Trail m ok past r) : Reach m ok r := by
  induction h with
  | start c => exact .start c
  | step _ hr hs ih => exact ih.step hr hs
  | turn _ ht ih => exact ih.turn ht

/-- The runs from which counted steps are made. -/
theorem Trail.counted {past : List (Run σ)} (h : Trail m ok past r) (n : Nat)
    (hok : ∀ a < n, ok (r.steps m a)) (hs : ∀ a < n, ((r.steps m a).step m).isSome = true) :
    Trail m ok (((List.range n).map fun a => r.steps m a).reverse ++ past) (r.steps m n) := by
  induction n with
  | zero => exact h
  | succ n ih =>
    have hlast := ih (fun a ha => hok a (Nat.lt_succ_of_lt ha)) fun a ha =>
      hs a (Nat.lt_succ_of_lt ha)
    obtain ⟨r', hr'⟩ := Option.isSome_iff_exists.1 (hs n (Nat.lt_succ_self n))
    have hnext : r.steps m (n + 1) = r' := by
      rw [Run.steps_add, Run.steps_succ hr']
      rfl
    rw [List.range_succ, List.map_append, List.reverse_append, hnext]
    exact hlast.step (hok n (Nat.lt_succ_self n)) hr'

theorem Reach.trail (h : Reach m ok r) : ∃ past, Trail m ok past r := by
  induction h with
  | start c => exact ⟨[], .start c⟩
  | step _ hr hs ih =>
    obtain ⟨past, hpast⟩ := ih
    exact ⟨_, hpast.step hr hs⟩
  | turn _ ht ih =>
    obtain ⟨past, hpast⟩ := ih
    exact ⟨past, hpast.turn ht⟩

end Statechart
