import Statechart.Proofs.Activation.Rejection
import Statechart.Proofs.Loop.Agreement
import Statechart.Proofs.Run.Journal
import Statechart.Proofs.Transition.Declared
import Statechart.Proofs.Transition.Entries

/-!
The first entry of a new instance, and what its placement answers. A run that is over has come back
to everything that was on its stack, so that the answer is handed on from frame to frame: it is
what the entry has ended with, whatever the placement has given up besides.
-/

namespace Statechart

variable {σ : Signature} {m : Machine σ} {ok : Run σ → Prop} {w : World σ} {r : Run σ}
  {above base stack : List (Frame σ)} {i : InstanceId} {slot : String} {s : σ.State}
  {x : σ.Context} {n : Nat}

/-! ### Runs that come back -/

namespace Run

/-- **A run that is over has come back to what was on its stack.** -/
theorem comes_back (hs : r.stack = above ++ base) (hb : base ≠ []) (hn : (r.steps m n).Over) :
    ∃ j < n, ∃ w e, r.steps m j = ⟨w, .ended e, base⟩ := by
  have hrunning {r : Run σ} {above : List (Frame σ)} (hs : r.stack = above ++ base) :
      ¬ r.Over := by
    intro ho
    obtain ⟨-, -, hnil⟩ := over_iff.1 ho
    rw [hs] at hnil
    exact hb (List.append_eq_nil_iff.1 hnil).2
  induction n generalizing r above with
  | zero => exact absurd hn (hrunning hs)
  | succ n ih =>
    by_cases hback : r.Back base
    · obtain ⟨w, e, rfl⟩ := hback.eq
      exact ⟨0, Nat.succ_pos n, w, e, rfl⟩
    · cases hstep : r.step m with
      | none =>
        rw [steps_of_none hstep] at hn
        exact absurd hn (hrunning hs)
      | some r' =>
        obtain ⟨above', hs', -⟩ := above_step hstep hs hback
        rw [steps_succ hstep] at hn
        obtain ⟨j, hj, w, e, heq⟩ := ih hs' hn
        exact ⟨j + 1, Nat.succ_lt_succ hj, w, e, by rw [steps_succ hstep, heq]⟩

/-- An error that is on its way has been on its way before, or belongs to a dangling transition, or
has been raised meanwhile. -/
theorem errors_steps {e : MachineError} (he : e ∈ (r.steps m n).errors) :
    e ∈ r.errors ∨ m.Dangles e ∨ ∃ j < n, (r.steps m j).raised? = some e := by
  induction n with
  | zero => exact .inl he
  | succ n ih =>
    have before (h : e ∈ (r.steps m n).errors) :
        e ∈ r.errors ∨ m.Dangles e ∨ ∃ j < n + 1, (r.steps m j).raised? = some e := by
      rcases ih h with hold | hd | ⟨j, hj, hraised⟩
      · exact .inl hold
      · exact .inr (.inl hd)
      · exact .inr (.inr ⟨j, Nat.lt_succ_of_lt hj, hraised⟩)
    rw [steps_add] at he
    cases hstep : (r.steps m n).step m with
    | none =>
      rw [steps_of_none hstep] at he
      exact before he
    | some r' =>
      rw [steps_succ hstep] at he
      rcases errors_step hstep he with hold | hd | ⟨t, hc⟩
      · exact before hold
      · exact .inr (.inl hd)
      · exact .inr (.inr ⟨n, Nat.lt_succ_self n, by rw [raised?, hc]⟩)

end Run

namespace World

/-- A release hands on the ending that it was given. -/
theorem release_returns {e : Ending σ} (h : w.release i e stack = some r)
    (hn : (r.steps m n).Over) : ∃ w', r.Leads m ⟨w', .ended e, stack⟩ := by
  cases release_cases h with
  | shared => exact ⟨w, .refl _⟩
  | last _ h =>
    obtain ⟨above, habove⟩ := (upon_exit (P := fun _ => False) (n := i) h).suffix
    obtain ⟨j, -, w', e', heq⟩ := Run.comes_back habove.symm (List.cons_ne_nil _ _) hn
    have hl : r.Leads m ⟨w', .ended e', .farewell i e :: stack⟩ := ⟨j, heq⟩
    exact ⟨w', hl.trans (.step rfl (.refl _))⟩

theorem store_returns (h : w.store slot i stack = some r) (hn : (r.steps m n).Over) :
    ∃ w', r.Leads m ⟨w', .ended .done, stack⟩ := by
  cases store_cases h with
  | empty => exact ⟨_, .refl _⟩
  | replaces _ h => exact release_returns h hn

/-- A placement answers what its first entry has ended with. -/
theorem placing_answers {e e' : Ending σ}
    (hn : (Run.steps m n ⟨w, .ended e, [.placing i slot, .resume .bare .ofReply]⟩).ending? =
      some e') : e'.reply = e.reply := by
  have hover : (Run.steps m n ⟨w, .ended e, [.placing i slot, .resume .bare .ofReply]⟩).Over :=
    ⟨e', hn⟩
  -- once the frame has gone on, its ending is that of the entry, or stands for it
  suffices ∃ w₁ e₁, Run.Leads m ⟨w, .ended e, [.placing i slot, .resume .bare .ofReply]⟩
      ⟨w₁, .ended e₁, [.resume .bare .ofReply]⟩ ∧ e₁.reply = e.reply by
    obtain ⟨w₁, e₁, hl, he₁⟩ := this
    obtain ⟨e₂, hl₂, he₂⟩ := w₁.answer_leads (m := m) e₁
    rw [(hl.trans hl₂).eq_of_over ⟨e₂, rfl⟩ hover] at hn
    obtain rfl : e₂ = e' := Option.some.inj hn
    exact he₂.trans he₁
  cases hstep : Run.step m ⟨w, .ended e, [.placing i slot, .resume .bare .ofReply]⟩ with
  | none =>
    rw [Run.steps_of_none hstep] at hover
    exact absurd hover Run.not_over_of_cons
  | some r =>
    cases n with
    | zero => exact absurd hover Run.not_over_of_cons
    | succ n =>
      rw [Run.steps_succ hstep] at hover
      cases e with
      | ok o =>
        obtain ⟨w₁, hl⟩ := store_returns hstep hover
        exact ⟨w₁, .done, .step hstep hl, rfl⟩
      | error e =>
        obtain ⟨w₁, hl⟩ := release_returns hstep hover
        exact ⟨w₁, .error e, .step hstep hl, rfl⟩

/-! ### First entries -/

/-- The first entry of an instance that is placed next, for a call from outside. -/
def entry (w : World σ) (slot : String) (s : σ.State) (x : σ.Context) : Run σ :=
  ⟨w.placed s x, .ended .done, [.entering w.instances.size .initial none,
    .placing w.instances.size slot, .resume .bare .ofReply]⟩

theorem start_eq_entry (hd : m.config.contains s = true) :
    w.start m .bare slot s x .ofReply [] = w.entry slot s x := by
  rw [start, if_pos hd]
  rfl

/-- **A placement fails only with its first entry**, by an error that code has raised on the way, or
with which a dispatch has found a dangling transition. -/
theorem entry_fails {y : MachineError}
    (hn : ((w.entry slot s x).steps m n).ending? = some (.error y)) :
    ∃ j < n, (∃ w', (w.entry slot s x).steps m j = ⟨w', .ended (.error y),
        [.placing w.instances.size slot, .resume .bare .ofReply]⟩) ∧
      (m.Dangles y ∨ ∃ k < j, ((w.entry slot s x).steps m k).raised? = some y) := by
  have hstack : (w.entry slot s x).stack = [.entering w.instances.size .initial none] ++
      [.placing w.instances.size slot, .resume .bare .ofReply] := rfl
  obtain ⟨j, hj, w', e, heq⟩ := Run.comes_back hstack (List.cons_ne_nil _ _) ⟨_, hn⟩
  -- what is left hands on the ending
  obtain ⟨d, rfl⟩ := Nat.exists_eq_add_of_lt hj
  rw [Nat.add_assoc, Run.steps_add, heq] at hn
  have hreply : Except.error y = e.reply := placing_answers hn
  cases e with
  | ok o => cases hreply
  | error e =>
    obtain rfl := Except.error.inj hreply
    refine ⟨j, hj, ⟨w', heq⟩, ?_⟩
    have hmem : y ∈ ((w.entry slot s x).steps m j).errors := by
      rw [heq]
      exact List.mem_append_left _ List.mem_cons_self
    refine (Run.errors_steps hmem).resolve_left ?_
    simp [Run.errors, entry, Control.error?, Ending.error?, errorsOf, Frame.error?]

/-! ### Visits -/

theorem visits_placed (w : World σ) (s : σ.State) (x : σ.Context) (i : InstanceId) :
    (w.placed s x).visits i = w.visits i := by
  rw [placed, visits_record]
  simp [Event.visit?]
  rfl

end World

/-- Entries that were made stay made. -/
theorem Run.visits_steps (r : Run σ) (n : Nat) (i : InstanceId) :
    ∃ later, (r.steps m n).world.visits i = r.world.visits i ++ later := by
  obtain ⟨new, hnew⟩ := r.journal_steps (m := m) n
  refine ⟨new.reverse.filterMap (Event.visit? i), ?_⟩
  rw [World.visits, World.history, hnew, List.reverse_append, List.filterMap_append]
  rfl

/-- The first thing that becomes of a new instance is the entry into its state. -/
theorem World.entry_visits (hw : w.visits w.instances.size = []) (hn : 0 < n) :
    ∃ later, ((w.entry slot s x).steps m n).world.visits w.instances.size =
      ⟨s, .initial, none⟩ :: later := by
  obtain ⟨n, rfl⟩ := Nat.exists_eq_succ_of_ne_zero (Nat.ne_of_gt hn)
  have hi : (w.placed s x).instances.get? w.instances.size =
      some ⟨⟨s, []⟩, ⟨x, []⟩, none⟩ := by
    simp only [placed, record, Roster.get?_push, if_true]
  obtain ⟨r, henter, hvisits, -⟩ := enter_visits (m := m) hi .initial none
    [.placing w.instances.size slot, .resume .bare .ofReply]
  have hstep : (w.entry slot s x).step m = some r := henter
  obtain ⟨later, hlater⟩ := r.visits_steps (m := m) n w.instances.size
  refine ⟨later, ?_⟩
  rw [Run.steps_succ hstep, hlater, hvisits, visits_placed, hw]
  rfl

/-- **Only the first entry is initial**, once no entry is still to be made. -/
theorem Reach.later_visits (h : Reach m ok r) (ho : r.Over) {later : List (Visit σ)}
    (hv : r.world.visits i = ⟨s, .initial, none⟩ :: later) :
    ∀ v ∈ later, ∃ a, v.trigger = .action a := by
  have hmade : r.life.made i = later.reverse ++ [⟨s, .initial, none⟩] := by
    rw [← List.reverse_reverse (r.life.made i), ← r.visits_life, hv, List.reverse_cons]
  -- what has been entered has been placed
  have hplaced : i < r.life.placed := by
    by_contra hle
    obtain ⟨-, hnil⟩ := h.served.nothing (Nat.le_of_not_lt hle)
    rw [hmade] at hnil
    exact List.append_ne_nil_of_right_ne_nil _ (List.cons_ne_nil _ _) hnil
  obtain ⟨inst, hi⟩ := h.instance_placed hplaced
  obtain ⟨s', moves, -, hasked, hmoves⟩ := h.served.first i _ (World.life_instances hi)
  have hnone : r.life.awaited i = [] := by
    obtain ⟨-, -, hs⟩ := Run.over_iff.1 ho
    rw [r.awaited_life, hs]
    rfl
  have hperm := h.served.causes i
  rw [hasked, hnone, hmade, List.nil_append, List.map_append, List.map_append] at hperm
  have hcauses : (moves.map Visit.cause).Perm (later.reverse.map Visit.cause) :=
    (List.perm_append_right_iff [(Trigger.initial, none)]).1 hperm
  intro v hv
  have hmem : v.cause ∈ moves.map Visit.cause :=
    hcauses.mem_iff.2 (List.mem_map_of_mem (List.mem_reverse.2 hv))
  obtain ⟨u, hu, he⟩ := List.mem_map.1 hmem
  obtain ⟨a, ha⟩ := hmoves u hu
  exact ⟨a, (Prod.mk.inj he).1.symm.trans ha⟩

end Statechart
