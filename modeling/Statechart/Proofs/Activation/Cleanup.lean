import Mathlib.Logic.Relation
import Statechart.Proofs.Lifecycle.Balance

/-!
Cleanups stay with their owner. What an effect body hands back is held by its own activation, goes
over to the exit of this activation, and runs there when the signal has fired and the abort
observer has returned; if the exit has come first, it runs as soon as the body returns. A cleanup
that a future asks for has no part in this: it is dropped.
-/

namespace Statechart

variable {σ : Signature} {m : Machine σ} {ok : Run σ → Prop} {r r' : Run σ} {l : Life σ}
  {k : ActivationId}

/-! ### Signals that have fired -/

/-- The signal of an activation that is over has fired. -/
theorem Life.Balanced.aborted_mem (h : l.Balanced) {b : Tenure σ} (hk : l.activations k = some b)
    (hb : b.aborted = true) : .aborted k ∈ l.past := by
  have hlot : l.lot k = some (true, b.cleanup) := by
    rw [lot, hk, ← hb]
    rfl
  have hone : (l.past.filterMap Event.fires?).count k = 1 := by
    refine (h.fired k).trans ?_
    rw [hlot]
    rfl
  have hmem : k ∈ l.past.filterMap Event.fires? := List.count_pos_iff.1 (by omega)
  obtain ⟨e, he, hf⟩ := List.mem_filterMap.1 hmem
  cases e <;> cases hf
  exact he

/-- While an exit is under way, the signal of its activation has fired. -/
theorem Reach.aborted_of_exiting (h : Reach m ok r) {c : Option (Cleanup σ)}
    (hk : .exiting k c ∈ r.life.stages) : .aborted k ∈ r.life.past := by
  have hall : ∀ k c, .exiting k c ∈ r.life.stages → .aborted k ∈ r.life.past := by
    refine h.life_induction (P := fun l => ∀ k c, .exiting k c ∈ l.stages → .aborted k ∈ l.past)
      nofun fun r l _ _ ih hm k c hk => ?_
    rcases hm.stage hk with hold | hnew
    · exact hm.past.subset (ih k c hold)
    · exact hnew.exiting.1
  exact hall k c hk

/-! ### Where a cleanup comes from -/

/-- The run goes on from one moment to the next. -/
def Run.Next (m : Machine σ) (r r' : Run σ) : Prop := r.step m = some r' ∨ r.Turn r'

/-- The effect body of activation `k` has just handed back the cleanup `c`. -/
def Run.HandsBack (r : Run σ) (k : ActivationId) (c : Code σ) : Prop :=
  r.control = .ended (.ok (.cleanup c)) ∧ ∃ stack, r.stack = .body k :: stack

/-- At some moment on the way to this run, the effect body of activation `k` has handed back the
cleanup `c`. -/
def Run.HandedBack (m : Machine σ) (ok : Run σ → Prop) (r : Run σ) (k : ActivationId)
    (c : Code σ) : Prop :=
  ∃ r₀, Reach m ok r₀ ∧ r₀.HandsBack k c ∧ Relation.ReflTransGen (Run.Next m) r₀ r

theorem Run.HandedBack.next {c : Code σ} (h : r.HandedBack m ok k c) (hn : r.Next m r') :
    r'.HandedBack m ok k c := by
  obtain ⟨r₀, hr, hc, hpath⟩ := h
  exact ⟨r₀, hr, hc, hpath.tail hn⟩

/-- Every cleanup that is held, or that an exit has still to run, has been handed back by its
author, in the sense of `P`. -/
structure Life.Handed (P : ActivationId → Code σ → Prop) (l : Life σ) : Prop where
  held : ∀ k t c, l.activations k = some t → t.cleanup = some c → P c.author c.code
  due : ∀ k c, .exiting k (some c) ∈ l.stages → P c.author c.code

namespace Life.Handed

variable {P Q : ActivationId → Code σ → Prop}

theorem mono (h : l.Handed P) (hPQ : ∀ k c, P k c → Q k c) : l.Handed Q :=
  ⟨fun k t c hk ht => hPQ _ _ (h.held k t c hk ht), fun k c hk => hPQ _ _ (h.due k c hk)⟩

theorem move (h : r.life.Handed P) (hP : ∀ k c, r.HandsBack k c → P k c) (hm : Move m r l) :
    l.Handed P := by
  have held := h.held
  have due := h.due
  constructor
  · intro k t c hk ht
    cases hm
    case quiet => exact held k t c hk ht
    case keep j rest b s i code stack hst hr hsk _ _ _ _ =>
      have hgiven : P j code := hP j code ⟨hr, stack, hsk⟩
      clear hP hr hsk
      generalize r.life = l at *
      simp only [Life.note, Life.on, modifyActivation] at hk
      grind [Option.map_eq_some_iff]
    all_goals
      clear hP
      generalize r.life = l at *
      simp only [Life.note, Life.on, addInstance, modifyInstance, modifyActivation, Life.begin,
        Life.tearDown, addActivation] at hk
      grind [Option.map_eq_some_iff]
  · intro k c hk
    rcases hm.stage hk with hold | hnew
    · exact due k c hold
    · obtain ⟨-, b, hb, hc⟩ := hnew.exiting
      exact held k b c hb hc

end Life.Handed

theorem Reach.handed (h : Reach m ok r) : r.life.Handed (r.HandedBack m ok) := by
  induction h with
  | start c => exact ⟨nofun, nofun⟩
  | step hr hok hs ih =>
    refine (ih.mono fun k c hc => ?_).move (fun k c hc => ?_) (Run.move_step hs)
    · exact hc.next (.inl hs)
    · exact ⟨_, hr, hc, .single (.inl hs)⟩
  | turn hr ht ih =>
    rw [Run.life_turn ht]
    exact ih.mono fun k c hc => hc.next (.inr ht)

/-! ### The steps that run a cleanup -/

/-- Cleanups run in an exit and at the end of a body, and nowhere else. -/
theorem Move.runs (hm : Move m r l) (hk : l.tally Event.runs? k ≠ r.life.tally Event.runs? k) :
    (∃ e j wakers c stack, c.author = k ∧ r.control = .ended e ∧
      r.stack = .exiting j wakers (some c) :: stack) ∨
    ∃ b c stack, r.life.activations k = some b ∧ b.aborted = true ∧
      r.control = .ended (.ok (.cleanup c)) ∧ r.stack = .body k :: stack := by
  have ran {l : Life σ} {e : Event σ} (h : (l.note e).tally Event.runs? k ≠ l.tally Event.runs? k) :
      e.runs? = some k := by
    by_contra hne
    rw [Life.tally_note, if_neg hne] at h
    exact h rfl
  cases hm
  case depart d _ _ _ => cases d <;> exact absurd rfl hk
  case exit d _ _ _ _ => cases d <;> exact absurd rfl hk
  case cleanup j c rest e wakers stack hst hr hsk =>
    have hauthor : some c.author = some k := ran hk
    exact .inl ⟨e, j, wakers, c, stack, Option.some.inj hauthor, hr, hsk⟩
  case atOnce j rest b c stack hst hr hsk hj hb =>
    have hbody : some j = some k :=
      ran (l := (r.life.modifyActivation j .closed).note (.cleanupGiven j)) hk
    obtain rfl := Option.some.inj hbody
    exact .inr ⟨b, c, stack, hj, hb, hr, hsk⟩
  all_goals exact absurd rfl hk

namespace Run

variable {c : Code σ}

/-- How the cleanup `c` of activation `k` comes to run: its exit has got as far as the cleanup, or
its body hands back the cleanup when its exit has begun already. -/
inductive Runs (r : Run σ) (k : ActivationId) (c : Code σ) : Run σ → Prop
  | exit {e wakers stack w} (hc : r.control = .ended e)
      (hs : r.stack = .exiting k wakers (some ⟨k, c⟩) :: stack) :
      Runs r k c ⟨w, .code (.handle k) c, stack⟩
  | late {stack w} (hc : r.control = .ended (.ok (.cleanup c)))
      (hs : r.stack = .body k :: stack) :
      Runs r k c ⟨w, .code (.handle k) c, .settle .done :: stack⟩

end Run

namespace World

variable {w : World σ} {stack : List (Frame σ)}

/-- A future that asks for a cleanup is over, whatever the cleanup is. -/
theorem finish_cleanup {p : Poller} (h : r.world.finish p k true r.stack = some r') :
    r'.control = .ended .done ∧ r'.stack = r.stack ∧
      ∀ j, r'.cleanupsRun j = r.cleanupsRun j := by
  obtain ⟨a, -, rfl⟩ := finish_eq_some h
  refine ⟨rfl, rfl, fun j => ?_⟩
  cases p <;> rfl

theorem keepCleanup_late {a : Activation σ} (hk : w.activations.get? k = some a)
    (ha : a.signal.aborted = true) (c : Code σ) :
    w.keepCleanup k c stack =
      some ⟨(w.record (.cleanupGiven k)).record (.cleanupAtOnce k a.state), .code (.handle k) c,
        .settle .done :: stack⟩ := by
  simp [keepCleanup, hk, ha]

end World

namespace Reach

/-- What an exit has still to run belongs to the activation that is exited. -/
theorem author_of_exiting (h : Reach m ok r) (hd : r.displaced = false) {wakers : List Waker}
    {c : Cleanup σ} (hk : .exiting k wakers (some c) ∈ r.stack) :
    c.author = k ∧ .exiting k (some c) ∈ r.life.stages := by
  have hmem : .exiting k (some c) ∈ r.life.stages := (Run.mem_stages_iff (by rfl)).2 ⟨_, hk, rfl⟩
  have hb := h.balanced (Run.displaced_eq_false_iff.1 hd)
  exact ⟨hb.mine k c (List.mem_filterMap.2 ⟨_, hmem, rfl⟩), hmem⟩

/-- **A step that runs a cleanup of activation `k` runs it in the exit of `k`, or when its body
returns too late.** In either case the signal of `k` has fired, and the effect body of `k` has
handed back just this cleanup. -/
theorem cleanup_runs (h : Reach m ok r) (hd : r.displaced = false) (hs : r.step m = some r')
    (hk : r'.cleanupsRun k ≠ r.cleanupsRun k) :
    ∃ c, r.HandedBack m ok k c ∧ .aborted k ∈ r.world.journal ∧ r.Runs k c r' := by
  have hb := h.balanced (Run.displaced_eq_false_iff.1 hd)
  rw [← Run.cleanupsRun_life, ← Run.cleanupsRun_life] at hk
  rw [← Run.mem_past rfl]
  rcases (Run.move_step hs).runs hk with
    ⟨e, j, wakers, c, stack, rfl, hc, hst⟩ | ⟨b, c, stack, hkb, hab, hc, hst⟩
  · have htop : .exiting j wakers (some c) ∈ r.stack := hst ▸ List.mem_cons_self
    obtain ⟨rfl, hmem⟩ := h.author_of_exiting hd htop
    refine ⟨c.code, h.handed.due _ _ hmem, h.aborted_of_exiting hmem, ?_⟩
    simp only [Run.step, hc, hst, World.proceed, Option.some.injEq] at hs
    subst hs
    exact .exit hc hst
  · refine ⟨c, ⟨r, h, ⟨hc, stack, hst⟩, .refl⟩, hb.aborted_mem hkb hab, ?_⟩
    obtain ⟨a, ha, rfl⟩ := Option.map_eq_some_iff.1 hkb
    simp only [Run.step, hc, hst, World.proceed, World.conclude] at hs
    rw [World.keepCleanup_late (a := { a with windowOpen := false })] at hs
    · obtain rfl := Option.some.inj hs
      exact .late hc hst
    · simp [World.closeWindow, World.modifyActivation, Roster.get?_modify, ha]
    · exact hab

/-- **Cleanups stay with their owner.** Of the cleanups that the effect of an activation hands back,
of which there is at most one, each is run at most once. What an activation holds, and what its
exit has still to run, its own effect body has handed back. A step that runs a cleanup of
activation `k` finds the signal of `k` fired, and is either the step of the exit of `k` that comes
when the abort observer has returned, or the one that ends the body of `k`. The cleanup that a
future asks for is not run, whoever polls it. -/
theorem cleanups_stay (h : Reach m ok r) (hd : r.displaced = false) :
    (∀ k, r.cleanupsRun k ≤ r.cleanupsGiven k ∧ r.cleanupsGiven k ≤ 1) ∧
    (∀ k a c, r.world.activations.get? k = some a → a.cleanup = some c →
      c.author = k ∧ r.HandedBack m ok k c.code) ∧
    (∀ k wakers c, .exiting k wakers (some c) ∈ r.stack →
      c.author = k ∧ r.HandedBack m ok k c.code) ∧
    (∀ r', r.step m = some r' → ∀ k, r'.cleanupsRun k ≠ r.cleanupsRun k →
      ∃ c, r.HandedBack m ok k c ∧ .aborted k ∈ r.world.journal ∧ r.Runs k c r') ∧
    ∀ p k c, r.control = .future p k (.ready (.resolvedWith c)) → ∀ r', r.step m = some r' →
      r'.control = .ended .done ∧ r'.stack = r.stack ∧ ∀ j, r'.cleanupsRun j = r.cleanupsRun j := by
  have hb := h.balanced (Run.displaced_eq_false_iff.1 hd)
  refine ⟨fun k => ?_, fun k a c hk hc => ?_, fun k wakers c hk => ?_,
    fun r' hs k => h.cleanup_runs hd hs, fun p k c hc r' hs => ?_⟩
  · rw [← r.cleanupsRun_life, ← r.cleanupsGiven_life]
    have hbalance := hb.balance k
    exact ⟨by omega, hb.once k⟩
  · have hk' : r.life.activations k = some a.tenure := World.life_activations hk
    have hlot : r.life.lot k = some (a.signal.aborted, some c) := by
      rw [Life.lot, hk', ← hc]
      rfl
    obtain ⟨rfl, -⟩ := hb.own k _ c hlot
    exact ⟨rfl, h.handed.held _ _ c hk' hc⟩
  · obtain ⟨rfl, hmem⟩ := h.author_of_exiting hd hk
    exact ⟨rfl, h.handed.due _ c hmem⟩
  · simp only [Run.step, hc, World.advance] at hs
    exact World.finish_cleanup hs

end Reach

namespace Lamp

/-- The moment at which the lamp, which has been dropped, comes to its cleanup. -/
def goingOut : Run sig :=
  (Run.ofCode lit.world (.drop "lamp" fun _ => .finish .done)).steps machine 1

theorem reach_goingOut : Reach machine (fun _ => True) goingOut := by
  have hlit : Reach machine (fun _ => True) lit := (Reach.start _).steps fun _ _ => trivial
  exact (hlit.turn (over_lit.turn_call _)).steps fun _ _ => trivial

end Lamp

/-- The cleanup of the lamp runs in the exit that its drop causes. -/
theorem lamp_cleanup : ∃ r' c, Lamp.goingOut.step Lamp.machine = some r' ∧
    Lamp.goingOut.cleanupsRun 1 = 0 ∧ r'.cleanupsRun 1 = 1 ∧
    Lamp.goingOut.HandedBack Lamp.machine (fun _ => True) 1 c ∧ Lamp.goingOut.Runs 1 c r' := by
  have hd : Lamp.goingOut.displaced = false := by decide +kernel
  obtain ⟨r', hs⟩ : ∃ r', Lamp.goingOut.step Lamp.machine = some r' := ⟨_, rfl⟩
  have hrun : (Lamp.goingOut.step Lamp.machine).map (fun r => r.cleanupsRun 1) = some 1 := by
    decide +kernel
  have hafter : r'.cleanupsRun 1 = 1 := by simpa [hs] using hrun
  have hbefore : Lamp.goingOut.cleanupsRun 1 = 0 := by decide +kernel
  obtain ⟨-, -, -, hruns, -⟩ := Lamp.reach_goingOut.cleanups_stay hd
  obtain ⟨c, hgiven, -, hc⟩ := hruns r' hs 1 (by omega)
  exact ⟨r', c, hs, hbefore, hafter, hgiven, hc⟩

end Statechart
