import Statechart.Proofs.Activation.Discipline
import Statechart.Proofs.Lifecycle.Balance
import Statechart.Proofs.Run.Ownership

/-!
What is left of an instance that its last owner has let go. The release exits what is live then, and
whatever has been exited is finished with: its signal has fired, and its cleanup has been run. But a
transition that is under way at the release goes on to its entry, and what this starts stays live.
Where no instance is let go in transit, nothing is left of a released instance.
-/

namespace Statechart

variable {σ : Signature} {m : Machine σ} {ok : Run σ → Prop} {r r' : Run σ} {l : Life σ}
  {i : InstanceId} {k : ActivationId}

/-! ### Finished activations -/

/-- Whether the exit of activation `k` is under way. -/
def Run.leaves (r : Run σ) (k : ActivationId) : Bool :=
  r.stack.any fun
    | .exiting j _ _ => j = k
    | _ => false

/-- The signal of activation `k` has fired once, and each cleanup that its effect has handed back
has been run once. -/
structure Run.Finished (r : Run σ) (k : ActivationId) : Prop where
  aborted : r.aborts k = 1
  cleaned : r.cleanupsRun k = r.cleanupsGiven k

theorem Run.exiting_notMem (h : r.leaves k = false) (c : Option (Cleanup σ)) :
    .exiting k c ∉ r.life.stages := by
  intro hm
  obtain ⟨f, hf, hs⟩ := (mem_stages_iff (by rfl)).1 hm
  have hno := List.any_eq_false.1 h f hf
  cases f with
  | exiting j wakers c' =>
    cases hs
    simp at hno
  | acting p j next => cases p <;> cases hs
  | _ => cases hs

/-- An activation that is over, and of which no exit owes anything, is finished with. -/
theorem Life.Account.finished (h : r.life.Account k) {t : Tenure σ}
    (hk : r.life.activations k = some t) (ht : t.aborted = true) (hd : r.life.due k = 0) :
    r.Finished k := by
  have hfired := h.fired
  have hbalance := h.balance
  have hlot : r.life.lot k = some (true, t.cleanup) := by
    rw [lot, hk, ← ht]
    rfl
  have hheld : r.life.held k = 0 := by
    unfold held
    rw [hlot]
    cases hc : t.cleanup with
    | none => rfl
    | some c => cases (h.own k true c (hc ▸ hlot) (.inl rfl)).2.2
  rw [r.aborts_life, hlot] at hfired
  rw [r.cleanupsGiven_life, r.cleanupsRun_life, hd, hheld] at hbalance
  exact ⟨hfired, hbalance.symm⟩

/-- **An activation is finished with once its exit is over**, that is, unless it is live. -/
theorem Reach.finished_iff (h : Reach m ok r) (hd : r.displaced = false) {a : Activation σ}
    (hk : r.world.activations.get? k = some a) {inst : Instance σ}
    (hi : r.world.instances.get? a.owner = some inst) (hx : r.leaves k = false) :
    r.Finished k ↔ inst.active ≠ some k := by
  have hintact := Run.displaced_eq_false_iff.1 hd
  have hb := h.balanced hintact
  have hk' : r.life.activations k = some a.tenure := World.life_activations hk
  have hi' : r.life.instances a.owner = some inst.standing := World.life_instances hi
  constructor
  · intro hs ha
    obtain ⟨t, ht, -, hlive⟩ := h.sound.active a.owner _ k hi' ha
    have hfired := hb.fired k
    rw [r.aborts_life, hs.aborted, Life.lot, ht, Option.map_some, Option.any_some, Tenure.lot,
      hlive] at hfired
    cases hfired
  · intro hne
    have hab : a.signal.aborted = true := by
      by_contra hlive
      exact hne ((h.lawful hintact).live k _ _ hk' (by simpa using hlive) hi')
    refine (hb.account k).finished hk' hab (List.count_eq_zero.2 fun hm => ?_)
    obtain ⟨⟨j, c⟩, he, hc⟩ := List.mem_filterMap.1 hm
    obtain ⟨c, rfl, hauthor⟩ := Option.map_eq_some_iff.1 hc
    obtain rfl : j = k := (hb.mine j c he).symm.trans hauthor
    exact Run.exiting_notMem hx _ (Life.mem_exits.1 he)

/-! ### The live activation of a released instance -/

theorem Run.released_iff : r.released i = true ↔ i ∈ r.world.gone := by
  simp only [released, World.gone, List.any_eq_true, List.mem_filterMap]
  constructor
  · rintro ⟨e, he, hi⟩
    cases e <;> simp at hi
    exact ⟨_, he, congrArg some hi⟩
  · rintro ⟨e, he, hi⟩
    cases e <;> cases hi
    exact ⟨_, he, by simp⟩

theorem Run.released_mem : r.released i = true ↔ .released i ∈ r.life.past := by
  rw [mem_past rfl, released_iff, World.gone, List.mem_filterMap]
  constructor
  · rintro ⟨e, he, hi⟩
    cases e <;> cases hi
    exact he
  · exact fun he => ⟨_, he, rfl⟩

/-- The first part of a departure that lets go is reported by its event. -/
theorem Departure.eq_release {j : InstanceId} {d : Departure σ} (h : .released i = d.event j) :
    d = .release ∧ j = i := by
  cases d with
  | transition => cases h
  | release =>
    cases h
    exact ⟨rfl, rfl⟩

/-- An instance that is let go has no live activation then, and is on its way to no other entry than
before. -/
theorem Move.released (hm : Move m r l) (hi : .released i ∈ l.past) :
    .released i ∈ r.life.past ∨ (∃ s, r.life.instances i = some s) ∧
      (∀ s, l.instances i = some s → s.active = none) ∧
      ∀ g ∈ l.stages, g.enters? = some i → g ∈ r.life.stages := by
  cases hm
  case quiet => exact .inl hi
  case depart j s d hj ha _ =>
    refine (List.mem_cons.1 hi).elim (fun e => .inr ?_) .inl
    obtain ⟨rfl, rfl⟩ := Departure.eq_release e
    refine ⟨⟨s, hj⟩, fun u hu => ?_, fun g hg he => ?_⟩
    · obtain rfl := Option.some.inj (hj.symm.trans hu)
      exact ha
    · exact (List.mem_cons.1 hg).resolve_left (by rintro rfl; cases he)
  case exit j s k b d hj ha hk _ =>
    have hi := (List.mem_cons.1 ((List.mem_cons.1 hi).resolve_left nofun)).resolve_left nofun
    refine (List.mem_cons.1 hi).elim (fun e => .inr ?_) .inl
    obtain ⟨rfl, rfl⟩ := Departure.eq_release e
    refine ⟨⟨s, hj⟩, fun u hu => ?_, fun g hg he => ?_⟩
    · obtain ⟨v, -, rfl⟩ := Life.modifyInstance_eq_some.1 hu
      rw [if_pos rfl]
    · have hg := (List.mem_cons.1 hg).resolve_left (by rintro rfl; cases he)
      exact (List.mem_cons.1 hg).resolve_left (by rintro rfl; cases he)
  all_goals
    generalize r.life = l at *
    simp only [Life.note, Life.on, Life.addInstance, Life.modifyInstance, Life.modifyActivation,
      Life.begin, Life.addActivation] at hi
    grind

/-- The live activation of an instance after an entry is the new one, or has been live before. -/
theorem Life.active_begin {j : InstanceId} {st : σ.State} (tr : Trigger σ.Action)
    (p : Option σ.Payload) {s : Standing σ} (hi : (l.begin j st tr p).instances i = some s)
    (ha : s.active = some k) :
    (∃ s₀, l.instances i = some s₀ ∧ s₀.active = some k) ∨ i = j ∧ k = l.started := by
  obtain ⟨u, hu, rfl⟩ := modifyInstance_eq_some.1 hi
  split at ha
  · next e => exact .inr ⟨e, (Option.some.inj ha).symm⟩
  · exact .inl ⟨u, hu, ha⟩

/-- An activation that is live has been live before, or has just been started. -/
theorem Move.active (hm : Move m r l) {s : Standing σ} (hi : l.instances i = some s)
    (ha : s.active = some k) :
    (∃ s₀, r.life.instances i = some s₀ ∧ s₀.active = some k) ∨
    ∃ st tr p rest older, r.life.stages = .entering i tr p :: rest ∧
      l.past = .started i k st tr p :: older := by
  cases hm
  case quiet => exact .inl ⟨s, hi, ha⟩
  case enter j tr p rest s₀ c hst hj he hvac =>
    rcases Life.active_begin tr p hi ha with h | ⟨rfl, rfl⟩
    · exact .inl h
    · exact .inr ⟨_, tr, p, rest, _, hst, rfl⟩
  case displace j tr p rest s₀ c k' hst hj he hlost =>
    rcases Life.active_begin tr p hi ha with h | ⟨rfl, rfl⟩
    · exact .inl h
    · exact .inr ⟨_, tr, p, rest, _, hst, rfl⟩
  all_goals
    left
    generalize r.life = l at *
    simp only [Life.note, Life.on, Life.addInstance, Life.modifyInstance, Life.modifyActivation,
      Life.tearDown] at hi
    grind [Option.map_eq_some_iff]

/-- What is live for a released instance was started after the release. -/
def Life.Belated (l : Life σ) : Prop :=
  ∀ i s k, .released i ∈ l.past → l.instances i = some s → s.active = some k →
    ∃ st tr p older, .started i k st tr p :: older <:+ l.past ∧ .released i ∈ older

theorem Life.Belated.move (h : r.life.Belated) (hm : Move m r l) : l.Belated := by
  intro i s k hr hi ha
  rcases hm.active hi ha with ⟨s₀, hi₀, ha₀⟩ | ⟨st, tr, p, -, older, -, hpast⟩
  · rcases hm.released hr with hr | ⟨-, hvac, -⟩
    · obtain ⟨st, tr, p, older, hs, hmem⟩ := h i s₀ k hr hi₀ ha₀
      exact ⟨st, tr, p, older, hs.trans hm.past, hmem⟩
    · rw [hvac s hi] at ha
      cases ha
  · refine ⟨st, tr, p, older, ⟨[], hpast.symm⟩, ?_⟩
    rw [hpast] at hr
    exact (List.mem_cons.1 hr).resolve_left nofun

theorem Reach.belated (h : Reach m ok r) : r.life.Belated :=
  h.life_induction nofun fun _ _ _ _ ih => ih.move

/-! ### Instances that are let go at rest -/

/-- Whether what happens next does not let go of an instance in transit. -/
def Run.patient (m : Machine σ) (r : Run σ) : Bool :=
  (r.step m).all fun r' => r'.world.gone.all fun i => r.released i || !r.inTransit i

/-- Nothing is left of the instance: it has no owner and no live activation, and no transition of
it comes to an entry. -/
structure Run.Vacated (r : Run σ) (i : InstanceId) : Prop where
  placed : i < r.life.placed
  unowned : r.owned i = false
  vacant : ∀ s, r.life.instances i = some s → s.active = none
  still : ∀ g ∈ r.life.stages, g.enters? ≠ some i

namespace Run.Vacated

/-- Nobody may ask a vacated instance for a transition. -/
theorem not_admits (h : r.Vacated i) (hl : r.life.LiveAt i) {s : Standing σ}
    (hi : r.life.instances i = some s) (caller : Caller) : ¬ r.Admits i caller := by
  intro hc
  cases caller with
  | owner =>
    obtain ⟨t, slot, a, p, next, -, hslot⟩ := hc
    have := h.unowned
    rw [Run.owned, owned_of_slot hslot] at this
    cases this
  | handle k =>
    have := h.vacant s hi
    rw [hl.active_of_admits hi hc] at this
    cases this

theorem still_departed (h : r.Vacated i) (hl : r.life.LiveAt i) {j : InstanceId} {s : Standing σ}
    (hj : r.life.instances j = some s) {d : Departure σ} (hd : d.Due m r j) :
    (d.stage j).enters? ≠ some i := by
  cases d with
  | release => nofun
  | transition caller _ _ _ _ =>
    intro e
    obtain rfl := Option.some.inj e
    exact h.not_admits hl hj caller hd.2.2.2

theorem vacant_move (h : r.Vacated i) (hm : Move m r l) {s : Standing σ}
    (hi : l.instances i = some s) : s.active = none := by
  by_contra hne
  obtain ⟨k, hk⟩ := Option.ne_none_iff_exists'.1 hne
  rcases hm.active hi hk with ⟨s₀, hi₀, ha₀⟩ | ⟨-, tr, p, rest, -, hst, -⟩
  · rw [h.vacant s₀ hi₀] at ha₀
    cases ha₀
  · exact h.still _ (hst ▸ List.mem_cons_self) rfl

theorem still_move (h : r.Vacated i) (hl : r.life.LiveAt i) (hm : Move m r l) {g : Stage σ}
    (hg : g ∈ l.stages) : g.enters? ≠ some i := by
  rcases hm.stage hg with hold | hnew
  · exact h.still g hold
  · cases hnew with
    | entry hg | exits hg _ _ =>
      rw [hg]
      nofun
    | placed hg =>
      rw [hg]
      exact fun e => Nat.ne_of_gt h.placed (Option.some.inj e)
    | written hg hst =>
      rw [hg]
      exact h.still (.changing ..) (hst ▸ List.mem_cons_self)
    | departs hg hj hd _ =>
      rw [hg]
      exact h.still_departed hl hj hd

theorem step (h : r.Vacated i) (hl : r.life.LiveAt i) (hs : r.step m = some r') : r'.Vacated i := by
  have hm := Run.move_step hs
  refine ⟨Nat.lt_of_lt_of_le h.placed hm.placed_le, ?_, fun _ => h.vacant_move hm,
    fun _ => h.still_move hl hm⟩
  by_contra ho
  rcases (Run.step_cedes hs).owned i (by simpa using ho) with ho | hnew
  · rw [h.unowned] at ho
    cases ho
  · exact Nat.ne_of_lt h.placed hnew.1

theorem turn (h : r.Vacated i) (ht : r.Turn r') : r'.Vacated i := by
  have hlife := Run.life_turn ht
  exact ⟨hlife ▸ h.placed, (Run.owned_turn ht i).trans h.unowned, hlife ▸ h.vacant,
    hlife ▸ h.still⟩

/-- An instance that is let go while it is not in transit is vacated. -/
theorem of_release (hc : r.life.Counted) (hp : r.patient m = true) (hs : r.step m = some r')
    (hi : r'.released i = true) (hn : r.released i = false) : r'.Vacated i := by
  have hmove := Run.move_step hs
  have hgone := Run.released_iff.1 hi
  have hrest : r.inTransit i = false := by
    simp only [Run.patient, hs, Option.all_some, List.all_eq_true] at hp
    simpa [hn] using hp i hgone
  obtain ⟨⟨s, hplaced⟩, vacant, still⟩ : _ ∧ _ ∧ _ := by
    refine (hmove.released (Run.released_mem.1 hi)).resolve_left fun hr => ?_
    rw [Run.released_mem.2 hr] at hn
    cases hn
  refine ⟨?_, ?_, vacant, fun g hg he => ?_⟩
  · refine Nat.lt_of_lt_of_le ((hc.placed i).1 ?_) hmove.placed_le
    rw [hplaced]
    rfl
  · rcases (Run.step_cedes hs).gone with heq | ⟨j, heq, ho⟩
    · rw [heq] at hgone
      rw [Run.released_iff.2 hgone] at hn
      cases hn
    · rw [heq] at hgone
      rcases List.mem_cons.1 hgone with rfl | hgone
      · exact ho
      · rw [Run.released_iff.2 hgone] at hn
        cases hn
  · rw [Run.inTransit_iff.2 ⟨g, still g hg he, Stage.transit?_of_enters? he⟩] at hrest
    cases hrest

end Run.Vacated

/-- **Nothing is left of an instance that was let go**, if no instance is let go in transit. -/
theorem Reach.vacated (h : Reach m ok r) (hd : r.life.Intact)
    (hp : ∀ r, ok r → r.patient m = true) (hi : r.released i = true) : r.Vacated i := by
  induction h with
  | start c => cases hi
  | @step r r' hr hok hs ih =>
    have hbefore := hd.before (Run.move_step hs)
    cases hn : r.released i with
    | true => exact (ih hbefore hn).step ((hr.lawful hbefore).liveAt i) hs
    | false => exact .of_release hr.sound.toCounted (hp r hok) hs hi hn
  | turn hr ht ih =>
    have hlife := Run.life_turn ht
    rw [Run.released_mem, hlife, ← Run.released_mem] at hi
    exact (ih (hlife ▸ hd) hi).turn ht

/-- **What becomes of the activations of an instance that was let go.** Each is finished with once
its exit is over, unless it is live; and what is live has been started after the release. If no
instance is let go in transit, none is live, so that all of them are finished with. -/
theorem Reach.released_finished (h : Reach m ok r) (hd : r.displaced = false)
    (hr : r.released i = true) :
    (∀ k a inst, r.world.activations.get? k = some a → a.owner = i →
      r.world.instances.get? i = some inst → r.leaves k = false →
      (r.Finished k ↔ inst.active ≠ some k)) ∧
    (∀ inst k, r.world.instances.get? i = some inst → inst.active = some k →
      ∃ s tr p older, .started i k s tr p :: older <:+ r.world.journal ∧ .released i ∈ older) ∧
    ((∀ r, ok r → r.patient m = true) → ∀ k a, r.world.activations.get? k = some a →
      a.owner = i → r.leaves k = false → r.Finished k) := by
  refine ⟨fun k a inst hk ho hi hx => ?_, fun inst k hi ha => ?_, fun hp k a hk ho hx => ?_⟩
  · subst ho
    exact h.finished_iff hd hk hi hx
  · have hi' : r.life.instances i = some inst.standing := World.life_instances hi
    obtain ⟨s, tr, p, older, hsuf, hmem⟩ :=
      h.belated i inst.standing k (Run.released_mem.1 hr) hi' ha
    obtain ⟨before, hbefore, rfl⟩ := Run.suffix_past hsuf
    exact ⟨s, tr, p, before, hbefore, (List.mem_filter.1 hmem).1⟩
  · subst ho
    obtain ⟨inst, hi⟩ := h.owner_placed hk
    refine (h.finished_iff hd hk hi hx).2 fun ha => ?_
    have hvac := (h.vacated (Run.displaced_eq_false_iff.1 hd) hp hr).vacant inst.standing
      (World.life_instances hi)
    rw [show inst.active = none from hvac] at ha
    cases ha

/-- The lamp, after it has been dropped. -/
def Lamp.dropped : Run Lamp.sig :=
  (Run.ofCode Lamp.lit.world (.drop "lamp" fun _ => .finish .done)).steps Lamp.machine 7

/-- The lamp has been dropped at rest, so that both its activations are finished with. -/
theorem lamp_dropped : Lamp.dropped.Finished 0 ∧ Lamp.dropped.Finished 1 := by
  have hlit : Reach Lamp.machine (fun r => r.patient Lamp.machine = true) Lamp.lit :=
    (Reach.start _).steps (by decide +kernel)
  have hdrop : Reach Lamp.machine (fun r => r.patient Lamp.machine = true) Lamp.dropped :=
    (hlit.turn (Lamp.over_lit.turn_call _)).steps (by decide +kernel)
  have hintact : Lamp.dropped.displaced = false := by decide +kernel
  have hgone : Lamp.dropped.released 0 = true := by decide +kernel
  obtain ⟨-, -, hall⟩ := hdrop.released_finished hintact hgone
  exact ⟨hall (fun _ => id) 0 _ rfl rfl (by decide +kernel),
    hall (fun _ => id) 1 _ rfl rfl (by decide +kernel)⟩

namespace Lamp

/-- A lamp that is dropped by the abort observer of its first state, and that owes a cleanup in its
second one. -/
def leaky : Machine sig where
  config := ⟨.ofPairs
    [(false, {
        transitions := .ofPairs [((), true)]
        effect := some (.onAbort (.drop "lamp" fun _ => .finish .done) (.finish .done)) }),
      (true, { effect := some (.finish (.cleanup (.finish .done))) })]⟩
  initialState := false
  initialContext := (0 : Nat)
  spawner := none
  declared := by decide

def leakyPlaced : Run sig := placement.steps leaky 8

theorem over_leakyPlaced : leakyPlaced.Over := Option.isSome_iff_exists.1 (by decide +kernel)

/-- A dispatch through the handle of the first state, with all that comes of it. -/
def leaked : Run sig :=
  (Run.onHandle leakyPlaced.world 0 (.dispatch () none .ofReply)).steps leaky 14

/-- **A released instance may leave an activation behind.** The lamp is dropped in the exit that a
dispatch through a handle causes. The release finds nothing live, and the transition goes on to
its entry; when everything has returned, no one owns the lamp, and the activation of its second
state is neither aborted nor cleaned up. -/
theorem leaks : Reach leaky (fun _ => True) leaked ∧ leaked.Over ∧ leaked.displaced = false ∧
    leaked.released 0 = true ∧ leaked.owned 0 = false ∧ leaked.aborts 1 = 0 ∧
    leaked.cleanupsGiven 1 = 1 ∧ leaked.cleanupsRun 1 = 0 := by
  have hplaced : Reach leaky (fun _ => True) leakyPlaced := (Reach.start _).steps fun _ _ => trivial
  have hcall := over_leakyPlaced.turn_handle (k := 0) (by decide +kernel)
    (.dispatch () none .ofReply)
  have hover : leaked.Over := Option.isSome_iff_exists.1 (by decide +kernel)
  exact ⟨(hplaced.turn hcall).steps fun _ _ => trivial, hover, by decide +kernel⟩

end Lamp

end Statechart
