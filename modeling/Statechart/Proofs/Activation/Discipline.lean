import Statechart.Proofs.Lifecycle.Intact

/-!
One activation at a time. If no owner dispatches on an instance that is on its way from one state
to the next, then no entry finds a live activation: from the beginning of an exit until the next
entry nothing is live, so that no handle asks for a further transition. Outside of transitions the
live activation is the one that the latest entry has started for the current state.
-/

namespace Statechart

variable {σ : Signature} {m : Machine σ} {r r' : Run σ} {l : Life σ} {i : InstanceId}

/-! ### Instances in transit -/

/-- Whether a frame stands for a transition of instance `i` before its entry, or for the exit that
its last owner causes. -/
def Frame.transits (i : InstanceId) : Frame σ → Bool
  | .changing j _ _ _ => j = i
  | .entering j _ _ => j = i
  | .farewell j _ => j = i
  | _ => false

namespace Run

/-- Whether an exit of instance `i` is running, or its observers are told of the next state. -/
def inTransit (r : Run σ) (i : InstanceId) : Bool := r.stack.any (Frame.transits i)

/-- Whether what happens next is not a dispatch by an owner on an instance in transit. -/
def orderly (r : Run σ) : Bool :=
  match r.control with
  | .code _ (.send slot _ _ _) => (r.world.slots.get? slot).all fun i => !r.inTransit i
  | _ => true

theorem inTransit_eq_false_of_orderly (h : r.orderly = true) (hs : r.Sends i) :
    r.inTransit i = false := by
  obtain ⟨t, slot, a, p, next, hc, hi⟩ := hs
  simpa [orderly, hc, hi] using h

theorem inTransit_iff : r.inTransit i = true ↔ ∃ s ∈ r.life.stages, s.transit? = some i := by
  have hc (s) : r.control.stage? = some s → s.transit? ≠ some i := by
    unfold Control.stage?
    split
    · rintro ⟨⟩ ⟨⟩
    · rintro ⟨⟩
  have hf (f : Frame σ) : f.transits i = true ↔ ∃ s, f.stage? = some s ∧ s.transit? = some i := by
    cases f with
    | acting p k next => cases p <;> simp [Frame.transits, Frame.stage?, Stage.transit?]
    | _ => simp [Frame.transits, Frame.stage?, Stage.transit?]
  simp only [inTransit, List.any_eq_true, hf, life, World.life, stagesOf, List.mem_append,
    Option.mem_toList, List.mem_filterMap]
  grind

end Run

/-! ### The invariant -/

/-- The instance that a stage takes to its next entry. -/
def Stage.enters? : Stage σ → Option InstanceId
  | changing i _ _ _ => some i
  | entering i _ _ => some i
  | _ => none

theorem Stage.transit?_of_enters? {g : Stage σ} (h : g.enters? = some i) : g.transit? = some i := by
  cases g <;> first | exact h | cases h

/-- The state and the activation of an entry of instance `i`. -/
def Event.arrival? (i : InstanceId) : Event σ → Option (σ.State × Option ActivationId)
  | entered j s _ _ => if j = i then some (s, none) else none
  | started j k s _ _ => if j = i then some (s, some k) else none
  | _ => none

/-- No stage of instance `i` is between the beginning of an exit and the next entry. -/
def Life.Calm (l : Life σ) (i : InstanceId) : Prop := ∀ s ∈ l.stages, s.transit? ≠ some i

theorem Life.calm_of_cons {f : Stage σ} {rest : List (Stage σ)} (hs : l.stages = f :: rest)
    (hf : f.transit? ≠ some i) (hr : ∀ g ∈ rest, g.transit? ≠ some i) : l.Calm i := by
  intro g hg
  rw [hs] at hg
  rcases List.mem_cons.1 hg with rfl | hg
  · exact hf
  · exact hr g hg

/-- What holds of an instance on which no owner dispatches in transit: what is not aborted is live,
and in transit nothing is live, nor is there a second transition. -/
structure Life.Tended (l : Life σ) (i : InstanceId) : Prop where
  live : l.LiveAt i
  vacant : ∀ s, l.instances i = some s → ∀ g ∈ l.stages, g.transit? = some i → s.active = none
  single : l.stages.Pairwise fun f g => f.enters? = some i → g.transit? ≠ some i

namespace Life.Tended

/-- An instance that has not been placed is tended. -/
theorem unplaced (hs : l.Sound) (hi : l.placed ≤ i) : l.Tended i where
  live k t s hk ho _ _ := absurd (ho ▸ hs.owner k t hk) (Nat.not_lt.2 hi)
  vacant s hsome :=
    absurd ((hs.placed i).1 (Option.isSome_of_eq_some hsome)) (Nat.not_lt.2 hi)
  single := by
    refine List.pairwise_of_forall_mem_list fun f _ g hg _ ht => ?_
    exact Nat.not_lt.2 hi (hs.transits g hg i ht)

/-- A transition begins only while no other one is under way. -/
theorem calm_of_due (h : r.life.Tended i) (ho : r.Sends i → r.life.Calm i) {caller : Caller}
    {s t : σ.State} {a : σ.Action} {p : Option σ.Payload}
    (hd : (Departure.transition caller s t a p).Due m r i) : r.life.Calm i := by
  obtain ⟨⟨st, hi, -⟩, -, -, hc⟩ := hd
  cases caller with
  | owner => exact ho hc
  | handle k =>
    intro g hg he
    have := h.vacant st hi g hg he
    rw [h.live.active_of_admits hi hc] at this
    cases this

theorem vacant_move (h : r.life.Tended i) (hs : r.life.Sound) (hm : Move m r l)
    {s : Standing σ} (hi : l.instances i = some s) {g : Stage σ} (hg : g ∈ l.stages)
    (ht : g.transit? = some i) : s.active = none := by
  have vacant := h.vacant
  have head : ∀ f rest, r.life.stages = f :: rest → f.transit? = some i →
      ∀ s, r.life.instances i = some s → s.active = none := by
    intro f rest hf hi s hs
    exact vacant s hs f (hf ▸ List.mem_cons_self) hi
  have alone : ∀ f rest, r.life.stages = f :: rest → f.enters? = some i →
      ∀ g ∈ rest, g.transit? ≠ some i := by
    intro f rest hf hi g hg
    have single := h.single
    rw [hf] at single
    exact (List.pairwise_cons.1 single).1 g hg hi
  have placed := hs.placed
  have transits := hs.transits
  clear h hs
  cases hm
  case quiet => exact vacant s hi g hg ht
  all_goals
    generalize r.life = l at *
    simp only [Life.note, Life.on, addInstance, modifyInstance, modifyActivation, Life.begin,
      Life.tearDown, addActivation] at hi hg
    grind [Option.map_eq_some_iff, Stage.enters?]

theorem single_move (h : r.life.Tended i) (hs : r.life.Sound) (ho : r.Sends i → r.life.Calm i)
    (hm : Move m r l) :
    l.stages.Pairwise fun f g => f.enters? = some i → g.transit? ≠ some i := by
  have single := h.single
  have departed {j : InstanceId} {d : Departure σ} (hd : d.Due m r j) :
      (d.stage j :: r.life.stages).Pairwise
        fun f g => f.enters? = some i → g.transit? ≠ some i := by
    refine List.pairwise_cons.2 ⟨fun g hg hj => ?_, single⟩
    cases d with
    | release => cases hj
    | transition caller s t a p =>
      cases hj
      exact h.calm_of_due ho hd g hg
  have ended {g : Stage σ} {rest : List (Stage σ)} (hg : r.life.stages = g :: rest) :
      rest.Pairwise fun f g => f.enters? = some i → g.transit? ≠ some i := by
    rw [hg] at single
    exact (List.pairwise_cons.1 single).2
  cases hm
  case quiet => exact single
  case write => exact single
  case observe => exact single
  case place =>
    refine List.pairwise_cons.2 ⟨fun g hg hi hg' => ?_, single⟩
    cases hi
    exact Nat.lt_irrefl _ (hs.transits g hg _ hg')
  case depart hd => exact departed hd
  case exit hd => exact List.pairwise_cons.2 ⟨nofun, departed hd⟩
  case change hs hi =>
    rw [hs] at single
    exact List.pairwise_cons.2 (List.pairwise_cons.1 single)
  case enter hs _ _ _ => exact List.pairwise_cons.2 ⟨nofun, ended hs⟩
  case displace hs _ _ _ => exact List.pairwise_cons.2 ⟨nofun, ended hs⟩
  all_goals exact ended (by assumption)

/-- **An instance stays tended as long as no owner dispatches on it in transit.** -/
theorem move (h : r.life.Tended i) (hs : r.life.Sound) (ho : r.Sends i → r.life.Calm i)
    (hm : Move m r l) : l.Tended i where
  live := by
    refine h.live.move hs (fun s j tr p rest hst hi ha => ?_) hm
    rw [h.vacant s hi _ (hst ▸ List.mem_cons_self) rfl] at ha
    cases ha
  vacant _ hi _ := h.vacant_move hs hm hi
  single := h.single_move hs ho hm

end Life.Tended

/-- The instance is in the state of its latest entry, which has started the live activation if the
state has an effect. -/
structure Life.Settled (m : Machine σ) (l : Life σ) (i : InstanceId) (s : Standing σ) : Prop where
  effect : s.active.isSome ↔ (m.config.effect? s.state).isSome
  latest : (l.past.filterMap (Event.arrival? i)).head? = some (s.state, s.active)
  state : ∀ k t, s.active = some k → l.activations k = some t → t.state = s.state

namespace Life.Settled

/-- The entry into a state without effect settles an instance without a live activation. -/
theorem entered {s : Standing σ} (he : m.config.effect? s.state = none) (ha : s.active = none)
    (tr : Trigger σ.Action) (p : Option σ.Payload) (stages : List (Stage σ)) :
    ((l.note (.entered i s.state tr p)).on stages).Settled m i s := by
  refine ⟨by simp [ha, he], ?_, fun k t hk _ => ?_⟩
  · simp [Life.on, Life.note, Event.arrival?, ha]
  · rw [ha] at hk
    cases hk

/-- The entry into a state with an effect settles the instance on the new activation. -/
theorem begun {s : Standing σ} {c : Code σ} (he : m.config.effect? s.state = some c)
    (tr : Trigger σ.Action) (p : Option σ.Payload) (stages : List (Stage σ)) :
    ((l.begin i s.state tr p).on stages).Settled m i { s with active := some l.started } := by
  refine ⟨by simp [he], ?_, fun k t hk ht => ?_⟩
  · simp [Life.on, Life.begin, Life.note, Event.arrival?]
  · obtain rfl := Option.some.inj hk
    simp only [Life.on, Life.begin, Life.note, modifyInstance, addActivation, if_true,
      Option.some.injEq] at ht
    exact ht ▸ rfl

end Life.Settled

/-- What the discipline of owners gives: an instance in transit has no live activation and is in
one transition only, and any other instance is settled, unless it was released. -/
structure Life.Disciplined (m : Machine σ) (l : Life σ) : Prop where
  intact : l.Intact
  vacant : ∀ i s, l.instances i = some s → ∀ g ∈ l.stages, g.transit? = some i → s.active = none
  single : l.stages.Pairwise fun f g => ∀ i, f.enters? = some i → g.transit? ≠ some i
  left : ∀ i, .leaving i ∈ l.stages → .released i ∈ l.past
  settled : ∀ i s, l.instances i = some s → .released i ∉ l.past → l.Calm i → l.Settled m i s

namespace Life.Disciplined

theorem tended (h : l.Disciplined m) (hl : l.Led) (i : InstanceId) : l.Tended i :=
  ⟨hl.liveAt i, h.vacant i, h.single.imp fun hfg => hfg i⟩

/-- Owners that dispatch on no instance in transit leave every instance tended. -/
theorem tended_move (h : r.life.Disciplined m) (hs : r.life.Sound) (hl : r.life.Led)
    (ho : r.orderly = true) (hm : Move m r l) (i : InstanceId) : l.Tended i := by
  refine (h.tended hl i).move hs (fun hsend g hg ht => ?_) hm
  have hrest := Run.inTransit_eq_false_of_orderly ho hsend
  rw [Run.inTransit_iff.2 ⟨g, hg, ht⟩] at hrest
  cases hrest

theorem left_move (h : r.life.Disciplined m) (hm : Move m r l) (hi : .leaving i ∈ l.stages) :
    .released i ∈ l.past := by
  rcases hm.stage hi with hold | hnew
  · exact hm.past.subset (h.left i hold)
  · cases hnew with
    | entry hg | placed hg | written hg _ | exits hg _ _ => cases hg
    | @departs j s d hg _ _ hp =>
      cases d <;> cases hg
      exact hp

/-- An instance stays settled while it is not entered and its state is not written. -/
theorem settled_of_same (h : r.life.Disciplined m) (hs : r.life.Sound) (hm : Move m r l)
    {s s' : Standing σ} (hi : r.life.instances i = some s) (hstate : s'.state = s.state)
    (hactive : s'.active = s.active) (hr : .released i ∉ l.past) (hc : r.life.Calm i)
    (hp : l.past.filterMap (Event.arrival? i) = r.life.past.filterMap (Event.arrival? i)) :
    l.Settled m i s' := by
  obtain ⟨effect, latest, state⟩ := h.settled i s hi (fun hp => hr (hm.past.subset hp)) hc
  refine ⟨?_, ?_, fun k t hk ht => ?_⟩
  · rwa [hstate, hactive]
  · rwa [hp, hstate, hactive]
  · rw [hactive] at hk
    obtain ⟨u, hu, -⟩ := hs.active i s k hi hk
    obtain ⟨t', ht', -, hst, -⟩ := hm.ages hs.toCounted hu
    rw [ht] at ht'
    obtain rfl := Option.some.inj ht'
    rw [hst, hstate, state k u hk hu]

theorem settled_move (h : r.life.Disciplined m) (hs : r.life.Sound) (hm : Move m r l)
    {s : Standing σ} (hi : l.instances i = some s) (hr : .released i ∉ l.past)
    (hc : l.Calm i) : l.Settled m i s := by
  have same := fun s₀ hi₀ hst hac => @settled_of_same _ _ _ _ i h hs hm s₀ s hi₀ hst hac hr
  have left := h.left
  have vacant := h.vacant
  clear h
  cases hm
  case quiet => exact same s hi rfl rfl hc rfl
  case displace j tr p rest s₀ c k hs hj he ha =>
    have := vacant j s₀ hj _ (hs ▸ List.mem_cons_self) rfl
    rw [ha] at this
    cases this
  case place st c hm' =>
    have hji : i ≠ r.life.placed := fun e => hc _ List.mem_cons_self (e ▸ rfl)
    exact same s ((if_neg hji).symm.trans hi) rfl rfl
      (fun g hg => hc g (List.mem_cons_of_mem _ hg)) rfl
  case depart j s₀ d hj ha hd =>
    refine same s hi rfl rfl (fun g hg => hc g (List.mem_cons_of_mem _ hg)) ?_
    cases d <;> rfl
  case exit j s₀ k b d hj ha hk hd =>
    have hij : i ≠ j := fun e =>
      hc _ (List.mem_cons_of_mem _ List.mem_cons_self) (e ▸ d.transit?_stage j)
    refine same s ((if_neg hij).symm.trans hi) rfl rfl
      (fun g hg => hc g (List.mem_cons_of_mem _ (List.mem_cons_of_mem _ hg))) ?_
    cases d <;> rfl
  case change j t a p rest s₀ hst hj =>
    have hij : i ≠ j := fun e => hc _ List.mem_cons_self (e ▸ rfl)
    refine same s ((if_neg hij).symm.trans hi) rfl rfl (calm_of_cons hst ?_ fun g hg => ?_) rfl
    · exact fun e => hij (Option.some.inj e).symm
    · exact hc g (List.mem_cons_of_mem _ hg)
  case enterBare j tr p rest s₀ hst hj he =>
    by_cases hij : j = i
    · subst hij
      rw [show s = s₀ from Option.some.inj (hi.symm.trans hj)]
      exact Settled.entered he (vacant j s₀ hj _ (hst ▸ List.mem_cons_self) rfl) tr p rest
    · refine same s hi rfl rfl (calm_of_cons hst (fun e => hij (Option.some.inj e)) hc) ?_
      simp [Life.on, Life.note, Event.arrival?, hij]
  case enter j tr p rest s₀ c hst hj he ha =>
    have hrest : ∀ g ∈ rest, g.transit? ≠ some i := fun g hg => hc g (List.mem_cons_of_mem _ hg)
    by_cases hij : j = i
    · subst hij
      obtain rfl : { s₀ with active := some r.life.started } = s := by
        simpa [Life.on, Life.begin, Life.note, modifyInstance, addActivation, hj] using hi
      exact Settled.begun he tr p _
    · refine same s ((if_neg (Ne.symm hij)).symm.trans hi) rfl rfl
        (calm_of_cons hst (fun e => hij (Option.some.inj e)) hrest) ?_
      simp [Life.on, Life.begin, Life.note, modifyInstance, addActivation, Event.arrival?, hij]
  case left j rest hst =>
    refine same s hi rfl rfl (calm_of_cons hst (fun e => ?_) hc) rfl
    obtain rfl := Option.some.inj e
    exact hr (left j (hst ▸ List.mem_cons_self))
  case write k b s₀ c hk hb ho hj =>
    by_cases hij : i = b.owner
    · obtain rfl : { s₀ with context := c } = s := by
        simpa [Life.note, modifyInstance, hij, hj] using hi
      exact same s₀ (hij ▸ hj) rfl rfl hc rfl
    · exact same s ((if_neg hij).symm.trans hi) rfl rfl hc rfl
  case observe => exact same s hi rfl rfl hc rfl
  -- the other moves end a stage that is not a transition
  all_goals exact same s hi rfl rfl (calm_of_cons (by assumption) (by simp [Stage.transit?]) hc) rfl

theorem move (h : r.life.Disciplined m) (hs : r.life.Sound) (hl : r.life.Led)
    (ho : r.orderly = true) (hm : Move m r l) : l.Disciplined m where
  intact k hk := by
    rcases hm.displaced hk with hk | ⟨i, tr, p, rest, s, hst, hi, ha⟩
    · exact h.intact k hk
    · have := h.vacant i s hi _ (hst ▸ List.mem_cons_self) rfl
      rw [ha] at this
      cases this
  vacant i := (h.tended_move hs hl ho hm i).vacant
  single := List.pairwise_iff_getElem.2 fun a b ha hb hab i =>
    List.pairwise_iff_getElem.1 (h.tended_move hs hl ho hm i).single a b ha hb hab
  left _ := h.left_move hm
  settled _ _ := h.settled_move hs hm

end Life.Disciplined

/-! ### Runs of disciplined owners -/

/-- Whether the last owner of instance `i` has let it go. -/
def Run.released (r : Run σ) (i : InstanceId) : Bool :=
  r.world.journal.any fun
    | .released j => j = i
    | _ => false

theorem Run.released_past (h : r.released i = false) : .released i ∉ r.life.past := by
  rw [mem_past rfl]
  intro hi
  have := List.any_eq_false.1 h _ hi
  simp at this

theorem Run.filterMap_arrival (r : Run σ) (i : InstanceId) :
    r.life.past.filterMap (Event.arrival? i) = r.world.journal.filterMap (Event.arrival? i) :=
  filterMap_past fun e he => by cases e <;> first | rfl | cases he

namespace Reach

variable (h : Reach m (fun r => r.orderly = true) r)

include h

theorem disciplined : r.life.Disciplined m := by
  refine h.life_induction ⟨nofun, nofun, List.Pairwise.nil, nofun, nofun⟩ ?_
  exact fun r l hr ho ih hm => ih.move hr.sound (hr.lawful ih.intact).toLed ho hm

/-- An entry finds no live activation. -/
theorem vacant_of_entering {tr : Trigger σ.Action} {p : Option σ.Payload} {stack : List (Frame σ)}
    (hs : r.stack = .entering i tr p :: stack) :
    ∃ inst, r.world.instances.get? i = some inst ∧ inst.active = none := by
  have hmem : .entering i tr p ∈ r.life.stages := by
    simp [Run.life, World.life, stagesOf, hs, Frame.stage?]
  obtain ⟨inst, hi⟩ := h.instance_placed (h.sound.transits _ hmem i rfl)
  exact ⟨inst, hi, h.disciplined.vacant i inst.standing
    (World.life_instances hi) _ hmem rfl⟩

/-- What is not aborted is live, and the window of everything else is closed. -/
theorem live_iff {k : ActivationId} {a : Activation σ}
    (hk : r.world.activations.get? k = some a) :
    ∃ inst, r.world.instances.get? a.owner = some inst ∧
      (a.signal.aborted = false ↔ inst.active = some k) ∧
      (inst.active ≠ some k → a.signal.aborted = true ∧ a.windowOpen = false) := by
  have hk' : r.life.activations k = some a.tenure := World.life_activations hk
  obtain ⟨inst, hinst⟩ := h.owner_placed hk
  have hi : r.life.instances a.owner = some inst.standing :=
    World.life_instances hinst
  have hiff : a.signal.aborted = false ↔ inst.active = some k := by
    constructor
    · exact fun ha => (h.lawful h.disciplined.intact).live k _ _ hk' ha hi
    · intro ha
      obtain ⟨t, ht, -, hb⟩ := h.sound.active a.owner _ k hi ha
      rw [hk'] at ht
      obtain rfl := Option.some.inj ht
      exact hb
  refine ⟨inst, hinst, hiff, fun hne => ?_⟩
  have ha : a.signal.aborted = true := by
    by_contra hb
    exact hne (hiff.1 (by simpa using hb))
  refine ⟨ha, ?_⟩
  by_contra ho
  have := ((h.sound.window k _ hk').1 (by simpa using ho)).1
  rw [Activation.aborted_tenure, ha] at this
  cases this

/-- An instance that is not in transit is in the state of its latest entry, and has a live
activation if the state has an effect. -/
theorem settled {inst : Instance σ} (hi : r.world.instances.get? i = some inst)
    (hr : r.released i = false) (ht : r.inTransit i = false) :
    (inst.active.isSome ↔ (m.config.effect? inst.state.value).isSome) ∧
      (r.world.journal.filterMap (Event.arrival? i)).head? = some (inst.state.value, inst.active) ∧
      ∀ k, inst.active = some k →
        ∃ a, r.world.activations.get? k = some a ∧ a.owner = i ∧ a.state = inst.state.value := by
  have hi' : r.life.instances i = some inst.standing := World.life_instances hi
  have hc : r.life.Calm i := by
    intro s hs he
    rw [Run.inTransit_iff.2 ⟨s, hs, he⟩] at ht
    cases ht
  have hset := h.disciplined.settled i _ hi' (Run.released_past hr) hc
  refine ⟨hset.effect, ?_, fun k hk => ?_⟩
  · rw [← r.filterMap_arrival]
    exact hset.latest
  · obtain ⟨t, hkt, ho, -⟩ := h.sound.active i _ k hi' hk
    have hst := hset.state k t hk hkt
    obtain ⟨a, ha, rfl⟩ := Option.map_eq_some_iff.1 hkt
    exact ⟨a, ha, ho, hst⟩

/-- **One activation at a time.** No entry finds a live activation, so that none is ever displaced.
At every moment the activations that are not aborted are the live ones, and all others are aborted
with a closed window. An instance that has not been released, and that is not in the middle of a
transition, has a live activation exactly if its state has an effect; its latest entry was into
this state, and has started the live activation for it. -/
theorem one_activation :
    (∀ i tr p stack, r.stack = .entering i tr p :: stack →
      ∃ inst, r.world.instances.get? i = some inst ∧ inst.active = none) ∧
    r.displaced = false ∧
    (∀ k a, r.world.activations.get? k = some a →
      ∃ inst, r.world.instances.get? a.owner = some inst ∧
        (a.signal.aborted = false ↔ inst.active = some k) ∧
        (inst.active ≠ some k → a.signal.aborted = true ∧ a.windowOpen = false)) ∧
    ∀ i inst, r.world.instances.get? i = some inst → r.released i = false →
      r.inTransit i = false →
      (inst.active.isSome ↔ (m.config.effect? inst.state.value).isSome) ∧
        (r.world.journal.filterMap (Event.arrival? i)).head? =
          some (inst.state.value, inst.active) ∧
        ∀ k, inst.active = some k →
          ∃ a, r.world.activations.get? k = some a ∧ a.owner = i ∧ a.state = inst.state.value :=
  ⟨fun _ _ _ _ => h.vacant_of_entering,
    Run.displaced_eq_false_iff.2 h.disciplined.intact,
    fun _ _ => h.live_iff,
    fun _ _ hi hr ht => h.settled hi hr ht⟩

end Reach

/-- The lamp has started two activations while it was placed, and the second one is live. -/
theorem lamp_activations :
    Lamp.lit.displaced = false ∧
    ∃ inst, Lamp.lit.world.instances.get? 0 = some inst ∧ inst.active = some 1 ∧
      (inst.active.isSome ↔ (Lamp.machine.config.effect? inst.state.value).isSome) ∧
      ∃ a, Lamp.lit.world.activations.get? 0 = some a ∧ a.signal.aborted = true := by
  have h : Reach Lamp.machine (fun r => r.orderly = true) Lamp.lit :=
    (Reach.start _).steps (by decide +kernel)
  obtain ⟨-, hd, hlive, hset⟩ := h.one_activation
  obtain ⟨inst, hi, -, hover⟩ := hlive 0 _ rfl
  cases hi
  exact ⟨hd, _, rfl, rfl, (hset 0 _ rfl rfl rfl).1, _, rfl, (hover (by decide)).1⟩

end Statechart
