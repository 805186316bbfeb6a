import Statechart.Proofs.Activation.Discipline
import Statechart.Proofs.Transition.Course

/-!
The edges that an instance follows. A transition looks its target up before the exit and writes it
after the exit, so that every write is of a target that was declared for the state in which the
action was accepted. If no owner dispatches on an instance between the two, this state is still the
current one at the write: the state variable walks along the declared edges of the machine.
-/

namespace Statechart

variable {σ : Signature} {m : Machine σ} {ok : Run σ → Prop} {r r' : Run σ} {l : Life σ}
  {i : InstanceId}

/-! ### Edges and walks -/

/-- The machine goes from `s` to the declared state `t` when it accepts `a`. -/
def Machine.Edge (m : Machine σ) (s : σ.State) (a : σ.Action) (t : σ.State) : Prop :=
  m.config.target? s a = some t ∧ m.config.contains t = true

/-- The machine comes from `s₀` to `s` along these edges, the latest of which is the first one of
the list. -/
inductive Machine.Walk (m : Machine σ) (s₀ : σ.State) :
    List (σ.State × σ.Action × σ.State) → σ.State → Prop
  | start : Walk m s₀ [] s₀
  | step {edges s a t} (h : Walk m s₀ edges s) (he : m.Edge s a t) :
      Walk m s₀ ((s, a, t) :: edges) t

theorem Machine.Walk.edge {s₀ s : σ.State} {edges : List (σ.State × σ.Action × σ.State)}
    (h : m.Walk s₀ edges s) : ∀ e ∈ edges, m.Edge e.1 e.2.1 e.2.2 := by
  induction h with
  | start => nofun
  | step h he ih =>
    intro e hm
    rcases List.mem_cons.1 hm with rfl | hm
    · exact he
    · exact ih e hm

/-- The edges that instance `i` has followed, the latest first. -/
def Run.edges (r : Run σ) (i : InstanceId) : List (σ.State × σ.Action × σ.State) :=
  r.world.journal.filterMap (Event.edge? i)

theorem Run.edges_life (r : Run σ) (i : InstanceId) : r.life.edges i = r.edges i :=
  filterMap_past fun e he => by cases e <;> first | rfl | cases he

/-! ### Every write was asked for -/

/-- Instance `i` has accepted the action `a` in a state from which it leads to `t`. -/
def Life.Accepted (m : Machine σ) (i : InstanceId) (a : σ.Action) (t : σ.State)
    (past : List (Event σ)) : Prop :=
  ∃ caller s, .transition i caller s t a ∈ past ∧ m.Edge s a t

/-- A transition that is under way has been accepted, and so has every transition that has come to
its write. -/
structure Life.Sourced (m : Machine σ) (l : Life σ) : Prop where
  due : ∀ i t a p, .changing i t a p ∈ l.stages → Accepted m i a t l.past
  wrote : ∀ i s t a p older, .wrote i s t a p :: older <:+ l.past → Accepted m i a t older

theorem Life.Accepted.mono {a : σ.Action} {t : σ.State} {past past' : List (Event σ)}
    (h : Accepted m i a t past) (hs : past <:+ past') : Accepted m i a t past' := by
  obtain ⟨caller, s, hm, he⟩ := h
  exact ⟨caller, s, hs.subset hm, he⟩

/-- A transition that begins has just been accepted. -/
theorem Move.Begins.accepted {t : σ.State} {a : σ.Action} {p : Option σ.Payload}
    (h : Begins m r l (.changing i t a p)) : Life.Accepted m i a t l.past := by
  cases h with
  | entry hg | placed hg | written hg _ | exits hg _ _ => cases hg
  | @departs j s d hg hi hd hp =>
    cases d <;> cases hg
    obtain ⟨-, ht, hdecl, -⟩ := hd
    exact ⟨_, _, hp, ht, hdecl⟩

/-- Only the write that a transition is due for is made. -/
theorem Move.wrote (hm : Move m r l) {s t : σ.State} {a : σ.Action} {p : Option σ.Payload}
    {older : List (Event σ)} (hw : .wrote i s t a p :: older <:+ l.past) :
    .wrote i s t a p :: older <:+ r.life.past ∨
      older = r.life.past ∧ .changing i t a p ∈ r.life.stages := by
  have old {e : Event σ} {past : List (Event σ)} (hw : .wrote i s t a p :: older <:+ e :: past)
      (he : .wrote i s t a p ≠ e) : .wrote i s t a p :: older <:+ past :=
    (List.suffix_cons_iff.1 hw).resolve_left fun h => he (List.cons.inj h).1
  cases hm
  case change hst hi =>
    rcases List.suffix_cons_iff.1 hw with e | hw
    · cases e
      exact .inr ⟨rfl, hst ▸ List.mem_cons_self⟩
    · exact .inl hw
  case depart d _ _ _ => exact .inl (old hw (by cases d <;> nofun))
  case exit d _ _ _ _ => exact .inl (old (old (old hw nofun) nofun) (by cases d <;> nofun))
  case displace => exact .inl (old (old hw nofun) nofun)
  case atOnce => exact .inl (old (old hw nofun) nofun)
  all_goals exact .inl (by first | exact hw | exact old hw nofun)

theorem Life.Sourced.move (h : r.life.Sourced m) (hm : Move m r l) : l.Sourced m := by
  constructor
  · intro i t a p hc
    rcases hm.stage hc with hold | hnew
    · exact (h.due i t a p hold).mono hm.past
    · exact hnew.accepted
  · intro i s t a p older hw
    rcases hm.wrote hw with hw | ⟨rfl, hc⟩
    · exact h.wrote i s t a p older hw
    · exact h.due i t a p hc

theorem Reach.sourced (h : Reach m ok r) : r.life.Sourced m := by
  refine h.life_induction ⟨nofun, fun i s t a p older hw => ?_⟩ fun _ _ _ _ ih => ih.move
  cases List.suffix_nil.1 hw

/-! ### Undisturbed transitions -/

/-- Whether a transition of instance `i` has not come to its write. -/
def Run.changing (r : Run σ) (i : InstanceId) : Bool :=
  r.stack.any fun
    | .changing j _ _ _ => j = i
    | _ => false

/-- Whether what happens next is not a dispatch by an owner on an instance of which a transition
has not come to its write. -/
def Run.undisturbed (r : Run σ) : Bool :=
  match r.control with
  | .code _ (.send slot _ _ _) => (r.world.slots.get? slot).all fun i => !r.changing i
  | _ => true

theorem Run.changing_of_mem {t : σ.State} {a : σ.Action} {p : Option σ.Payload}
    (h : .changing i t a p ∈ r.life.stages) : r.changing i = true := by
  obtain ⟨f, hf, hs⟩ := (mem_stages_iff (by rfl)).1 h
  refine List.any_eq_true.2 ⟨f, hf, ?_⟩
  cases f with
  | changing j t a p =>
    cases hs
    simp
  | acting p j next => cases p <;> cases hs
  | _ => cases hs

/-- What undisturbed transitions give: while one of them has not come to its write, its instance
has no live activation, nothing above it comes to an entry of the instance, and the current state
has the edge that is due. So the state variable walks along the edges of the machine. -/
structure Life.Aligned (m : Machine σ) (l : Life σ) : Prop where
  above : l.stages.Pairwise fun f g =>
    ∀ i t a p, g = .changing i t a p → f.enters? ≠ some i
  due : ∀ i t a p s, .changing i t a p ∈ l.stages → l.instances i = some s →
    s.active = none ∧ m.Edge s.state a t
  known : ∀ i, l.placed ≤ i → l.edges i = []
  walk : ∀ i s, l.instances i = some s →
    ∃ s₀, .placed i s₀ ∈ l.past ∧ m.config.contains s₀ = true ∧ m.Walk s₀ (l.edges i) s.state

namespace Life.Aligned

/-- A transition is accepted only where none is due for its write. -/
theorem free_of_admits (h : r.life.Aligned m) (hl : r.life.Led) (hu : r.undisturbed = true)
    {s : Standing σ} (hi : r.life.instances i = some s) {caller : Caller}
    (hc : r.Admits i caller) (t : σ.State) (a : σ.Action) (p : Option σ.Payload) :
    .changing i t a p ∉ r.life.stages := by
  intro hm
  cases caller with
  | owner =>
    obtain ⟨tg, slot, b, q, next, hctrl, hslot⟩ := hc
    have hbusy := Run.changing_of_mem hm
    simp [Run.undisturbed, hctrl, hslot, hbusy] at hu
  | handle k =>
    have hvac := (h.due i t a p s hm hi).1
    rw [hl.active_of_admits hi hc] at hvac
    cases hvac

theorem departed (h : r.life.Aligned m) (hl : r.life.Led) (hu : r.undisturbed = true)
    {s : Standing σ} (hi : r.life.instances i = some s) {d : Departure σ} (hd : d.Due m r i) :
    (d.stage i :: r.life.stages).Pairwise
      fun f g => ∀ i t a p, g = .changing i t a p → f.enters? ≠ some i := by
  refine List.pairwise_cons.2 ⟨fun g hg j t a p hgj hj => ?_, h.above⟩
  cases d with
  | release => cases hj
  | transition caller _ _ _ _ =>
    obtain rfl := Option.some.inj hj
    exact h.free_of_admits hl hu hi hd.2.2.2 t a p (hgj ▸ hg)

theorem above_move (h : r.life.Aligned m) (hs : r.life.Sound) (hl : r.life.Led)
    (hu : r.undisturbed = true) (hm : Move m r l) : l.stages.Pairwise
      fun f g => ∀ i t a p, g = .changing i t a p → f.enters? ≠ some i := by
  have above := h.above
  have ended {g : Stage σ} {rest : List (Stage σ)} (hg : r.life.stages = g :: rest) :
      rest.Pairwise fun f g => ∀ i t a p, g = .changing i t a p → f.enters? ≠ some i := by
    rw [hg] at above
    exact (List.pairwise_cons.1 above).2
  cases hm
  case quiet => exact above
  case write => exact above
  case observe => exact above
  case place =>
    refine List.pairwise_cons.2 ⟨fun g hg i t a p hgi hi => ?_, above⟩
    subst hgi
    exact Nat.lt_irrefl _ (Option.some.inj hi ▸ hs.transits _ hg i rfl)
  case depart hi ha hd => exact h.departed hl hu hi hd
  case exit hi ha hk hd => exact List.pairwise_cons.2 ⟨nofun, h.departed hl hu hi hd⟩
  case change hst hi =>
    rw [hst] at above
    exact List.pairwise_cons.2 (List.pairwise_cons.1 above)
  case enter hst _ _ _ => exact List.pairwise_cons.2 ⟨nofun, ended hst⟩
  case displace hst _ _ _ => exact List.pairwise_cons.2 ⟨nofun, ended hst⟩
  all_goals exact ended (by assumption)

theorem due_move (h : r.life.Aligned m) (hs : r.life.Sound) (hint : l.Intact) (hm : Move m r l)
    {t : σ.State} {a : σ.Action} {p : Option σ.Payload} {s : Standing σ}
    (hc : .changing i t a p ∈ l.stages) (hi : l.instances i = some s) :
    s.active = none ∧ m.Edge s.state a t := by
  have due := h.due
  have alone {f : Stage σ} {rest : List (Stage σ)} {j : InstanceId}
      (hf : r.life.stages = f :: rest) (hj : f.enters? = some j)
      (hc : .changing i t a p ∈ rest) : i ≠ j := by
    rintro rfl
    have above := h.above
    rw [hf] at above
    exact (List.pairwise_cons.1 above).1 _ hc i t a p rfl hj
  have accepted {j : InstanceId} {d : Departure σ} {u : Standing σ} (hd : d.Due m r j)
      (hu : r.life.instances j = some u) (e : .changing i t a p = d.stage j) :
      i = j ∧ m.Edge u.state a t := by
    cases d <;> cases e
    obtain ⟨⟨st, hst, rfl⟩, ht, hdecl, -⟩ := hd
    obtain rfl := Option.some.inj (hst.symm.trans hu)
    exact ⟨rfl, ht, hdecl⟩
  have placed (hc : .changing i t a p ∈ r.life.stages) : i < r.life.placed :=
    hs.transits _ hc i rfl
  clear hs h
  cases hm
  case quiet => exact due i t a p s hc hi
  case displace => exact absurd (List.mem_cons_of_mem _ List.mem_cons_self) (hint _)
  case depart j u d hj ha hd =>
    rcases List.mem_cons.1 hc with e | hc
    · obtain ⟨rfl, he⟩ := accepted hd hj e
      obtain rfl := Option.some.inj (hj.symm.trans hi)
      exact ⟨ha, he⟩
    · exact due i t a p s hc hi
  case exit j u k b d hj ha hk hd =>
    obtain ⟨v, hv, rfl⟩ := Life.modifyInstance_eq_some.1 hi
    rcases List.mem_cons.1 ((List.mem_cons.1 hc).resolve_left nofun) with e | hc
    · obtain ⟨rfl, he⟩ := accepted hd hj e
      obtain rfl := Option.some.inj (hj.symm.trans hv)
      rw [if_pos rfl]
      exact ⟨rfl, he⟩
    · obtain ⟨hvac, he⟩ := due i t a p v hc hv
      split
      · exact ⟨rfl, he⟩
      · exact ⟨hvac, he⟩
  case change j t' a' p' rest u hst hj =>
    have hrest := (List.mem_cons.1 hc).resolve_left nofun
    have hi' := (if_neg (alone hst rfl hrest)).symm.trans hi
    exact due i t a p s (hst ▸ List.mem_cons_of_mem _ hrest) hi'
  case enter j tr q rest u c hst hj he ha =>
    have hrest := (List.mem_cons.1 hc).resolve_left nofun
    have hi' := (if_neg (alone hst rfl hrest)).symm.trans hi
    exact due i t a p s (hst ▸ List.mem_cons_of_mem _ hrest) hi'
  all_goals
    clear accepted alone hint
    generalize r.life = l at *
    simp only [Life.note, Life.on, Life.addInstance, Life.modifyInstance,
      Life.modifyActivation] at hc hi
    grind [Option.map_eq_some_iff]

theorem walk_move (h : r.life.Aligned m) (hm : Move m r l) {s : Standing σ}
    (hi : l.instances i = some s) :
    ∃ s₀, .placed i s₀ ∈ l.past ∧ m.config.contains s₀ = true ∧ m.Walk s₀ (l.edges i) s.state := by
  have same (he : l.edges i = r.life.edges i) {u : Standing σ} (hu : r.life.instances i = some u)
      (hs : u.state = s.state) : ∃ s₀, .placed i s₀ ∈ l.past ∧ m.config.contains s₀ = true ∧
        m.Walk s₀ (l.edges i) s.state := by
    obtain ⟨s₀, hplaced, hdecl, hwalk⟩ := h.walk i u hu
    refine ⟨s₀, hm.past.subset hplaced, hdecl, ?_⟩
    rw [he, ← hs]
    exact hwalk
  cases hm.concerns i with
  | rests he _ _ _ hs =>
    obtain ⟨u, hu, hst⟩ := hs s hi
    exact same he hu hst
  | @places st hnew _ hdecl hpast he _ _ _ hs =>
    refine ⟨st, hpast, hdecl, ?_⟩
    rw [he, h.known i (Nat.le_of_eq hnew.symm), hs s hi]
    exact .start
  | writes hst hu he _ _ _ hs =>
    obtain ⟨s₀, hplaced, hdecl, hwalk⟩ := h.walk i _ hu
    refine ⟨s₀, hm.past.subset hplaced, hdecl, ?_⟩
    rw [he, hs s hi]
    exact hwalk.step (h.due i _ _ _ _ (hst ▸ List.mem_cons_self) hu).2
  | enters _ hu he _ _ _ hs => exact same he hu (hs s hi).symm

theorem move (h : r.life.Aligned m) (hs : r.life.Sound) (hl : r.life.Led)
    (hu : r.undisturbed = true) (hint : l.Intact) (hm : Move m r l) : l.Aligned m where
  above := h.above_move hs hl hu hm
  due _ _ _ _ _ := h.due_move hs hint hm
  known i hi := by
    obtain ⟨hle, he, -⟩ := hm.unplaced hs hi
    exact he.trans (h.known i hle)
  walk _ _ := h.walk_move hm

end Life.Aligned

/-- **Undisturbed transitions are aligned**, as long as no activation loses its place. -/
theorem Reach.aligned (h : Reach m ok r) (hi : r.life.Intact)
    (hu : ∀ r, ok r → r.undisturbed = true) : r.life.Aligned m := by
  refine h.life_induction (P := fun l => l.Intact → l.Aligned m) (fun _ => ?_)
    (fun r l hr hok ih hm hi => ?_) hi
  · exact ⟨List.Pairwise.nil, nofun, fun _ _ => rfl, nofun⟩
  · have hbefore := hi.before hm
    exact (ih hbefore).move hr.sound (hr.lawful hbefore).toLed (hu r hok) hi hm

/-- A transition that comes to its write makes it. -/
theorem World.change_writes {w : World σ} {inst : Instance σ} (hi : w.instances.get? i = some inst)
    (t : σ.State) (a : σ.Action) (p : Option σ.Payload) (stack : List (Frame σ)) :
    ∃ r, w.change i t a p stack = some r ∧
      r.world.instances.get? i = some { inst with state := inst.state.write t } ∧
      r.world.journal = .wrote i inst.state.value t a p :: w.journal := by
  refine ⟨_, by simp only [change, hi, Option.bind_eq_bind, Option.bind_some]; rfl, ?_, rfl⟩
  simp only [modifyInstance, record, Roster.get?_modify, if_true, hi, Option.map_some]

/-- **A state variable follows the edges of the machine.** Whatever happens, a write is of the
target that was declared for its action in the state in which this was accepted. If no owner
dispatches on an instance between the acceptance and the write of a transition, this is the state
that the write replaces, and the state variable has walked along the edges of the machine from the
state in which the instance was placed. -/
theorem Reach.follows_edges (h : Reach m ok r) (hd : r.displaced = false) :
    (∀ i s t a p older, .wrote i s t a p :: older <:+ r.world.journal →
      ∃ caller src, .transition i caller src t a ∈ older ∧ m.Edge src a t) ∧
    ((∀ r, ok r → r.undisturbed = true) →
      ∀ i inst, r.world.instances.get? i = some inst →
        (∀ e t a p stack, r.control = .ended e → r.stack = .changing i t a p :: stack →
          m.Edge inst.state.value a t ∧ ∃ r', r.step m = some r' ∧
            r'.world.instances.get? i = some { inst with state := inst.state.write t } ∧
            r'.world.journal = .wrote i inst.state.value t a p :: r.world.journal) ∧
        (∀ e ∈ r.edges i, m.Edge e.1 e.2.1 e.2.2) ∧
        ∃ s₀, .placed i s₀ ∈ r.world.journal ∧ m.config.contains s₀ = true ∧
          m.Walk s₀ (r.edges i) inst.state.value) := by
  refine ⟨fun i s t a p older hw => ?_, fun hu i inst hi => ?_⟩
  · obtain ⟨newer, hw⟩ := hw
    have hpast : .wrote i s t a p :: older.filter Event.vital <:+ r.life.past :=
      ⟨newer.filter Event.vital, by
        rw [Run.life, World.life, ← hw, List.filter_append, List.filter_cons_of_pos rfl]⟩
    obtain ⟨caller, src, hm, he⟩ := h.sourced.wrote i s t a p _ hpast
    exact ⟨caller, src, (List.mem_filter.1 hm).1, he⟩
  · have hal := h.aligned (Run.displaced_eq_false_iff.1 hd) hu
    have hi' : r.life.instances i = some inst.standing := World.life_instances hi
    obtain ⟨s₀, hplaced, hdecl, hwalk⟩ := hal.walk i _ hi'
    rw [r.edges_life] at hwalk
    refine ⟨fun e t a p stack hc hs => ⟨?_, ?_⟩, hwalk.edge,
      s₀, (Run.mem_past rfl).1 hplaced, hdecl, hwalk⟩
    · have hmem : .changing i t a p ∈ r.life.stages :=
        (Run.mem_stages_iff (by rfl)).2 ⟨_, hs ▸ List.mem_cons_self, rfl⟩
      exact (hal.due i t a p _ hmem hi').2
    · simp only [Run.step, hc, hs, World.proceed]
      exact World.change_writes hi t a p stack

/-- The lamp has made one transition while it was placed, along the edge of its first state. -/
theorem lamp_edges : Lamp.lit.edges 0 = [(false, (), true)] ∧ Lamp.machine.Edge false () true ∧
    ∃ s₀, Lamp.machine.Walk s₀ [(false, (), true)] true := by
  have h : Reach Lamp.machine (fun r => r.undisturbed = true) Lamp.lit :=
    (Reach.start _).steps (by decide +kernel)
  have hedges : Lamp.lit.edges 0 = [(false, (), true)] := rfl
  obtain ⟨-, hfollows⟩ := h.follows_edges (by decide +kernel)
  obtain ⟨-, hedge, s₀, -, -, hwalk⟩ := hfollows (fun _ => id) 0 _ rfl
  rw [hedges] at hedge hwalk
  exact ⟨hedges, hedge _ List.mem_cons_self, s₀, hwalk⟩

namespace Lamp

/-- A lamp whose first state has a cleanup that sends another dispatch to the lamp. -/
def hasty : Machine sig where
  config := ⟨.ofPairs
    [(false, {
        transitions := .ofPairs [((), true)]
        effect := some (.finish (.cleanup (.send "lamp" () none .ofReply))) }),
      (true, {})]⟩
  initialState := false
  initialContext := (0 : Nat)
  spawner := none
  declared := by decide

def hastyPlaced : Run sig := placement.steps hasty 7

theorem over_hastyPlaced : hastyPlaced.Over := Option.isSome_iff_exists.1 (by decide +kernel)

/-- A dispatch on this lamp, with all that comes of it. -/
def rewritten : Run sig :=
  (Run.ofCode hastyPlaced.world (.send "lamp" () none .ofReply)).steps hasty 20

/-- **A disturbed transition may follow no edge.** The cleanup of the first state has moved the lamp
to the second one when the transition that runs the cleanup comes to its write; it replaces the
second state, which accepts nothing. -/
theorem rewrites : Reach hasty (fun _ => True) rewritten ∧ rewritten.Over ∧
    rewritten.displaced = false ∧ rewritten.edges 0 = [(true, (), true), (false, (), true)] ∧
    ¬ hasty.Edge true () true := by
  have hplaced : Reach hasty (fun _ => True) hastyPlaced := (Reach.start _).steps fun _ _ => trivial
  have hcall := over_hastyPlaced.turn_call (.send "lamp" () none .ofReply)
  have hover : rewritten.Over := Option.isSome_iff_exists.1 (by decide +kernel)
  refine ⟨(hplaced.turn hcall).steps fun _ _ => trivial, hover, by decide +kernel, rfl, ?_⟩
  rintro ⟨he, -⟩
  cases he

end Lamp

end Statechart
