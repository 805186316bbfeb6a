import Statechart.Proofs.Activation.Discipline
import Statechart.Proofs.Activation.Handle
import Statechart.Proofs.Run.Stack
import Statechart.Proofs.Transition.Edges

/-!
The passage of an instance from one state to the next. A transition exits what is live, writes the
state variable and enters the target; in between it waits for user code: the abort observer, the
cleanup, the observers of the state. Meanwhile its own frame stays on the stack, and as long as no
owner dispatches on the instance, nothing else happens to this: whatever has been exited is over, so
that no handle can ask for a second transition or write the context.
-/

namespace Statechart

variable {σ : Signature} {m : Machine σ} {ok : Run σ → Prop} {r r' : Run σ} {l : Life σ}
  {i : InstanceId} {k : ActivationId} {stack base : List (Frame σ)}

/-! ### What happens to one instance -/

/-- Whether an event belongs to the course of instance `i`: its placement, its transitions, exits,
writes and entries. -/
def Event.stirs (i : InstanceId) : Event σ → Bool
  | placed j _ | transition j _ _ _ _ | exiting j _ _ | wrote j _ _ _ _ | entered j _ _ _
  | started j _ _ _ _ | contextSet j _ _ => j = i
  | _ => false

/-- What has happened to instance `i`, the latest first. -/
def Life.chronicle (l : Life σ) (i : InstanceId) : List (Event σ) := l.past.filter (Event.stirs i)

/-- What has happened to instance `i`, the latest first. -/
def Run.chronicle (r : Run σ) (i : InstanceId) : List (Event σ) :=
  r.world.journal.filter (Event.stirs i)

theorem World.chronicle_life (w : World σ) (stages : List (Stage σ)) (i : InstanceId) :
    (w.life stages).chronicle i = w.journal.filter (Event.stirs i) := by
  simp only [Life.chronicle, life, List.filter_filter]
  refine List.filter_congr fun e _ => ?_
  cases e <;> simp [Event.stirs, Event.vital]

theorem Run.chronicle_life (r : Run σ) (i : InstanceId) : r.life.chronicle i = r.chronicle i :=
  World.chronicle_life ..

/-- Whether what happens next is not a dispatch by an owner on instance `i` in transit. -/
def Run.heeds (r : Run σ) (i : InstanceId) : Bool :=
  match r.control with
  | .code _ (.send slot _ _ _) => (r.world.slots.get? slot).all fun j => j ≠ i || !r.inTransit i
  | _ => true

theorem Run.calm_of_heeds (h : r.heeds i = true) (hs : r.Sends i) : r.life.Calm i := by
  obtain ⟨t, slot, a, p, next, hc, hi⟩ := hs
  have hrest : r.inTransit i = false := by simpa [heeds, hc, hi] using h
  intro g hg ht
  rw [inTransit_iff.2 ⟨g, hg, ht⟩] at hrest
  cases hrest

/-- An instance on which no owner dispatches in transit is tended. -/
theorem Reach.tended (h : Reach m ok r) (hok : ∀ r, ok r → r.heeds i = true) : r.life.Tended i :=
  h.life_induction (P := fun l => l.Tended i) (.unplaced .empty (Nat.zero_le _))
    fun r _ hr hk ih hm => ih.move hr.sound (Run.calm_of_heeds (hok r hk)) hm

theorem Life.chronicle_note {e : Event σ} (he : e.stirs i = false) :
    (l.note e).chronicle i = l.chronicle i :=
  List.filter_cons_of_neg (by simp [he])

namespace Life.Tended

variable {f g : Stage σ} {rest : List (Stage σ)}

/-- What takes an instance to an entry is the only thing of its kind. -/
theorem alone (h : l.Tended i) (hst : l.stages = f :: rest) (hf : f.enters? = some i)
    (hg : g.enters? = some i) : g ∉ rest := by
  have single := h.single
  rw [hst] at single
  exact fun hmem => (List.pairwise_cons.1 single).1 g hmem hf (Stage.transit?_of_enters? hg)

/-- An instance in transit does not depart. -/
theorem departed (h : r.life.Tended i) (ho : r.Sends i → r.life.Calm i) (hg : g ∈ r.life.stages)
    (he : g.enters? = some i) {j : InstanceId} {d : Departure σ} (hd : d.Due m r j) :
    (d.event j).stirs i = false := by
  cases d with
  | release => rfl
  | transition caller s t a p =>
    refine decide_eq_false fun e => ?_
    subst e
    exact h.calm_of_due ho hd g hg (Stage.transit?_of_enters? he)

/-- **While a transition of an instance is under way, nothing else happens to the instance.** -/
theorem unstirred (h : r.life.Tended i) (hs : r.life.Sound) (ho : r.Sends i → r.life.Calm i)
    (hm : Move m r l) (hg : g ∈ r.life.stages) (hg' : g ∈ l.stages) (he : g.enters? = some i) :
    l.instances i = r.life.instances i ∧ l.chronicle i = r.life.chronicle i := by
  have ht := Stage.transit?_of_enters? he
  have vacant : ∀ s, r.life.instances i = some s → s.active = none := fun s hi =>
    h.vacant s hi g hg ht
  -- an entry that is made is that of another instance, or it would have been the stage `g`
  have entered {j : InstanceId} {tr : Trigger σ.Action} {p : Option σ.Payload}
      {rest : List (Stage σ)} (hst : r.life.stages = .entering j tr p :: rest) (hg : g ∈ rest) :
      j ≠ i :=
    fun e => h.alone hst (congrArg some e) he hg
  cases hm with
  | place =>
    have hlt := hs.transits g hg i ht
    exact ⟨if_neg (Nat.ne_of_lt hlt), chronicle_note (decide_eq_false (Nat.ne_of_gt hlt))⟩
  | depart _ _ hd => exact ⟨rfl, chronicle_note (h.departed ho hg he hd)⟩
  | @exit j s k b d hj ha hk hd =>
    have hji : j ≠ i := by
      rintro rfl
      rw [vacant s hj] at ha
      cases ha
    refine ⟨if_neg hji.symm, (chronicle_note rfl).trans ((chronicle_note ?_).trans
      (chronicle_note (h.departed ho hg he hd)))⟩
    exact decide_eq_false hji
  | @change j t a p rest s hst hj =>
    have hji : j ≠ i := by
      rintro rfl
      rw [hst] at hg
      obtain rfl := (List.mem_cons.1 hg).resolve_right (h.alone hst rfl he)
      exact h.alone hst rfl he ((List.mem_cons.1 hg').resolve_left nofun)
    exact ⟨if_neg hji.symm, chronicle_note (decide_eq_false hji)⟩
  | enterBare hst => exact ⟨rfl, chronicle_note (decide_eq_false (entered hst hg'))⟩
  | enter hst =>
    have hji := entered hst ((List.mem_cons.1 hg').resolve_left (by rintro rfl; cases he))
    exact ⟨if_neg hji.symm, chronicle_note (decide_eq_false hji)⟩
  | displace hst =>
    have hji := entered hst ((List.mem_cons.1 hg').resolve_left (by rintro rfl; cases he))
    refine ⟨if_neg hji.symm, (chronicle_note ?_).trans (chronicle_note rfl)⟩
    exact decide_eq_false hji
  | @write k b s c hk hb ho hi =>
    have howner : b.owner ≠ i := by
      rintro rfl
      have hlive := h.live k b s hk rfl hb hi
      rw [vacant s hi] at hlive
      cases hlive
    exact ⟨if_neg howner.symm, chronicle_note (decide_eq_false howner)⟩
  | atOnce => exact ⟨rfl, (chronicle_note rfl).trans (chronicle_note rfl)⟩
  | cleanup | forgo | keep => exact ⟨rfl, chronicle_note rfl⟩
  | quiet | exited | left | close | observe => exact ⟨rfl, rfl⟩

end Life.Tended

/-! ### Passages -/

/-- The code that runs calls for the action `a` on instance `i`: as one of its owners, or through a
handle of one of its activations that is not over. The frames `base` go on when all is done. -/
inductive Run.Calls (r : Run σ) (i : InstanceId) (a : σ.Action) (p : Option σ.Payload) :
    Caller → List (Frame σ) → Prop
  | owner {t slot next} (hc : r.control = .code t (.send slot a p next))
      (hs : r.world.slots.get? slot = some i) :
      Calls r i a p .owner (.owning i :: .resume t next :: r.stack)
  | handle {t next k b} (hc : r.control = .code t (.dispatch a p next))
      (ht : t.activation? = some k) (hk : r.world.activations.get? k = some b) (ho : b.owner = i)
      (hb : b.signal.aborted = false) (hl : alive r.world r.stack i = true) :
      Calls r i a p (.handle k) (.pinning i :: .resume t next :: r.stack)

theorem Run.Calls.step {a : σ.Action} {p : Option σ.Payload} {caller : Caller}
    (h : r.Calls i a p caller base) : r.step m = r.world.dispatch m i caller a p base := by
  cases h with
  | owner hc hs => exact step_send hs hc
  | handle hc ht hk ho hb hl => exact step_dispatch ht hk ho hb hl hc

/-- A transition of an instance, as it is accepted. -/
structure Passage (σ : Signature) where
  owner : InstanceId
  caller : Caller
  action : σ.Action
  target : σ.State
  payload : Option σ.Payload
  /-- The instance, before anything is done. -/
  before : Instance σ
  /-- What has happened to the instance, the latest first. -/
  past : List (Event σ)
  /-- What goes on when the transition is over. -/
  base : List (Frame σ)

/-- From `r` on, and as long as no owner dispatches on instance `i` in transit, `P` holds until
`base` goes on, whatever user code does meanwhile; and `Q` holds at that moment. -/
def Run.Until (m : Machine σ) (i : InstanceId) (base : List (Frame σ)) (P Q : Run σ → Prop)
    (r : Run σ) : Prop :=
  ∀ r', r.Path m (fun r => r.heeds i = true ∧ ¬ r.Back base) r' → P r' ∧ (r'.Back base → Q r')

namespace Passage

/-- The run makes this transition with the next step. -/
structure Begins (m : Machine σ) (c : Passage σ) (r : Run σ) : Prop where
  calls : r.Calls c.owner c.action c.payload c.caller c.base
  stands : r.world.instances.get? c.owner = some c.before
  edge : m.Edge c.before.state.value c.action c.target
  past : r.chronicle c.owner = c.past

def source (c : Passage σ) : σ.State := c.before.state.value

/-- The stack of a transition that has come to its write. -/
def writing (c : Passage σ) : List (Frame σ) :=
  .changing c.owner c.target c.action c.payload :: c.base

/-- The stack of a transition that has come to its entry. -/
def arriving (c : Passage σ) : List (Frame σ) :=
  .entering c.owner (.action c.action) c.payload :: c.base

/-- What has happened to the instance once the exit has begun. -/
def exited (c : Passage σ) : List (Event σ) :=
  (c.before.active.toList.map fun k => .exiting c.owner k c.source) ++
    .transition c.owner c.caller c.source c.target c.action :: c.past

/-- What has happened to the instance once the state variable is written. -/
def written (c : Passage σ) : List (Event σ) :=
  .wrote c.owner c.source c.target c.action c.payload :: c.exited

/-- The transition waits until `stack` goes on. The instance is in the state `s`, has the context
that it had at the beginning, and has no live activation; `past` has happened to it. -/
structure Waits (c : Passage σ) (stack : List (Frame σ)) (s : σ.State) (past : List (Event σ))
    (r : Run σ) : Prop where
  upon : stack <:+ r.stack
  stands : ∃ inst, r.world.instances.get? c.owner = some inst ∧
    inst.standing = ⟨s, c.before.context.value, none⟩
  past : r.chronicle c.owner = past

/-- The target is entered: its effect is started, if it has one. -/
def Arrives (m : Machine σ) (c : Passage σ) (r : Run σ) : Prop :=
  match m.config.effect? c.target with
  | none => r.step m =
      some ⟨r.world.record (.entered c.owner c.target (.action c.action) c.payload), .ended .done,
        c.base⟩
  | some effect => r.step m =
      some ⟨r.world.begin c.owner c.target (.action c.action) c.payload,
        .code (.environment r.world.activations.size (.action c.action) c.payload) effect,
        .body r.world.activations.size :: c.base⟩

/-- The observers are called one after the other, and then the target is entered. -/
def Tells (m : Machine σ) (c : Passage σ) : List (Notice σ × Code σ) → Run σ → Prop
  | [], r => r.step m = some ⟨r.world, .ended .done, c.arriving⟩ ∧
      c.Arrives m ⟨r.world, .ended .done, c.arriving⟩
  | (notice, call) :: calls, r =>
    let stack := .notifying calls :: c.arriving
    let r' : Run σ := ⟨r.world.record notice.event, .code .bare call, stack⟩
    r.step m = some r' ∧
      r'.Until m c.owner stack (c.Waits stack c.target c.written) (c.Tells m calls)

/-- The state variable is written, and then whoever observes it is told, in the order in which they
have subscribed. -/
def Writes (m : Machine σ) (c : Passage σ) (r : Run σ) : Prop :=
  ∃ inst, r.world.instances.get? c.owner = some inst ∧
    let w :=
      (r.world.record (.wrote c.owner c.source c.target c.action c.payload)).modifyInstance c.owner
        fun inst => { inst with state := inst.state.write c.target }
    let calls := inst.state.observers.map fun o =>
      (Notice.state c.owner o.1 c.target, o.2 c.target)
    let r' : Run σ := ⟨w, .ended .done, .notifying calls :: c.arriving⟩
    r.step m = some r' ∧ c.Tells m calls r'

/-- Whoever waits for the end of activation `k` is woken, and then its cleanup runs; the write comes
when this is over. -/
def Exits (m : Machine σ) (c : Passage σ) (k : ActivationId) (a : Activation σ) (r : Run σ) :
    Prop :=
  let w := a.signal.woken.foldl World.fireWaker r.world
  match a.cleanup with
  | none => r.step m = some ⟨w, .ended .done, c.writing⟩ ∧ c.Writes m ⟨w, .ended .done, c.writing⟩
  | some d =>
    let w := w.record (.cleanupRun d.author k)
    let r' : Run σ := ⟨w, .code (.handle d.author) d.code, c.writing⟩
    r.step m = some r' ∧
      r'.Until m c.owner c.writing (c.Waits c.writing c.source c.exited) (c.Writes m)

/-- **The passage in its order.** The live activation, if there is one, is torn down with the
transition, which closes its window and fires its signal. Then its abort observer runs, and after
that the exit goes on; without a live activation, the write comes at once. -/
def Passes (m : Machine σ) (c : Passage σ) (r : Run σ) : Prop :=
  let w := r.world.record (.transition c.owner c.caller c.source c.target c.action)
  match c.before.active with
  | none => r.step m = some ⟨w, .ended .done, c.writing⟩ ∧ c.Writes m ⟨w, .ended .done, c.writing⟩
  | some k => ∃ a, r.world.activations.get? k = some a ∧
    let stack := .exiting k a.signal.woken a.cleanup :: c.writing
    let r' := (w.tearDown c.owner k c.source).observing k a.signal.fired stack
    r.step m = some r' ∧
      r'.Until m c.owner stack (c.Waits stack c.source c.exited) (c.Exits m k a)

/-! ### What user code leaves alone -/

variable {c : Passage σ} {s : σ.State} {past : List (Event σ)}

theorem waits_iff : c.Waits stack s past r ↔ stack <:+ r.stack ∧
    r.life.instances c.owner = some ⟨s, c.before.context.value, none⟩ ∧
    r.life.chronicle c.owner = past := by
  rw [r.chronicle_life]
  constructor
  · rintro ⟨hupon, ⟨inst, hi, hs⟩, hp⟩
    exact ⟨hupon, Option.map_eq_some_iff.2 ⟨inst, hi, hs⟩, hp⟩
  · rintro ⟨hupon, hi, hp⟩
    exact ⟨hupon, Option.map_eq_some_iff.1 hi, hp⟩

/-- Whoever looks at the instance meanwhile finds this state and this context. -/
theorem Waits.peek? (h : c.Waits stack s past r) {slot : String}
    (hs : r.world.slots.get? slot = some c.owner) :
    r.world.peek? m slot = some ⟨s, c.before.context.value, m.isFinal s⟩ := by
  obtain ⟨inst, hi, hstand⟩ := h.stands
  obtain ⟨hstate, hcontext, -⟩ := Standing.mk.inj hstand
  simp [World.peek?, hs, hi, hstate, hcontext]

/-- A frame of the stack takes the instance to its next entry. -/
def Carries (c : Passage σ) (stack : List (Frame σ)) : Prop :=
  ∃ f ∈ stack, ∃ g, f.stage? = some g ∧ g.body? = none ∧ g.enters? = some c.owner

theorem carries_writing (c : Passage σ) : c.Carries c.writing :=
  ⟨_, List.mem_cons_self, _, rfl, rfl, rfl⟩

theorem carries_arriving (c : Passage σ) : c.Carries c.arriving :=
  ⟨_, List.mem_cons_self, _, rfl, rfl, rfl⟩

theorem Carries.cons (h : c.Carries stack) (f : Frame σ) : c.Carries (f :: stack) := by
  obtain ⟨g, hg, hstage⟩ := h
  exact ⟨g, List.mem_cons_of_mem _ hg, hstage⟩

/-- What leaves the instance alone leaves a transition waiting. -/
theorem Waits.same (h : c.Waits base s past r) (hu : stack <:+ r'.stack)
    (hi : r'.life.instances c.owner = r.life.instances c.owner)
    (hp : r'.life.chronicle c.owner = r.life.chronicle c.owner) : c.Waits stack s past r' := by
  obtain ⟨-, hi₀, hp₀⟩ := waits_iff.1 h
  exact waits_iff.2 ⟨hu, hi.trans hi₀, hp.trans hp₀⟩

/-- A transition that waits goes on waiting. -/
theorem Waits.step (h : c.Waits stack s past r) (hr : Reach m (fun r => r.heeds c.owner = true) r)
    (hc : c.Carries stack) (hok : r.heeds c.owner = true) (hn : ¬ r.Back stack)
    (hs : r.step m = some r') : c.Waits stack s past r' := by
  obtain ⟨above, habove⟩ := h.upon
  obtain ⟨f, hf, g, hfg, hbody, henters⟩ := hc
  obtain ⟨above', habove', -⟩ := Run.above_step hs habove.symm hn
  have hbefore : g ∈ r.life.stages :=
    (Run.mem_stages_iff hbody).2 ⟨f, habove ▸ List.mem_append_right _ hf, hfg⟩
  have hafter : g ∈ r'.life.stages :=
    (Run.mem_stages_iff hbody).2 ⟨f, habove' ▸ List.mem_append_right _ hf, hfg⟩
  obtain ⟨hi, hp⟩ := (hr.tended fun _ => id).unstirred hr.sound (Run.calm_of_heeds hok)
    (Run.move_step hs) hbefore hafter henters
  exact h.same ⟨above', habove'.symm⟩ hi hp

theorem Waits.turn (h : c.Waits stack s past r) (ht : r.Turn r') : c.Waits stack s past r' := by
  have hlife := Run.life_turn ht
  exact h.same (h.upon.trans (Run.upon_turn (n := 0) ht).suffix) (by rw [hlife]) (by rw [hlife])

/-- **A transition waits until its part of the stack goes on.** -/
theorem Waits.until {Q : Run σ → Prop} (h : c.Waits stack s past r)
    (hr : Reach m (fun r => r.heeds c.owner = true) r)
    (hc : c.Carries stack)
    (hq : ∀ r', Reach m (fun r => r.heeds c.owner = true) r' → c.Waits stack s past r' →
      r'.Back stack → Q r') :
    r.Until m c.owner stack (c.Waits stack s past) Q := by
  intro r' hp
  have hreach (r' : Run σ) (hp : r.Path m (fun r => r.heeds c.owner = true ∧ ¬ r.Back stack) r') :
      Reach m (fun r => r.heeds c.owner = true) r' := hr.path (hp.mono fun _ h => h.1)
  have hwaits : c.Waits stack s past r' := by
    induction hp with
    | refl => exact h
    | step hp hok hs ih => exact ih.step (hreach _ hp) hc hok.1 hok.2 hs
    | turn _ ht ih => exact ih.turn ht
  exact ⟨hwaits, hq r' (hreach r' hp) hwaits⟩

/-! ### One part after the other -/

/-- As nothing is live, the entry displaces nothing; and it is made into the target. -/
theorem arrives_of_waits (h : c.Waits c.arriving c.target past r) (hb : r.Back c.arriving) :
    c.Arrives m r := by
  obtain ⟨w, e, rfl⟩ := hb.eq
  obtain ⟨inst, hi, hs⟩ := h.stands
  obtain ⟨hstate, -, hvacant⟩ := Standing.mk.inj hs
  unfold Arrives
  split
  · next he =>
    exact (World.enter_bare hi (hstate ▸ he) _).trans (by rw [hstate])
  · next effect he =>
    refine (World.enter_effect hi (hstate ▸ he) _).trans ?_
    rw [hvacant, hstate]

/-- By induction on the observers that are still to be called. -/
theorem tells_of_waits {calls : List (Notice σ × Code σ)}
    (h : c.Waits (.notifying calls :: c.arriving) c.target c.written r)
    (hr : Reach m (fun r => r.heeds c.owner = true) r)
    (hb : r.Back (.notifying calls :: c.arriving)) : c.Tells m calls r := by
  induction calls generalizing r with
  | nil =>
    obtain ⟨w, e, rfl⟩ := hb.eq
    have hwaits : c.Waits c.arriving c.target c.written ⟨w, .ended .done, c.arriving⟩ :=
      ⟨List.suffix_rfl, h.stands, h.past⟩
    exact ⟨rfl, arrives_of_waits hwaits (Run.back_ended ..)⟩
  | cons call calls ih =>
    obtain ⟨notice, call⟩ := call
    obtain ⟨w, e, rfl⟩ := hb.eq
    have hstep : Run.step m ⟨w, .ended e, .notifying ((notice, call) :: calls) :: c.arriving⟩ =
        some ⟨w.record notice.event, .code .bare call, .notifying calls :: c.arriving⟩ := rfl
    have hwaits : c.Waits (.notifying calls :: c.arriving) c.target c.written
        ⟨w.record notice.event, .code .bare call, .notifying calls :: c.arriving⟩ := by
      refine ⟨List.suffix_rfl, h.stands, ?_⟩
      rw [← h.past]
      cases notice <;> rfl
    exact ⟨hstep, hwaits.until (hr.step rfl hstep) (c.carries_arriving.cons _)
      fun r' hr' h' => ih h' hr'⟩

/-- The write replaces the state in which the action was accepted. -/
theorem writes_of_waits (h : c.Waits c.writing c.source c.exited r)
    (hr : Reach m (fun r => r.heeds c.owner = true) r) (hb : r.Back c.writing) :
    c.Writes m r := by
  obtain ⟨w, e, rfl⟩ := hb.eq
  obtain ⟨inst, hi, hs⟩ := h.stands
  obtain ⟨hstate, hcontext, hvacant⟩ := Standing.mk.inj hs
  let w' : World σ :=
    (w.record (.wrote c.owner c.source c.target c.action c.payload)).modifyInstance c.owner
      fun inst => { inst with state := inst.state.write c.target }
  let calls := inst.state.observers.map fun o => (Notice.state c.owner o.1 c.target, o.2 c.target)
  have hstep : Run.step m ⟨w, .ended e, c.writing⟩ =
      some ⟨w', .ended .done, .notifying calls :: c.arriving⟩ := by
    have hchange : w.change c.owner c.target c.action c.payload c.base =
        some ⟨w', .ended .done, .notifying calls :: c.arriving⟩ := by
      simp only [World.change, hi, Option.bind_eq_bind, Option.bind_some]
      rw [show inst.state.value = c.source from hstate]
      rfl
    exact hchange
  have hwaits : c.Waits (.notifying calls :: c.arriving) c.target c.written
      ⟨w', .ended .done, .notifying calls :: c.arriving⟩ := by
    refine ⟨List.suffix_rfl, ⟨{ inst with state := inst.state.write c.target }, ?_, ?_⟩, ?_⟩
    · exact (Roster.get?_modify ..).trans ((if_pos rfl).trans (congrArg _ hi))
    · rw [Instance.standing, hcontext, hvacant]
      rfl
    · exact (List.filter_cons_of_pos (by simp [Event.stirs])).trans (congrArg _ h.past)
  exact ⟨inst, hi, hstep, tells_of_waits hwaits (hr.step rfl hstep) (Run.back_ended ..)⟩

/-- Waking others leaves the instance alone. -/
theorem exits_of_waits {a : Activation σ}
    (h : c.Waits (.exiting k a.signal.woken a.cleanup :: c.writing) c.source c.exited r)
    (hr : Reach m (fun r => r.heeds c.owner = true) r)
    (hb : r.Back (.exiting k a.signal.woken a.cleanup :: c.writing)) : c.Exits m k a r := by
  obtain ⟨w, e, rfl⟩ := hb.eq
  have hlife (stages) := World.life_foldl_fireWaker (w := w) (s := stages) a.signal.woken
  unfold Exits
  split
  · next hc =>
    have hstep : Run.step m ⟨w, .ended e, .exiting k a.signal.woken a.cleanup :: c.writing⟩ =
        some ⟨a.signal.woken.foldl World.fireWaker w, .ended .done, c.writing⟩ := by
      simp only [Run.step, World.proceed, hc]
    refine ⟨hstep, writes_of_waits ?_ (hr.step rfl hstep) (Run.back_ended ..)⟩
    exact h.same List.suffix_rfl (by rw [Run.life, hlife]; rfl) (by rw [Run.life, hlife]; rfl)
  · next d hc =>
    have hstep : Run.step m ⟨w, .ended e, .exiting k a.signal.woken a.cleanup :: c.writing⟩ =
        some ⟨(a.signal.woken.foldl World.fireWaker w).record (.cleanupRun d.author k),
          .code (.handle d.author) d.code, c.writing⟩ := by
      simp only [Run.step, World.proceed, hc]
    refine ⟨hstep, Waits.until ?_ (hr.step rfl hstep) c.carries_writing
      fun r' hr' h' => writes_of_waits h' hr'⟩
    refine h.same List.suffix_rfl ?_ ?_
    · rw [Run.life, World.life_record, hlife]
      rfl
    · rw [Run.life, World.life_record, hlife]
      rfl

/-- **A transition that begins makes its passage in order.** -/
theorem passes_of_begins (h : c.Begins m r) (hr : Reach m (fun r => r.heeds c.owner = true) r)
    (hok : r.heeds c.owner = true) : c.Passes m r := by
  have hstep : r.step m = (r.world.record (.transition c.owner c.caller c.source c.target
      c.action)).exit c.owner c.writing := by
    rw [h.calls.step]
    simp only [World.dispatch, h.stands, Option.bind_eq_bind, Option.bind_some, h.edge.1, h.edge.2,
      if_true]
    rfl
  have hchronicle : (r.world.record (.transition c.owner c.caller c.source c.target c.action)
      ).journal.filter (Event.stirs c.owner) =
      .transition c.owner c.caller c.source c.target c.action :: c.past :=
    (List.filter_cons_of_pos (by simp [Event.stirs])).trans (congrArg _ h.past)
  unfold Passes
  split
  · next ha =>
    replace hstep := hstep.trans (World.exit_of_vacant (w := r.world.record _) h.stands ha _)
    refine ⟨hstep, writes_of_waits ⟨List.suffix_rfl, ⟨c.before, h.stands, ?_⟩, ?_⟩
      (hr.step hok hstep) (Run.back_ended ..)⟩
    · rw [Instance.standing, ha, source]
    · rw [exited, ha]
      exact hchronicle
  · next k ha =>
    obtain ⟨t, ht, -⟩ := hr.sound.active c.owner _ k (World.life_instances h.stands) ha
    obtain ⟨a, hk, -⟩ := Option.map_eq_some_iff.1 ht
    replace hstep := hstep.trans (World.exit_of_active (w := r.world.record _) h.stands ha hk _)
    refine ⟨a, hk, hstep, Waits.until (waits_iff.2 ⟨?_, ?_, ?_⟩) (hr.step hok hstep)
      (c.carries_writing.cons _) fun r' hr' h' => exits_of_waits h' hr'⟩
    · cases a.signal.fired <;> exact List.suffix_rfl
    · rw [World.life_observing, World.life_tearDown]
      refine (if_pos rfl).trans ?_
      exact congrArg (Option.map _) (World.life_instances (s := []) h.stands)
    · rw [World.life_observing, World.life_tearDown, exited, ha]
      refine (List.filter_cons_of_neg (by simp [Event.stirs])).trans ?_
      refine (List.filter_cons_of_pos (by simp [Event.stirs])).trans ?_
      exact congrArg _ ((World.chronicle_life ..).trans hchronicle)

end Passage

/-! ### Starts and exits -/

/-- The log line that reports the start or the exit of an effect of instance `i`. -/
def Event.effectLine? (i : InstanceId) (e : Event σ) : Option LogLine :=
  match e with
  | started j _ _ _ _ | exiting j _ _ => if j = i then e.line? else none
  | _ => none

/-- Log lines, the latest first, that report starts and exits by turns, where each exit names the
state of the start before it. The state is that of a start without an exit, if there is one. -/
inductive Alternate : Option σ.State → List LogLine → Prop
  | nothing : Alternate none []
  | start {lines} (s : σ.State) (tr : Trigger σ.Action) (h : Alternate none lines) :
      Alternate (some s)
        (⟨.debug, "starting effect", [Event.stateField s, Event.triggerField tr]⟩ :: lines)
  | exit {lines} {s : σ.State} (h : Alternate (some s) lines) :
      Alternate none (⟨.debug, "exiting effect", [Event.stateField s]⟩ :: lines)

/-- The log lines on the effects of instance `i`, the latest first. -/
def Life.effectLines (l : Life σ) (i : InstanceId) : List LogLine :=
  l.past.filterMap (Event.effectLine? i)

/-- The log lines on the effects of instance `i`, the latest first. -/
def Run.effectLines (r : Run σ) (i : InstanceId) : List LogLine :=
  r.world.journal.filterMap (Event.effectLine? i)

/-- Starts and exits of instance `i` have alternated, and what is live was started in the current
state. -/
structure Life.Alternating (l : Life σ) (i : InstanceId) : Prop where
  unplaced : l.instances i = none → l.effectLines i = []
  alternate : ∀ s, l.instances i = some s →
    Alternate (s.active.map fun _ => s.state) (l.effectLines i)

namespace Life.Alternating

theorem congr {l' : Life σ} (h : l.Alternating i) (hp : l'.effectLines i = l.effectLines i)
    (hi : l'.instances i = l.instances i) : l'.Alternating i where
  unplaced hn := hp.trans (h.unplaced (hi ▸ hn))
  alternate s hs := hp ▸ h.alternate s (hi ▸ hs)

theorem note {e : Event σ} (h : l.Alternating i) (he : e.effectLine? i = none) :
    (l.note e).Alternating i :=
  h.congr (List.filterMap_cons_none he) rfl

theorem on (h : l.Alternating i) (stages : List (Stage σ)) : (l.on stages).Alternating i :=
  h.congr rfl rfl

theorem modifyActivation (h : l.Alternating i) (k : ActivationId) (f : Tenure σ → Tenure σ) :
    (l.modifyActivation k f).Alternating i :=
  h.congr rfl rfl

/-- What an instance is changed in makes no difference as long as it is not what is live. -/
theorem modifyInstance (h : l.Alternating i) {j : InstanceId} {f : Standing σ → Standing σ}
    (hf : ∀ s, j = i → l.instances j = some s →
      ((f s).active.map fun _ => (f s).state) = s.active.map fun _ => s.state) :
    (l.modifyInstance j f).Alternating i where
  unplaced hn := by
    refine h.unplaced (Option.eq_none_iff_forall_ne_some.2 fun s hs => ?_)
    cases hn.symm.trans (modifyInstance_eq_some.2 ⟨s, hs, rfl⟩)
  alternate s hs := by
    obtain ⟨u, hu, rfl⟩ := modifyInstance_eq_some.1 hs
    split
    · next hi =>
      subst hi
      exact hf u rfl hu ▸ h.alternate u hu
    · exact h.alternate u hu

theorem addInstance (h : l.Alternating i) (hl : l.instances l.placed = none) {s : Standing σ}
    (ha : s.active = none) : (l.addInstance s).Alternating i := by
  by_cases hi : i = l.placed
  · have hnew : (l.addInstance s).instances i = some s := if_pos hi
    refine ⟨fun hn => ?_, fun u hu => ?_⟩
    · cases hn.symm.trans hnew
    · obtain rfl := Option.some.inj (hu.symm.trans hnew)
      rw [ha]
      exact h.unplaced (hi ▸ hl) ▸ .nothing
  · exact h.congr rfl (if_neg hi)

/-- An entry starts the effect of the state that the instance is in, while nothing is live. -/
theorem begin (h : l.Alternating i) {j : InstanceId} {s : Standing σ} (tr : Trigger σ.Action)
    (p : Option σ.Payload) (hj : l.instances j = some s) (ha : j = i → s.active = none) :
    (l.begin j s.state tr p).Alternating i := by
  by_cases hi : j = i
  · subst hi
    have hlines : (l.begin j s.state tr p).effectLines j =
        ⟨.debug, "starting effect", [Event.stateField s.state, Event.triggerField tr]⟩ ::
          l.effectLines j :=
      List.filterMap_cons_some (if_pos rfl)
    have hlive : (l.begin j s.state tr p).instances j =
        some { s with active := some l.started } := (if_pos rfl).trans (congrArg _ hj)
    refine ⟨fun hn => ?_, fun u hu => ?_⟩
    · cases hn.symm.trans hlive
    · obtain rfl := Option.some.inj (hu.symm.trans hlive)
      have halternate := h.alternate s hj
      rw [ha rfl] at halternate
      rw [hlines]
      exact .start s.state tr halternate
  · exact h.congr (List.filterMap_cons_none (if_neg hi)) (if_neg (Ne.symm hi))

/-- An exit is that of the effect of the state that the instance is in. -/
theorem tearDown (h : l.Alternating i) {j : InstanceId} {s : Standing σ}
    (hj : l.instances j = some s) (ha : s.active = some k) :
    (l.tearDown j k s.state).Alternating i := by
  by_cases hi : j = i
  · subst hi
    have hlines : (l.tearDown j k s.state).effectLines j =
        ⟨.debug, "exiting effect", [Event.stateField s.state]⟩ :: l.effectLines j :=
      (List.filterMap_cons_none rfl).trans (List.filterMap_cons_some (if_pos rfl))
    have hvacant : (l.tearDown j k s.state).instances j = some { s with active := none } :=
      (if_pos rfl).trans (congrArg _ hj)
    refine ⟨fun hn => ?_, fun u hu => ?_⟩
    · cases hn.symm.trans hvacant
    · obtain rfl := Option.some.inj (hu.symm.trans hvacant)
      have halternate := h.alternate s hj
      rw [ha] at halternate
      rw [hlines]
      exact .exit halternate
  · refine h.congr ((List.filterMap_cons_none rfl).trans ?_) (if_neg (Ne.symm hi))
    exact List.filterMap_cons_none (if_neg hi)

theorem depart (h : l.Alternating i) (j : InstanceId) (d : Departure σ) :
    (l.note (d.event j)).Alternating i :=
  h.note (by cases d <;> rfl)

theorem move (h : r.life.Alternating i) (ht : r.life.Tended i) (hs : r.life.Sound)
    (hm : Move m r l) : l.Alternating i := by
  cases hm with
  | quiet => exact h
  | place =>
    have hnone : r.life.instances r.life.placed = none := by
      simpa using (hs.placed r.life.placed).not
    exact ((h.note rfl).addInstance hnone rfl).on _
  | @depart j _ d => exact (h.depart j d).on _
  | @exit j _ _ _ d hj ha => exact ((h.depart j d).tearDown hj ha).on _
  | exited | left => exact h.on _
  | cleanup | enterBare => exact (h.note rfl).on _
  | change hst hj =>
    refine ((h.note rfl).modifyInstance fun s hi hsome => ?_).on _
    -- nothing is live when the state variable is written
    subst hi
    simp [ht.vacant s hsome _ (hst ▸ List.mem_cons_self) rfl]
  | enter _ hj _ ha => exact (h.begin _ _ hj fun _ => ha).on _
  | displace hst hj =>
    refine ((h.note rfl).begin _ _ hj fun hi => ?_).on _
    subst hi
    exact ht.vacant _ hj _ (hst ▸ List.mem_cons_self) rfl
  | close => exact (h.modifyActivation _ _).on _
  | forgo => exact ((h.modifyActivation _ _).note rfl).on _
  | keep => exact (((h.modifyActivation _ _).note rfl).modifyActivation _ _).on _
  | atOnce => exact (((h.modifyActivation _ _).note rfl).note rfl).on _
  | write => exact (h.note rfl).modifyInstance fun _ _ _ => rfl
  | observe => exact h.modifyActivation _ _

end Life.Alternating

theorem Run.effectLines_life (r : Run σ) (i : InstanceId) :
    r.life.effectLines i = r.effectLines i :=
  filterMap_past fun e he => by cases e <;> first | rfl | cases he

theorem Reach.alternating (h : Reach m ok r) (hok : ∀ r, ok r → r.heeds i = true) :
    r.life.Alternating i :=
  h.life_induction (P := fun l => l.Alternating i) ⟨fun _ => rfl, nofun⟩
    fun _ _ hr _ ih hm => ih.move (hr.tended hok) hr.sound hm

/-! ### All of it -/

/-- **Exit before change before entry.** If no owner dispatches on an instance in transit, each of
its transitions makes its passage in one order: the live activation is torn down, its abort observer
runs, whoever waits for its end is woken, its cleanup runs, the state variable is written, the
observers of the state are called, and the target is entered. Whatever user code does in between, it
moves the instance neither to another state nor to another entry, and up to the write it finds it
with the state and the context of the beginning. So the log lines on the effects of the instance
report starts and exits by turns, and each exit names the state of the start before it. -/
theorem Reach.exit_before_entry (h : Reach m (fun r => r.heeds i = true) r) :
    (∀ c : Passage σ, c.owner = i → c.Begins m r → r.heeds i = true → c.Passes m r) ∧
    ∀ inst, r.world.instances.get? i = some inst →
      Alternate (inst.active.map fun _ => inst.state.value) (r.effectLines i) := by
  constructor
  · rintro c rfl hc hok
    exact Passage.passes_of_begins hc h hok
  · intro inst hi
    rw [← r.effectLines_life]
    exact (h.alternating fun _ => id).alternate _ (World.life_instances hi)

namespace Lamp

/-- A dispatch on the lamp, which is lit. -/
def switchedOff : Run sig := .ofCode lit.world (.send "lamp" () none .ofReply)

/-- The transition that comes of it. -/
def fading : Passage sig where
  owner := 0
  caller := .owner
  action := ()
  target := false
  payload := none
  before := ⟨⟨true, []⟩, ⟨(2 : Nat), []⟩, some 1⟩
  past := lit.chronicle 0
  base := [.owning 0, .resume .bare .ofReply]

end Lamp

/-- The lamp goes out in this order, and has been started twice and exited once before. -/
theorem lamp_passage : Lamp.fading.Passes Lamp.machine Lamp.switchedOff ∧
    @Alternate Lamp.sig (some true) (Lamp.switchedOff.effectLines 0) := by
  have hlit : Reach Lamp.machine (fun r => r.heeds 0 = true) Lamp.lit :=
    (Reach.start _).steps (by decide +kernel)
  have h := hlit.turn (Lamp.over_lit.turn_call (.send "lamp" () none .ofReply))
  obtain ⟨hpasses, halternate⟩ := h.exit_before_entry
  have hbegins : Lamp.fading.Begins Lamp.machine Lamp.switchedOff :=
    ⟨.owner rfl rfl, rfl, ⟨rfl, rfl⟩, rfl⟩
  exact ⟨hpasses _ rfl hbegins (by decide +kernel), halternate _ rfl⟩

end Statechart
