import Statechart.Proofs.Activation.Release
import Statechart.Proofs.Loop.Residue
import Statechart.Proofs.Transition.Declared
import Statechart.Proofs.Transition.Entries

/-!
Final states are absorbing. Which states are final is found out once, from the declared transitions,
while a dispatch looks its action up each time; both agree, since an instance never leaves the
declared states. So nothing takes a final instance out of its state again: whatever is dispatched is
ignored, and once no entry of the instance is under way, the windows of its activations are closed.
Only its last owner, who lets it go, has still something to end.
-/

namespace Statechart

variable {σ : Signature} {m : Machine σ} {ok : Run σ → Prop} {r r' : Run σ} {l : Life σ}
  {i : InstanceId} {inst : Instance σ}

/-! ### Instances at rest -/

/-- An activation that a move has started belongs to the instance whose entry was due. -/
theorem Move.starter (hm : Move m r l) (hc : r.life.Counted) {t : Tenure σ}
    (hk : l.activations r.life.started = some t) :
    ∃ tr p rest, r.life.stages = .entering t.owner tr p :: rest := by
  have hnone := hc.activations_started
  have begun {l : Life σ} {j st} (tr : Trigger σ.Action) (p : Option σ.Payload)
      (hk : (l.begin j st tr p).activations l.started = some t) : j = t.owner := by
    simp only [Life.begin, Life.note, Life.modifyInstance, Life.addActivation, if_true] at hk
    exact Option.some.inj hk ▸ rfl
  cases hm
  case enter j tr p rest s c hs hi he ha => exact begun tr p hk ▸ ⟨tr, p, rest, hs⟩
  case displace j tr p rest s c k hs hi he ha => exact begun tr p hk ▸ ⟨tr, p, rest, hs⟩
  case quiet =>
    rw [hnone] at hk
    cases hk
  all_goals
    exfalso
    generalize r.life = l at *
    simp only [Life.note, Life.on, Life.addInstance, Life.modifyInstance, Life.modifyActivation,
      Life.tearDown] at hk
    grind

/-- No call on instance `i` is in progress: it is not in the middle of a transition, and no entry of
it is under way. -/
structure Run.Idle (r : Run σ) (i : InstanceId) : Prop where
  still : r.inTransit i = false
  entered : ∀ k a, r.world.activations.get? k = some a → a.owner = i → r.entering k = false

/-- Nothing is under way for instance `i`, which stands as in `s`, after the entries `vs`. -/
structure Life.Resting (l : Life σ) (i : InstanceId) (s : Standing σ) (vs : List (Visit σ)) :
    Prop where
  stands : l.instances i = some s
  calm : l.Calm i
  shut : ∀ k t, l.activations k = some t → t.owner = i → .entry k ∉ l.stages
  made : l.made i = vs

namespace Life.Resting

variable {s : Standing σ} {vs : List (Visit σ)}

/-- The instance with which a move goes on is not one at rest. -/
theorem not_top (h : l.Resting i s vs) {f : Stage σ} {rest : List (Stage σ)}
    (hs : l.stages = f :: rest) : f.transit? ≠ some i :=
  h.calm f (hs ▸ List.mem_cons_self)

/-- What is in a final state and not let go does not depart. -/
theorem no_departure (h : r.life.Resting i s vs) (hf : ∀ a, m.config.target? s.state a = none)
    {past : List (Event σ)} (hr : .released i ∉ past) {j : InstanceId} {d : Departure σ}
    (hd : d.Due m r j) (hp : d.event j ∈ past) : i ≠ j := by
  rintro rfl
  cases d with
  | release => exact hr hp
  | transition caller src t a p =>
    obtain ⟨⟨st, hst, rfl⟩, ht, -⟩ := hd
    obtain rfl := Option.some.inj (h.stands.symm.trans hst)
    rw [hf a] at ht
    cases ht

theorem placed_ne (h : l.Resting i s vs) (hs : l.Counted) : i ≠ l.placed :=
  Nat.ne_of_lt ((hs.placed i).1 (Option.isSome_of_eq_some h.stands))

section Move

variable (h : r.life.Resting i s vs) (hs : r.life.Sound)
  (hf : ∀ a, m.config.target? s.state a = none) (hr : .released i ∉ l.past) (hm : Move m r l)

include h hs hm

theorem shut_move {k : ActivationId} {t : Tenure σ} (hk : l.activations k = some t)
    (ho : t.owner = i) : .entry k ∉ l.stages := by
  intro hmem
  rcases hm.stage hmem with hold | hnew
  · obtain ⟨u, hu⟩ := Option.isSome_iff_exists.1 ((hs.started k).2 (hs.entries _ hold k rfl))
    obtain ⟨t', ht', hto, -⟩ := hm.ages hs.toCounted hu
    obtain rfl := Option.some.inj (hk.symm.trans ht')
    exact h.shut k u hu (hto.symm.trans ho) hold
  · cases hnew with
    | entry hg =>
      cases hg
      obtain ⟨tr, p, rest, hst⟩ := hm.starter hs.toCounted hk
      exact h.not_top hst (congrArg some ho)
    | placed hg | written hg _ | exits hg _ _ => cases hg
    | @departs j u d hg _ _ _ => cases d <;> cases hg

theorem made_move : l.made i = vs := by
  cases hm.concerns i with
  | rests _ _ hmade _ _ => exact hmade.trans h.made
  | places hi _ _ _ _ _ _ _ _ => exact absurd hi (h.placed_ne hs.toCounted)
  | writes hst _ _ _ _ _ _ => exact absurd rfl (h.not_top hst)
  | enters hst _ _ _ _ _ _ => exact absurd rfl (h.not_top hst)

include hf hr

theorem calm_move : l.Calm i := by
  intro g hg ht
  rcases hm.stage hg with hold | hnew
  · exact h.calm g hold ht
  · cases hnew with
    | entry hg | exits hg _ _ =>
      subst hg
      cases ht
    | placed hg =>
      subst hg
      exact h.placed_ne hs.toCounted (Option.some.inj ht).symm
    | written hg hst =>
      subst hg
      exact h.not_top hst ht
    | departs hg _ hd hp =>
      subst hg
      rw [Departure.transit?_stage] at ht
      exact h.no_departure hf hr hd hp (Option.some.inj ht).symm

theorem stands_move : l.instances i = some s := by
  have stands := h.stands
  have other {j : InstanceId} (hij : i ≠ j) (f : Standing σ → Standing σ) (l : Life σ)
      (hl : l.instances i = some s) : (l.modifyInstance j f).instances i = some s :=
    (if_neg hij).trans hl
  have entered {j : InstanceId} {tr : Trigger σ.Action} {p : Option σ.Payload}
      {rest : List (Stage σ)} (hst : r.life.stages = .entering j tr p :: rest) : i ≠ j :=
    fun e => h.not_top hst (congrArg some e.symm)
  cases hm
  case place => exact (if_neg (h.placed_ne hs.toCounted)).trans stands
  case exit j u k b d hj ha hk hd =>
    refine other (h.no_departure hf hr hd ?_) _ _ stands
    exact List.mem_cons_of_mem _ (List.mem_cons_of_mem _ List.mem_cons_self)
  case change hst hj => exact other (fun e => h.not_top hst (congrArg some e.symm)) _ _ stands
  case enter hst hj he ha => exact other (entered hst) _ _ stands
  case displace hst hj he ha => exact other (entered hst) _ _ stands
  case write k b u c hk hb ho hj =>
    refine other (fun e => ?_) _ _ stands
    exact h.shut k b hk e.symm ((hs.window k b hk).1 ho).2
  all_goals exact stands

/-- **A final instance stays at rest until it is let go.** -/
theorem move : l.Resting i s vs where
  stands := h.stands_move hs hf hr hm
  calm := h.calm_move hs hf hr hm
  shut _ _ := h.shut_move hs hm
  made := h.made_move hs hm

end Move

end Life.Resting

/-- An instance with no call in progress is at rest. -/
theorem Run.Idle.resting (h : r.Idle i) (hi : r.world.instances.get? i = some inst) :
    r.life.Resting i inst.standing (r.life.made i) where
  stands := World.life_instances hi
  calm g hg ht := by
    have hstill := h.still
    rw [Run.inTransit_iff.2 ⟨g, hg, ht⟩] at hstill
    cases hstill
  shut k t hk ho hmem := by
    obtain ⟨a, ha, rfl⟩ := Option.map_eq_some_iff.1 hk
    have hent := h.entered k a ha ho
    rw [Run.entry_mem_stages.1 hmem] at hent
    cases hent
  made := rfl

/-- Once a run is over, no call is in progress. -/
theorem Run.Over.idle (h : r.Over) (i : InstanceId) : r.Idle i := by
  obtain ⟨e, hc, hs⟩ := Run.over_iff.1 h
  exact ⟨by simp [Run.inTransit, hs], fun k _ _ _ => by simp [Run.entering, hc, hs, Control.enters]⟩

/-- **A final instance stays at rest on every path**, until it is let go. -/
theorem Run.Idle.path (hr : Reach m ok r) (h : r.Idle i)
    (hi : r.world.instances.get? i = some inst)
    (hf : ∀ a, m.config.target? inst.state.value a = none) (hp : r.Path m ok r')
    (hn : r'.released i = false) : r'.life.Resting i inst.standing (r.life.made i) := by
  replace hn := Run.released_past hn
  induction hp with
  | refl => exact h.resting hi
  | step hp _ hs ih =>
    have hm := Run.move_step hs
    exact (ih fun hmem => hn (hm.past.subset hmem)).move (hr.path hp).sound hf hn hm
  | turn _ ht ih =>
    rw [Run.life_turn ht] at hn ⊢
    exact ih hn

/-! ### Ignored dispatches -/

theorem World.dispatch_ignored {w : World σ} (hi : w.instances.get? i = some inst) {a : σ.Action}
    (ht : m.config.target? inst.state.value a = none) (caller : Caller) (p : Option σ.Payload)
    (stack : List (Frame σ)) : w.dispatch m i caller a p stack =
      some ⟨w.record (.ignored i inst.state.value a), .ended .done, stack⟩ := by
  simp [dispatch, hi, ht]

/-- The call that code on `t` makes is answered as if it had succeeded. It leaves nothing behind but
an event that has no part in any lifecycle. -/
def Run.Passes (m : Machine σ) (r : Run σ) (t : Target σ) (next : Reply → Code σ) : Prop :=
  ∃ e : Event σ, e.vital = false ∧
    r.Leads m ⟨r.world.record e, .code t (next (some (.ok ()))), r.stack⟩

theorem Run.Passes.of_call {e : Event σ} {f : Frame σ} {t : Target σ} {next : Reply → Code σ}
    (he : e.vital = false)
    (hcall : r.step m = some ⟨r.world.record e, .ended .done, f :: .resume t next :: r.stack⟩)
    (hframe : (r.world.record e).proceed m .done (.resume t next :: r.stack) f =
      some ⟨r.world.record e, .ended .done, .resume t next :: r.stack⟩) : r.Passes m t next :=
  ⟨e, he, 3, steps_call hcall hframe 1⟩

section Ignored

variable (hi : r.world.instances.get? i = some inst) {a : σ.Action}
  (ht : m.config.target? inst.state.value a = none) {t : Target σ} {p : Option σ.Payload}
  {next : Reply → Code σ}

include hi ht

theorem Run.passes_send {slot : String} (hslot : r.world.slots.get? slot = some i)
    (hr : r.control = .code t (.send slot a p next)) : r.Passes m t next := by
  refine .of_call (e := .ignored i inst.state.value a) (f := .owning i) rfl
    ((step_send hslot hr).trans ?_) ?_
  · exact World.dispatch_ignored hi ht .owner p _
  · exact if_pos (owned_of_slot hslot _)

theorem Run.passes_dispatch {k : ActivationId} {b : Activation σ} (hk : t.activation? = some k)
    (hb : r.world.activations.get? k = some b) (ho : b.owner = i)
    (hr : r.control = .code t (.dispatch a p next)) : r.Passes m t next := by
  subst ho
  cases hab : b.signal.aborted with
  | true =>
    refine ⟨.dispatchExpired k b.state a, rfl, .step ?_ (.refl _)⟩
    simp only [step, hr, World.perform]
    exact World.forward_expired hk hb hab a p next
  | false =>
    cases hl : alive r.world r.stack b.owner with
    | false =>
      refine ⟨.dispatchOrphaned k b.state a, rfl, .step ?_ (.refl _)⟩
      simp [step, hr, World.perform, World.forward, hk, hb, hab, hl, World.goOn]
    | true =>
      refine .of_call (e := .ignored b.owner inst.state.value a) (f := .pinning b.owner) rfl
        ((step_dispatch hk hb rfl hab hl hr).trans ?_) rfl
      exact World.dispatch_ignored hi ht (.handle k) p _

end Ignored

/-! ### All of it -/

/-- **Final states are absorbing, and only those.** An instance is final exactly if its current
state accepts no action. From a moment at which it is final and no call on it is in progress, and
until it is let go, it keeps its state, its context and its live activation, and invokes no effect,
whatever user code and the executor do; and every dispatch on it, by its owners or through a handle
of one of its activations, whether that is live or not, is answered as if it had succeeded. -/
theorem Reach.final_absorbs (h : Reach m ok r) (hi : r.world.instances.get? i = some inst) :
    (m.isFinal inst.state.value = true ↔ ∀ a, m.config.target? inst.state.value a = none) ∧
    (m.isFinal inst.state.value = true → r.Idle i →
      ∀ r', r.Path m ok r' → r'.released i = false →
        (∃ inst', r'.world.instances.get? i = some inst' ∧ inst'.standing = inst.standing) ∧
        r'.world.starts i = r.world.starts i ∧
        ∀ t a p next,
          (∀ slot, r'.world.slots.get? slot = some i → r'.control = .code t (.send slot a p next) →
            r'.Passes m t next) ∧
          ∀ k b, t.activation? = some k → r'.world.activations.get? k = some b → b.owner = i →
            r'.control = .code t (.dispatch a p next) → r'.Passes m t next) := by
  have hfinal := Machine.isFinal_iff (m := m) (h.declared hi)
  refine ⟨hfinal, fun hf hidle r' hp hn => ?_⟩
  have hf := hfinal.1 hf
  have hrest := hidle.path h hi hf hp hn
  obtain ⟨inst', hi', hstand⟩ := Option.map_eq_some_iff.1 hrest.stands
  have hstate : inst'.state.value = inst.state.value := congrArg Standing.state hstand
  refine ⟨⟨inst', hi', hstand⟩, ?_, fun t a p next => ⟨fun slot => ?_, fun k b => ?_⟩⟩
  · rw [(h.path hp).starts_eq, h.starts_eq, Run.visits_life, Run.visits_life, hrest.made]
  · exact Run.passes_send hi' (hstate ▸ hf a)
  · exact Run.passes_dispatch hi' (hstate ▸ hf a)

namespace Lamp

/-- The leaky lamp, as it is recovered in its second state. -/
def recovered : Run sig :=
  (Run.ofCode {} (.place "lamp" (.recovered (some true) none) .ofReply)).steps leaky 9

theorem over_recovered : recovered.Over := Option.isSome_iff_exists.1 (by decide +kernel)

/-- A dispatch on this lamp. -/
def recoveredPressed : Run sig := .ofCode recovered.world (.send "lamp" () none .ofReply)

end Lamp

/-- The leaky lamp is at rest in its second state, and stays there when it is pressed. -/
theorem lamp_final : Lamp.leaky.isFinal true = true ∧
    Lamp.recoveredPressed.Passes Lamp.leaky .bare .ofReply ∧
    ∃ inst, (Lamp.recoveredPressed.steps Lamp.leaky 5).world.instances.get? 0 = some inst ∧
      inst.standing = ⟨true, (0 : Nat), some 0⟩ := by
  have h : Reach Lamp.leaky (fun _ => True) Lamp.recovered :=
    (Reach.start _).steps fun _ _ => trivial
  have hfinal : Lamp.leaky.isFinal true = true := by decide +kernel
  have hidle := Lamp.over_recovered.idle 0
  have hpressed : Lamp.recovered.Path Lamp.leaky (fun _ => True) Lamp.recoveredPressed :=
    .turn .refl (Lamp.over_recovered.turn_call _)
  obtain ⟨-, habsorbs⟩ := h.final_absorbs (i := 0) rfl
  obtain ⟨-, -, hpasses⟩ := habsorbs hfinal hidle _ hpressed (by decide +kernel)
  obtain ⟨⟨inst, hi, hs⟩, -⟩ :=
    habsorbs hfinal hidle _ (hpressed.steps (n := 5) fun _ _ => trivial) (by decide +kernel)
  exact ⟨hfinal, (hpasses _ _ _ _).1 "lamp" rfl rfl, inst, hi, hs⟩

end Statechart
