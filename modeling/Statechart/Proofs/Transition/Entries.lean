import Statechart.Proofs.Loop.Body
import Statechart.Proofs.Transition.Course
import Mathlib.Data.List.Infix

/-!
The entries that are owed. A placement asks for an entry into its state, and a write of the state
variable for one into its target; both hand on what the entry is caused by and what it is given.
The entry comes only after the observers of the state have been told, and it reads the state
variable again.

So what an entry is caused by, and the state that it is made into, have different fates. The cause
stays on the stack, where nothing can touch it: every entry that was asked for is made once, or has
still to be made. The state is what was asked for only if no observer has made a transition of its
own in between.
-/

namespace Statechart

variable {σ : Signature} {m : Machine σ} {ok : Run σ → Prop} {r r' : Run σ} {l : Life σ}
  {i : InstanceId}

/-! ### Every entry is owed -/

/-- Every entry that was asked for is made or still to be made, for the cause for which it was asked
for. The first one is that of the placement, all others are those of actions. -/
structure Life.Served (m : Machine σ) (l : Life σ) : Prop where
  causes : ∀ i, ((l.asked i).map Visit.cause).Perm (l.awaited i ++ (l.made i).map Visit.cause)
  unplaced : ∀ i, l.placed ≤ i → l.asked i = []
  first : ∀ i u, l.instances i = some u → ∃ s moves, m.config.contains s = true ∧
    l.asked i = moves ++ [⟨s, .initial, none⟩] ∧ ∀ v ∈ moves, ∃ a, v.trigger = .action a

namespace Life.Served

theorem causes_move (h : r.life.Served m) (hv : Move.Concerns m r l i) :
    ((l.asked i).map Visit.cause).Perm (l.awaited i ++ (l.made i).map Visit.cause) := by
  have causes := h.causes i
  cases hv with
  | rests _ ha hm hp _ => rwa [ha, hm, hp]
  | places _ _ _ _ _ ha hm hp _ | writes _ _ _ ha hm hp _ =>
    rw [ha, hm, hp]
    exact causes.cons _
  | enters _ _ _ ha hm hp _ =>
    rw [hp] at causes
    rw [ha, hm]
    exact causes.trans List.perm_middle.symm

theorem first_move (h : r.life.Served m) (hv : Move.Concerns m r l i) {u : Standing σ}
    (hu : l.instances i = some u) : ∃ s moves, m.config.contains s = true ∧
      l.asked i = moves ++ [⟨s, .initial, none⟩] ∧ ∀ v ∈ moves, ∃ a, v.trigger = .action a := by
  cases hv with
  | rests _ ha _ _ hs =>
    obtain ⟨v, hv, -⟩ := hs u hu
    rw [ha]
    exact h.first i v hv
  | @places s hi _ hd _ _ ha _ _ _ =>
    rw [h.unplaced i (Nat.le_of_eq hi.symm)] at ha
    exact ⟨s, [], hd, ha, nofun⟩
  | @writes t a p _ _ _ hi _ ha _ _ _ =>
    obtain ⟨s, moves, hd, hasked, hmoves⟩ := h.first i _ hi
    refine ⟨s, ⟨t, .action a, p⟩ :: moves, hd, ?_, ?_⟩
    · rw [ha, hasked, List.cons_append]
    · exact List.forall_mem_cons.2 ⟨⟨a, rfl⟩, hmoves⟩
  | enters _ hi _ ha _ _ _ =>
    rw [ha]
    exact h.first i _ hi

theorem move (h : r.life.Served m) (hs : r.life.Sound) (hm : Move m r l) : l.Served m where
  causes i := h.causes_move (hm.concerns i)
  unplaced i hi := by
    obtain ⟨hle, -, ha⟩ := hm.unplaced hs hi
    exact ha.trans (h.unplaced i hle)
  first i _ := h.first_move (hm.concerns i)

/-- Nothing has become of an instance that is not placed. -/
theorem nothing (h : l.Served m) (hi : l.placed ≤ i) : l.awaited i = [] ∧ l.made i = [] := by
  have hnil := h.causes i
  rw [h.unplaced i hi] at hnil
  have hnil := List.append_eq_nil_iff.1 hnil.nil_eq.symm
  exact ⟨hnil.1, List.map_eq_nil_iff.1 hnil.2⟩

end Life.Served

theorem Reach.served (h : Reach m ok r) : r.life.Served m :=
  h.life_induction ⟨fun _ => .nil, fun _ _ => rfl, nofun⟩ fun _ _ hr _ ih hm => ih.move hr.sound hm

/-! ### Every entry is made into the state that was asked for -/

/-- The entry of instance `i` that a frame has still to make. -/
def Frame.awaits? (i : InstanceId) : Frame σ → Option (Trigger σ.Action × Option σ.Payload)
  | entering j tr p => if j = i then some (tr, p) else none
  | _ => none

/-- Whether no transition of an instance is under way before an entry of it that is still to be
made. -/
def Run.unhurried (r : Run σ) : Bool :=
  r.stack.tails.all fun
    | .changing i _ _ _ :: stack => (stack.filterMap (Frame.awaits? i)).isEmpty
    | _ => true

theorem Life.awaited_stagesOf (stack : List (Frame σ)) (i : InstanceId) :
    (stagesOf stack).filterMap (Stage.awaits? i) = stack.filterMap (Frame.awaits? i) := by
  rw [stagesOf, List.filterMap_filterMap]
  congr 1
  funext f
  cases f with
  | acting poller _ _ => cases poller <;> rfl
  | _ => rfl

theorem Run.awaited_life (r : Run σ) (i : InstanceId) :
    r.life.awaited i = r.stack.filterMap (Frame.awaits? i) := by
  rw [← Life.awaited_stagesOf]
  change (r.control.stage?.toList ++ stagesOf r.stack).filterMap (Stage.awaits? i) = _
  rw [List.filterMap_append]
  cases r.control with
  | future poller _ _ => cases poller <;> rfl
  | _ => rfl

/-- A transition that comes to its write finds no entry that is still to be made. -/
theorem Run.awaited_of_unhurried (h : r.unhurried = true) {t : σ.State} {a : σ.Action}
    {p : Option σ.Payload} {rest : List (Stage σ)}
    (hst : r.life.stages = .changing i t a p :: rest) : r.life.awaited i = [] := by
  have hstages : stagesOf r.stack = .changing i t a p :: rest := by
    rcases List.append_eq_cons_iff.1 hst with ⟨-, hst⟩ | ⟨as, hc, -⟩
    · exact hst
    · have hc : r.control.stage? = some (.changing i t a p) :=
        Option.mem_toList.1 (hc ▸ List.mem_cons_self)
      unfold Control.stage? at hc
      split at hc <;> cases hc
  obtain ⟨above, f, stack, hstack, -, hf, rfl⟩ := List.filterMap_eq_cons_iff.1 hstages
  have hsuf : f :: stack ∈ r.stack.tails := (List.mem_tails _ _).2 ⟨above, hstack.symm⟩
  have hnone := List.all_eq_true.1 h _ hsuf
  rw [Life.awaited, hst, List.filterMap_cons_none rfl]
  change (stagesOf stack).filterMap (Stage.awaits? i) = []
  rw [Life.awaited_stagesOf]
  cases f with
  | changing =>
    cases hf
    exact List.isEmpty_iff.1 hnone
  | acting poller _ _ => cases poller <;> cases hf
  | _ => cases hf

/-- What unhurried transitions give: an instance has one entry at most that is still to be made, and
it is to be made into the current state; all others were made as they were asked for. -/
structure Life.Faithful (l : Life σ) : Prop where
  single : ∀ i, (l.awaited i).length ≤ 1
  entries : ∀ i s, l.instances i = some s →
    l.asked i = (l.awaited i).map (Visit.into s.state) ++ l.made i

namespace Life.Faithful

theorem single_move (h : r.life.Faithful) (hv : r.life.Served m) (hu : r.unhurried = true)
    (hm : Move.Concerns m r l i) : (l.awaited i).length ≤ 1 := by
  cases hm with
  | rests _ _ _ hp _ =>
    rw [hp]
    exact h.single i
  | places hnew _ _ _ _ _ _ hp _ =>
    rw [hp, (hv.nothing (Nat.le_of_eq hnew.symm)).1]
    exact Nat.le_refl _
  | writes hst _ _ _ _ hp _ =>
    rw [hp, Run.awaited_of_unhurried hu hst]
    exact Nat.le_refl _
  | enters _ _ _ _ _ hp _ =>
    have hsingle := h.single i
    rw [hp, List.length_cons] at hsingle
    exact Nat.le_of_succ_le hsingle

theorem entries_move (h : r.life.Faithful) (hv : r.life.Served m) (hu : r.unhurried = true)
    (hm : Move.Concerns m r l i) {s : Standing σ} (hi : l.instances i = some s) :
    l.asked i = (l.awaited i).map (Visit.into s.state) ++ l.made i := by
  cases hm with
  | rests _ ha hm hp hs =>
    obtain ⟨u, hu, hst⟩ := hs s hi
    rw [ha, hm, hp, ← hst]
    exact h.entries i u hu
  | places hnew _ _ _ _ ha hm hp hs =>
    obtain ⟨hawaited, hmade⟩ := hv.nothing (Nat.le_of_eq hnew.symm)
    rw [ha, hm, hp, hs s hi, hawaited, hmade, hv.unplaced i (Nat.le_of_eq hnew.symm)]
    rfl
  | writes hst hi' _ ha hm hp hs =>
    have hnone := Run.awaited_of_unhurried hu hst
    have hasked := h.entries i _ hi'
    rw [hnone] at hasked
    rw [ha, hm, hp, hs s hi, hnone, hasked]
    rfl
  | enters _ hi' _ ha hm hp hs =>
    have hsingle := h.single i
    have hasked := h.entries i _ hi'
    rw [hp, List.length_cons, Nat.succ_le_succ_iff, Nat.le_zero, List.length_eq_zero_iff] at hsingle
    rw [hp, hsingle] at hasked
    rw [ha, hm, hsingle, hasked]
    rfl

end Life.Faithful

theorem Reach.faithful (h : Reach m ok r) (hu : ∀ r, ok r → r.unhurried = true) :
    r.life.Faithful := by
  refine h.life_induction ⟨fun _ => Nat.zero_le _, nofun⟩ fun r l hr hok ih hm => ?_
  exact ⟨fun i => ih.single_move hr.served (hu r hok) (hm.concerns i),
    fun i _ => ih.entries_move hr.served (hu r hok) (hm.concerns i)⟩

/-! ### What is invoked -/

/-- An entry is reported as the one it is: only a state with an effect starts an activation. -/
def Event.Fits (m : Machine σ) : Event σ → Prop
  | entered _ s _ _ => m.config.effect? s = none
  | started _ _ s _ _ => (m.config.effect? s).isSome = true
  | _ => True

theorem Move.fits (hm : Move m r l) (h : ∀ e ∈ r.life.past, e.Fits m) : ∀ e ∈ l.past, e.Fits m := by
  have told {e : Event σ} {past : List (Event σ)} (he : e.Fits m) (h : ∀ e ∈ past, e.Fits m) :
      ∀ e' ∈ e :: past, e'.Fits m := List.forall_mem_cons.2 ⟨he, h⟩
  cases hm
  case enterBare he => exact told he h
  case enter he _ => exact told (Option.isSome_of_eq_some he) h
  case displace he _ => exact told (Option.isSome_of_eq_some he) (told trivial h)
  case depart d _ _ _ => cases d <;> exact told trivial h
  case exit d _ _ _ _ => cases d <;> exact told trivial (told trivial (told trivial h))
  case atOnce => exact told trivial (told trivial h)
  all_goals first | exact h | exact told trivial h

theorem Reach.fits (h : Reach m ok r) : ∀ e ∈ r.life.past, e.Fits m :=
  h.life_induction nofun fun _ _ _ _ ih hm => hm.fits ih

/-- The effect of instance `i` that an event reports as invoked. -/
def Event.start? (i : InstanceId) : Event σ → Option (Visit σ)
  | started j _ s tr p => if j = i then some ⟨s, tr, p⟩ else none
  | _ => none

/-- The entries of instance `i` that have invoked an effect, in order. -/
def World.starts (w : World σ) (i : InstanceId) : List (Visit σ) :=
  w.history.filterMap (Event.start? i)

/-- An effect is invoked by every entry into its state, and by nothing else. -/
theorem Reach.starts_eq (h : Reach m ok r) (i : InstanceId) :
    r.world.starts i = (r.world.visits i).filter fun v => (m.config.effect? v.state).isSome := by
  rw [World.starts, World.visits, List.filter_filterMap]
  refine List.filterMap_congr fun e he => ?_
  have hfits (hv : e.vital = true) : e.Fits m :=
    h.fits e ((Run.mem_past hv).2 (List.mem_reverse.1 he))
  cases e with
  | entered j s tr p =>
    have hs : m.config.effect? s = none := hfits rfl
    by_cases hij : j = i <;> simp [Event.start?, Event.visit?, Option.filter, hij, hs]
  | started j k s tr p =>
    have hs : (m.config.effect? s).isSome = true := hfits rfl
    by_cases hij : j = i <;> simp [Event.start?, Event.visit?, Option.filter, hij, hs]
  | _ => rfl

/-- An entry that is due is made, into the state that is then the current one; the effect of this
state gets what the entry was caused by and what it was given. -/
theorem World.enter_visits {w : World σ} {inst : Instance σ} (hi : w.instances.get? i = some inst)
    (tr : Trigger σ.Action) (p : Option σ.Payload) (stack : List (Frame σ)) :
    ∃ r, w.enter m i tr p stack = some r ∧
      r.world.visits i = w.visits i ++ [⟨inst.state.value, tr, p⟩] ∧
      ∀ c, m.config.effect? inst.state.value = some c →
        ∃ k, r.control = .code (.environment k tr p) c := by
  cases he : m.config.effect? inst.state.value with
  | none =>
    refine ⟨_, enter_bare hi he stack, ?_, nofun⟩
    rw [visits_record]
    simp [Event.visit?]
  | some c =>
    refine ⟨_, enter_effect hi he stack, ?_, fun c' hc => ⟨w.activations.size, ?_⟩⟩
    · rw [visits_begin]
      cases inst.active with
      | none => rfl
      | some j => rw [visits_record]; simp [Event.visit?]
    · rw [Option.some.inj hc]

/-! ### Entries of a run -/

/-- The entries of instance `i` that were asked for, in order. -/
def World.asked (w : World σ) (i : InstanceId) : List (Visit σ) :=
  w.history.filterMap (Event.asks? i)

/-- The entries of instance `i` that are still to be made, in the order in which they were asked
for. -/
def Run.awaited (r : Run σ) (i : InstanceId) : List (Trigger σ.Action × Option σ.Payload) :=
  (r.stack.filterMap (Frame.awaits? i)).reverse

theorem Run.asked_life (r : Run σ) (i : InstanceId) :
    r.world.asked i = (r.life.asked i).reverse := by
  rw [Life.asked, filterMap_past fun e he => by cases e <;> first | rfl | cases he]
  exact List.filterMap_reverse

theorem Run.visits_life (r : Run σ) (i : InstanceId) :
    r.world.visits i = (r.life.made i).reverse := by
  rw [Life.made, filterMap_past fun e he => by cases e <;> first | rfl | cases he]
  exact List.filterMap_reverse

theorem Run.awaited_eq (r : Run σ) (i : InstanceId) :
    r.awaited i = (r.life.awaited i).reverse := by
  rw [awaited_life, awaited]

/-- **Every transition is entered once.** Whatever happens, the placement of an instance and the
writes of its state variable ask for one entry each, and this is made once or still to be made, with
the trigger and the payload it was asked for with; only the placement asks for an initial one. An
entry that is due is made, and the effect of a state is invoked by the entries into this state. If
no transition of an instance begins before the entry of the last one is made, then the entries are
those that were asked for, into the same states and in the same order. -/
theorem Reach.entries_made (h : Reach m ok r) :
    (∀ i, ((r.world.asked i).map Visit.cause).Perm
      ((r.world.visits i).map Visit.cause ++ r.awaited i)) ∧
    (∀ i inst, r.world.instances.get? i = some inst →
      ∃ s moves, r.world.asked i = ⟨s, .initial, none⟩ :: moves ∧ m.config.contains s = true ∧
        ∀ v ∈ moves, ∃ a, v.trigger = .action a) ∧
    (∀ e i tr p stack, r.control = .ended e → r.stack = .entering i tr p :: stack →
      ∃ inst r', r.world.instances.get? i = some inst ∧ r.step m = some r' ∧
        r'.world.visits i = r.world.visits i ++ [⟨inst.state.value, tr, p⟩] ∧
        ∀ c, m.config.effect? inst.state.value = some c →
          ∃ k, r'.control = .code (.environment k tr p) c) ∧
    (∀ i, r.world.starts i =
      (r.world.visits i).filter fun v => (m.config.effect? v.state).isSome) ∧
    ((∀ r, ok r → r.unhurried = true) → ∀ i inst, r.world.instances.get? i = some inst →
      r.world.asked i = r.world.visits i ++ (r.awaited i).map (Visit.into inst.state.value)) := by
  refine ⟨fun i => ?_, fun i inst hi => ?_, fun e i tr p stack hc hs => ?_, h.starts_eq,
    fun hu i inst hi => ?_⟩
  · rw [r.asked_life, r.visits_life, r.awaited_eq, List.map_reverse, List.map_reverse,
      ← List.reverse_append]
    exact (List.reverse_perm _).trans ((h.served.causes i).trans (List.reverse_perm _).symm)
  · obtain ⟨s, moves, hdecl, hasked, hmoves⟩ := h.served.first i _ (World.life_instances hi)
    refine ⟨s, moves.reverse, ?_, hdecl, fun v hv => hmoves v (List.mem_reverse.1 hv)⟩
    rw [r.asked_life, hasked, List.reverse_append]
    rfl
  · have hmem : .entering i tr p ∈ r.life.stages :=
      (Run.mem_stages_iff (by rfl)).2 ⟨_, hs ▸ List.mem_cons_self, rfl⟩
    obtain ⟨inst, hi⟩ := h.instance_placed (h.sound.transits _ hmem i rfl)
    obtain ⟨r', henter, hvisits, heffect⟩ := World.enter_visits (m := m) hi tr p stack
    refine ⟨inst, r', hi, ?_, hvisits, heffect⟩
    simp only [Run.step, hc, hs, World.proceed]
    exact henter
  · have hasked := (h.faithful hu).entries i _ (World.life_instances hi)
    rw [r.asked_life, r.visits_life, r.awaited_eq, hasked, List.reverse_append, List.map_reverse]
    rfl

/-- The lamp has been entered twice while it was placed, as it was asked for: into its first state
for the placement, and into the second one for the dispatch of the first. -/
theorem lamp_entries : Lamp.lit.world.visits 0 = Lamp.lit.world.asked 0 ∧
    Lamp.lit.world.starts 0 = [⟨false, .initial, none⟩, ⟨true, .action (), none⟩] := by
  have h : Reach Lamp.machine (fun r => r.unhurried = true) Lamp.lit :=
    (Reach.start _).steps (by decide +kernel)
  obtain ⟨-, -, -, hstarts, hasked⟩ := h.entries_made
  have hnone : Lamp.lit.awaited 0 = [] := rfl
  have hlit := hasked (fun _ => id) 0 _ rfl
  rw [hnone, List.map_nil, List.append_nil] at hlit
  exact ⟨hlit.symm, hstarts 0⟩

namespace Lamp

/-- A lamp that may be switched off again, and that has an effect in its second state only. -/
def plain : Machine sig where
  config := ⟨.ofPairs
    [(false, { transitions := .ofPairs [((), true)] }),
      (true, { transitions := .ofPairs [((), false)], effect := some (.finish .done) })]⟩
  initialState := false
  initialContext := (0 : Nat)
  spawner := none
  declared := by decide

def plainPlaced : Run sig := placement.steps plain 7

theorem over_plainPlaced : plainPlaced.Over := Option.isSome_iff_exists.1 (by decide +kernel)

/-- An observer of this lamp that switches it off as soon as it goes on. -/
def thrifty : Code sig :=
  .watchState "lamp" "thrifty"
    (fun s : Bool => bif s then .send "lamp" () none .ofReply else .finish .done)
    fun _ => .finish .done

/-- The lamp once it is observed. -/
def observed : Run sig := (Run.ofCode plainPlaced.world thrifty).steps plain 5

theorem over_observed : observed.Over := Option.isSome_iff_exists.1 (by decide +kernel)

/-- A dispatch with a payload on the observed lamp, with all that comes of it. -/
def hurried : Run sig :=
  (Run.ofCode observed.world (.send "lamp" () (some ()) .ofReply)).steps plain 40

/-- **A transition may be entered into another state.** The observer has switched the lamp off
again when the entry comes that the dispatch has asked for. It is made into the first state, with
the payload that was meant for the second one, and the effect of this is never invoked. -/
theorem hurries : Reach plain (fun _ => True) hurried ∧ hurried.Over ∧
    hurried.displaced = false ∧
    hurried.world.asked 0 =
      [⟨false, .initial, none⟩, ⟨true, .action (), some ()⟩, ⟨false, .action (), none⟩] ∧
    hurried.world.visits 0 =
      [⟨false, .initial, none⟩, ⟨false, .action (), none⟩, ⟨false, .action (), some ()⟩] ∧
    hurried.world.starts 0 = [] := by
  have hplaced : Reach plain (fun _ => True) plainPlaced := (Reach.start _).steps fun _ _ => trivial
  have hobserved : Reach plain (fun _ => True) observed :=
    (hplaced.turn (over_plainPlaced.turn_call _)).steps fun _ _ => trivial
  have hover : hurried.Over := Option.isSome_iff_exists.1 (by decide +kernel)
  exact ⟨(hobserved.turn (over_observed.turn_call _)).steps fun _ _ => trivial, hover,
    by decide +kernel, rfl, rfl, rfl⟩

end Lamp

end Statechart
