import Statechart.Proofs.Checkpoint.Binary
import Statechart.Proofs.Checkpoint.Json
import Statechart.Proofs.Resume.Answers
import Statechart.Proofs.Resume.Entry

/-!
Checkpoints that are resumed. The state that a checkpoint of an instance tells is declared, so that
resuming it fails with the entry at most; and an instance without observers is told completely by
its state and its context, as far as effects keep to themselves, so that the resumed one answers
like it.
-/

namespace Statechart

variable {σ : Signature} {m : Machine σ} {w w' : World σ} {i j : InstanceId} {slot slot' : String}
  {x y : σ.Context} {act : Option ActivationId} {fuel : Nat}

/-! ### Sessions at rest -/

/-- No call is in progress, and whatever activations have been given to keep, by the calls so far,
keeps to itself. -/
def Session.Settled (s : Session σ) : Prop :=
  ∃ r, Reach s.machine Run.Confined r ∧ r.Over ∧ r.world = s.world

/-- The slot holds an instance without observers in the state and with the context of a
checkpoint. -/
def Session.Holds (s : Session σ) (slot : String) (c : Checkpoint σ.State σ.Context) : Prop :=
  ∃ i inst, s.world.slots.get? slot = some i ∧ s.world.instances.get? i = some inst ∧
    inst.state = ⟨c.state, []⟩ ∧ inst.context = ⟨c.context, []⟩

theorem Session.settled_empty (m : Machine σ) : Settled ⟨m, {}⟩ := by
  have hstart : Reach m Run.Confined (.ofCode {} (.finish .done)) := .start _
  exact ⟨_, hstart.step (by rintro _ ⟨⟩) rfl, ⟨_, rfl⟩, rfl⟩

namespace Session.Settled

variable {s : Session σ} {c : Checkpoint σ.State σ.Context}

/-- A session stays settled over a call that returns, if nothing is given to be kept meanwhile. -/
theorem run (h : s.Settled) {n : Nat} {c : Code σ}
    (hc : ∀ a < n, ((Run.ofCode s.world c).steps s.machine a).given?.isNone = true)
    (hn : (s.run n c).2.isSome = true) : (s.run n c).1.Settled := by
  obtain ⟨m, w⟩ := s
  obtain ⟨r, hr, hover, rfl⟩ := h
  refine ⟨_, (hr.turn (hover.turn_call c)).steps fun a ha d hd => ?_,
    Option.isSome_iff_exists.1 hn, rfl⟩
  have hnone := hc a ha
  rw [hd] at hnone
  cases hnone

theorem confined (h : s.Settled) : s.world.Confined := by
  obtain ⟨r, hr, -, hw⟩ := h
  exact hw ▸ hr.confined fun _ => id

theorem rests (h : s.Settled) (hc : s.Holds slot c) :
    ∃ i act, s.world.Rests slot i c.state c.context act := by
  have hconfined := h.confined
  obtain ⟨r, hr, -, hw⟩ := h
  obtain ⟨i, ⟨_, _, act⟩, hslot, hi, rfl, rfl⟩ := hc
  refine ⟨i, act, hslot, hi, fun k hk => ?_, hconfined⟩
  rw [← hw] at hi ⊢
  exact hr.active_lt hi hk

/-- What a slot holds has been placed. -/
theorem held (h : s.Settled) (hi : s.world.slots.get? slot = some i) :
    ∃ inst, s.world.instances.get? i = some inst := by
  obtain ⟨r, hr, -, hw⟩ := h
  rw [← hw] at hi ⊢
  exact hr.instance_placed (hr.owned_placed (owned_of_slot hi _))

theorem active_lt (h : s.Settled) {inst : Instance σ} {k : ActivationId}
    (hi : s.world.instances.get? i = some inst) (hk : inst.active = some k) :
    k < s.world.activations.size := by
  obtain ⟨r, hr, -, hw⟩ := h
  rw [← hw] at hi ⊢
  exact hr.active_lt hi hk

theorem declared (h : s.Settled) (hc : s.Holds slot c) :
    s.machine.config.contains c.state = true := by
  obtain ⟨r, hr, -, hw⟩ := h
  obtain ⟨i, inst, -, hi, hs, -⟩ := hc
  rw [← hw] at hi
  have hd := hr.declared hi
  rwa [hs] at hd

end Session.Settled

/-! ### Entries that nothing comes of -/

namespace World

variable {t : σ.State}

/-- What moves another instance leaves one that rests where it is. -/
theorem Aside.rests (h : w.Aside i w') (hr : w.Rests slot j t x act) (hij : j ≠ i) :
    w'.Rests slot j t x act where
  slot := h.slots ▸ hr.slot
  inst := (h.instances j hij).trans hr.inst
  active k hk := Nat.lt_of_lt_of_le (hr.active k hk) h.started
  confined := h.confined hr.confined

/-- Whatever rests in another slot than the one that is filled still does. -/
theorem Stored.rests {stack : List (Frame σ)} (h : w.Stored slot i stack w')
    (hr : w.Rests slot' j t x act) (hne : slot' ≠ slot) : w'.Rests slot' j t x act where
  slot := by rw [h.slots, slotted, Table.get?_insert, if_neg hne.symm, hr.slot]
  inst := by
    have hslot : (w.slotted slot i).slots.get? slot' = some j := by
      rw [slotted, Table.get?_insert, if_neg hne.symm, hr.slot]
    rw [h.owned j (owned_of_slot hslot _), hr.inst]
  active k hk := Nat.lt_of_lt_of_le (hr.active k hk) h.started
  confined := h.confined hr.confined

/-- An instance that is stored before its effects have been started rests in its slot. -/
theorem Stored.rests_self {stack : List (Frame σ)} (h : w.Stored slot i stack w')
    (hi : w.instances.get? i = some ⟨⟨t, []⟩, ⟨x, []⟩, none⟩) (hs : w.Confined) :
    w'.Rests slot i t x none := by
  have hslot : (w.slotted slot i).slots.get? slot = some i := Table.get?_insert_self ..
  refine ⟨by rw [h.slots, hslot], ?_, by rintro _ ⟨⟩, h.confined hs⟩
  rw [h.owned i (owned_of_slot hslot _), hi]

/-- The entry into a state without effect leads to the store of the new instance. -/
theorem entry_bare (w : World σ) (slot : String) (ht : m.config.effect? t = none) :
    ∃ w₁, (w.entry slot t x).step m = some ⟨w₁, .ended .done,
        [.placing w.instances.size slot, .resume .bare .ofReply]⟩ ∧
      w.Aside w.instances.size w₁ ∧
      w₁.instances.get? w.instances.size = some ⟨⟨t, []⟩, ⟨x, []⟩, none⟩ := by
  have hi : (w.placed t x).instances.get? w.instances.size =
      some ⟨⟨t, []⟩, ⟨x, []⟩, none⟩ := by
    simp only [placed, record, Roster.get?_push, if_true]
  exact ⟨_, enter_bare hi ht _, (w.aside_placed t x).trans (aside_record _ _ _), hi⟩

end World

/-- **The entry into a state without effect leaves the new instance in its slot**, and whatever
rests in another slot where it is. -/
theorem Session.Settled.entry_leads {s : Session σ} (h : s.Settled) {t : σ.State}
    (ht : s.machine.config.effect? t = none) (hw : s.world.Unmoved w) (slot : String)
    (x : σ.Context) :
    ∃ w' i, Run.Leads s.machine (w.entry slot t x) ⟨w', .ended .done, []⟩ ∧
      w'.Rests slot i t x none ∧ ∀ slot' j t' y act, slot' ≠ slot →
        s.world.Rests slot' j t' y act → w'.Rests slot' j t' y act := by
  obtain ⟨w₁, hstep, hside₁, hi⟩ := w.entry_bare (x := x) slot ht
  rw [hw.instances] at hstep hside₁ hi
  have hside := (hw.aside _).trans hside₁
  have hconfined := hside.confined h.confined
  have hactive (k : InstanceId) (inst : Instance σ) (a : ActivationId)
      (hk : w₁.instances.get? k = some inst) (ha : inst.active = some a) :
      a < w₁.activations.size := by
    by_cases hki : k = s.world.instances.size
    · subst hki
      obtain rfl := Option.some.inj (hi.symm.trans hk)
      cases ha
    · rw [hside.instances k hki] at hk
      exact Nat.lt_of_lt_of_le (h.active_lt hk ha) hside.started
  have hne {k : InstanceId} {inst : Instance σ} (hk : s.world.instances.get? k = some inst) :
      k ≠ s.world.instances.size := Nat.ne_of_lt (Roster.lt_size hk)
  rcases w₁.store_leads (m := s.machine) slot s.world.instances.size hconfined hactive
    [.resume .bare .ofReply] with ⟨-, k, hslot, hnone⟩ | ⟨r, hr, w', hl, hstored⟩
  · -- what the slot held before has been placed
    rw [hside.slots] at hslot
    obtain ⟨inst, hk⟩ := h.held hslot
    rw [hside.instances k (hne hk), hk] at hnone
    cases hnone
  · have hstore : Run.step s.machine ⟨w₁, .ended .done,
        [.placing s.world.instances.size slot, .resume .bare .ofReply]⟩ = some r := hr
    have hanswer : Run.Leads s.machine ⟨w', .ended .done, [.resume .bare .ofReply]⟩
        ⟨w', .ended .done, []⟩ := .step rfl (.step rfl (.refl _))
    refine ⟨w', _, .step hstep (.step hstore (hl.trans hanswer)), hstored.rests_self hi hconfined,
      fun slot' j t' y act hslot hrests => ?_⟩
    exact hstored.rests (hside.rests hrests (hne hrests.inst)) hslot

/-! ### Resuming -/

namespace Session

variable {s : Session σ} {c : Checkpoint σ.State σ.Context}

/-- What resuming answers if recovering answers `out`. -/
def resumed : Option (Ending σ) → Except CheckpointError (Option (Ending σ))
  | some (.error e) => .error (.resume e)
  | out => .ok out

theorem recover_succ {t : σ.State} (hd : s.machine.config.contains t = true) :
    s.recover (fuel + 1) slot t x = s.launch fuel (s.world.entry slot t x) := by
  have hstep : Run.step s.machine (.ofCode s.world (.place slot (.recovered t x) Code.ofReply)) =
      some (s.world.entry slot t x) := congrArg some (World.start_eq_entry hd)
  rw [recover, run, launch, Run.steps_succ hstep]
  rfl

/-- The entry of an instance that is resumed, after this has been reported. -/
def entry (s : Session σ) (slot : String) (c : Checkpoint σ.State σ.Context) : Run σ :=
  (s.world.record (.resuming c.state)).entry slot c.state c.context

theorem resume_zero (hv : c.version = Checkpoint.supported) :
    s.resume 0 slot c = (s, .ok none) := by
  rw [resume, Checkpoint.checkVersion, if_pos hv]
  rfl

theorem resume_succ (hv : c.version = Checkpoint.supported)
    (hd : s.machine.config.contains c.state = true) :
    s.resume (fuel + 1) slot c = ((s.launch fuel (s.entry slot c)).1,
      resumed (s.launch fuel (s.entry slot c)).2) := by
  have hstep : Run.step s.machine
      (.ofCode s.world (.place slot (.resumed c.state c.context) Code.ofReply)) =
        some (s.entry slot c) := congrArg some (World.start_eq_entry hd)
  have hrun : s.run (fuel + 1) (.place slot (.resumed c.state c.context) Code.ofReply) =
      s.launch fuel (s.entry slot c) := by
    rw [run, launch, Run.steps_succ hstep]
    rfl
  rw [resume, Checkpoint.checkVersion, if_pos hv]
  dsimp only
  rw [hrun]
  rcases s.launch fuel (s.entry slot c) with ⟨s', _ | ⟨e | o⟩⟩ <;> rfl

/-- **What resuming a checkpoint does in a session.** -/
structure Resumes (s : Session σ) (slot : String) (c : Checkpoint σ.State σ.Context) : Prop where
  /-- It does what recovering with the same state and context does, on top of its own report. -/
  as_recovered : ∀ fuel, ∃ (w : World σ) (out : Option (Ending σ)),
    s.recover (fuel + 1) slot c.state c.context =
      ({ s with world := w.after s.world.journal }, out) ∧
    s.resume (fuel + 1) slot c =
      ({ s with world := w.after (.resuming c.state :: s.world.journal) }, resumed out)
  /-- When it has returned, the new instance has been entered initially once, into its state. -/
  entered : ∀ fuel, (s.resume fuel slot c).2 ≠ .ok none → ∃ later,
    (s.resume fuel slot c).1.world.visits s.world.instances.size =
      ⟨c.state, .initial, none⟩ :: later ∧ ∀ v ∈ later, ∃ a, v.trigger = .action a
  /-- Neither the version nor the state is refused: it fails only if this entry has ended with the
  error, which code has raised on the way, or which a dispatch has found. -/
  fails : ∀ fuel e, (s.resume fuel slot c).2 = .error e → ∃ error, e = .resume error ∧
    ∃ n < fuel, (∃ w, (s.entry slot c).steps s.machine n = ⟨w, .ended (.error error),
        [.placing s.world.instances.size slot, .resume .bare .ofReply]⟩) ∧
      (s.machine.Dangles error ∨
        ∃ k < n, ((s.entry slot c).steps s.machine k).raised? = some error)

/-- The entry of an instance that is resumed occurs, and so does whatever it comes to. -/
theorem Settled.reach_entry (h : s.Settled) (hd : s.machine.config.contains c.state = true)
    (slot : String) (n : Nat) :
    Reach s.machine (fun _ => True) ((s.entry slot c).steps s.machine n) := by
  obtain ⟨r, hr, hover, hw⟩ := h
  have hcall : Reach s.machine (fun _ => True)
      (.ofCode s.world (.place slot (.resumed c.state c.context) .ofReply)) :=
    hw ▸ (hr.mono fun _ _ => trivial).turn (hover.turn_call _)
  have hentry : Reach s.machine (fun _ => True) (s.entry slot c) :=
    hcall.step trivial (congrArg some (World.start_eq_entry hd))
  exact hentry.steps fun _ _ => trivial

/-- When its entry is over, the new instance has been entered initially once. -/
theorem Settled.entered_once (h : s.Settled) (hd : s.machine.config.contains c.state = true)
    {n : Nat} (hn : ((s.entry slot c).steps s.machine n).Over) : ∃ later,
      ((s.entry slot c).steps s.machine n).world.visits s.world.instances.size =
        ⟨c.state, .initial, none⟩ :: later ∧ ∀ v ∈ later, ∃ a, v.trigger = .action a := by
  have hreach := h.reach_entry hd slot n
  obtain ⟨r, hr, -, hw⟩ := h
  have hnone : (s.world.record (.resuming c.state)).visits s.world.instances.size = [] := by
    rw [(s.world.unmoved_record rfl).visits, ← hw, hr.visits_eq_nil]
  have hpos : 0 < n := by
    refine Nat.pos_of_ne_zero ?_
    rintro rfl
    exact Run.not_over_of_cons hn
  obtain ⟨later, hlater⟩ : ∃ later, ((s.entry slot c).steps s.machine n).world.visits
      s.world.instances.size = ⟨c.state, .initial, none⟩ :: later :=
    World.entry_visits hnone hpos
  exact ⟨later, hlater, hreach.later_visits hn hlater⟩

theorem Settled.resumes_declared (h : s.Settled) (hv : c.version = Checkpoint.supported)
    (hd : s.machine.config.contains c.state = true) (slot : String) : s.Resumes slot c where
  as_recovered fuel := by
    let fresh : World σ := { s.world with journal := [] }
    -- what is in the journal before has no part in it
    have hrecovered := Run.steps_after (m := s.machine) (fresh.entry slot c.state c.context)
      s.world.journal fuel
    have hresumed := Run.steps_after (m := s.machine) (fresh.entry slot c.state c.context)
      (.resuming c.state :: s.world.journal) fuel
    have hentry : s.world.entry slot c.state c.context =
        (fresh.entry slot c.state c.context).after s.world.journal := rfl
    have hentry' : s.entry slot c = (fresh.entry slot c.state c.context).after
        (.resuming c.state :: s.world.journal) := rfl
    refine ⟨((fresh.entry slot c.state c.context).steps s.machine fuel).world,
      ((fresh.entry slot c.state c.context).steps s.machine fuel).ending?, ?_, ?_⟩
    · rw [recover_succ hd, launch, hentry, hrecovered]
      rfl
    · rw [resume_succ hv hd, launch, hentry', hresumed]
      rfl
  entered fuel hout := by
    cases fuel with
    | zero => exact absurd (by rw [resume_zero hv]) hout
    | succ fuel =>
      rw [resume_succ hv hd] at hout ⊢
      refine h.entered_once hd ?_
      by_contra hn
      refine hout ?_
      simp only [launch, Run.ending_of_not_over hn, resumed]
  fails fuel e he := by
    cases fuel with
    | zero =>
      rw [resume_zero hv] at he
      cases he
    | succ fuel =>
      rw [resume_succ hv hd] at he
      cases hout : (s.launch fuel (s.entry slot c)).2 with
      | none =>
        rw [hout] at he
        cases he
      | some out =>
        cases out with
        | ok o =>
          rw [hout] at he
          cases he
        | error error =>
          rw [hout] at he
          obtain ⟨n, hn, hends, hraised⟩ := World.entry_fails hout
          exact ⟨error, (Except.error.inj he).symm, n, Nat.lt_succ_of_lt hn, hends, hraised⟩

/-- **An instance goes on from a checkpoint.** Resuming it succeeds, and the new instance answers
all calls as the one in the given slot does, and as any other of its own session does that is where
the checkpoint was taken. -/
def GoesOn (s : Session σ) (slot : String) (s' : Session σ) (slot' : String)
    (c : Checkpoint σ.State σ.Context) : Prop :=
  ∃ s₁ n, (∀ fuel, s'.resume (n + fuel) slot' c = (s₁, .ok (some .done))) ∧
    (∀ calls answers, s.Answers slot calls answers ↔ s₁.Answers slot' calls answers) ∧
    ∀ other, other ≠ slot' → s'.Holds other c → ∀ calls answers,
      s₁.Answers other calls answers ↔ s₁.Answers slot' calls answers

/-- Where there is no effect to be started, state and context are all that the instances have to
agree on. -/
theorem Settled.goes_on {s' : Session σ} (h : s.Settled) (hc : s.Holds slot c)
    (hm : s.machine.Confined) (hs : s'.machine = s.machine) (h' : s'.Settled)
    (hv : c.version = Checkpoint.supported) (ht : s.machine.config.effect? c.state = none)
    (slot' : String) : s.GoesOn slot s' slot' c := by
  have hd : s'.machine.config.contains c.state = true := hs ▸ h.declared hc
  have ht' : s'.machine.config.effect? c.state = none := hs ▸ ht
  obtain ⟨w, i, ⟨n, hn⟩, hrests, hkept⟩ := h'.entry_leads ht'
    (s'.world.unmoved_record (e := .resuming c.state) rfl) slot' c.context
  have answers_iff {s₀ : Session σ} {slot₀ : String} (hm₀ : s₀.machine = s.machine)
      (ha : World.Alike slot₀ s₀.world slot' w) (calls : List (σ.Action × Option σ.Payload))
      (answers : List (Answer σ)) : s₀.Answers slot₀ calls answers ↔
        Answers slot' { s' with world := w } calls answers :=
    ⟨fun h => h.alike (hm₀ ▸ hm) (hs.trans hm₀.symm) ha,
      fun h => h.alike (hs ▸ hm) (hm₀.trans hs.symm) ha.symm⟩
  refine ⟨{ s' with world := w }, n + 1, fun fuel => ?_, ?_, fun other hne hother => ?_⟩
  · rw [Nat.add_right_comm, resume_succ hv hd, launch, entry, Run.steps_add, hn,
      Run.steps_of_over ⟨.done, rfl⟩]
    rfl
  · obtain ⟨j, act, hrests'⟩ := h.rests hc
    exact answers_iff rfl (.rest hrests' hrests)
  · obtain ⟨j, act, hrests'⟩ := h'.rests hother
    exact answers_iff hs (.rest (hkept other j _ _ act hne hrests') hrests)

end Session

/-! ### Checkpoints of instances -/

/-- The checkpoint comes back from its text and from its bytes, for all codecs that read what they
have written. Texts are read here however deeply they nest. A reader that gives up at some depth, as
many do at 128 levels, brings back what the codecs write above it: the checkpoint adds one level to
that of its state and its context. -/
structure Checkpoint.Survives {S C : Type} (c : Checkpoint S C) : Prop where
  json : ∀ {states : Codec S} {contexts : Codec C}, states.Legible → contexts.Legible →
    ∃ text, c.toJson states contexts = .ok text ∧ ofJson states contexts text = .ok c
  bytes : ∀ {states : Codec S} {contexts : Codec C} {fs : S → Prop} {fc : C → Prop},
    states.Framed fs → contexts.Framed fc → c.Fits fs fc →
      ∃ b, c.toBinary states contexts = .ok b ∧ ofBinary states contexts b = .ok c

theorem Checkpoint.survives {S C : Type} {c : Checkpoint S C} (hv : c.version = supported) :
    c.Survives where
  json hs hc := by
    obtain ⟨text, htext, hread⟩ := (roundTrips hs hc).written c
    exact ⟨text, htext, hread.trans (if_pos hv)⟩
  bytes hs hc hfits := by
    obtain ⟨b, hb, hread, -⟩ := (canonical hs hc).delimited c hfits
    have hread := hread []
    rw [List.append_nil] at hread
    exact ⟨b, hb, hread.trans (if_pos hv)⟩

/-- **Every checkpoint of an instance can be resumed.** Let the effects keep to themselves. If no
call is in progress, the checkpoint of an instance without observers survives its text and its
bytes. In any session of the machine in which no call is in progress, resuming it does what
recovering with its state and context does, with one initial entry, and fails only with this entry;
and if the state has no effect, the instance goes on from there. -/
theorem Session.Settled.checkpoint_resumes {s : Session σ} (h : s.Settled)
    (hm : s.machine.Confined) {inst : Instance σ} (hslot : s.world.slots.get? slot = some i)
    (hi : s.world.instances.get? i = some inst) (hos : inst.state.observers = [])
    (hoc : inst.context.observers = []) (id : String) (t : Timestamp) :
    ∃ c, s.checkpoint? slot id t = some c ∧ s.Holds slot c ∧ c.Survives ∧
      ∀ s' : Session σ, s'.machine = s.machine → s'.Settled → ∀ slot', s'.Resumes slot' c ∧
        (s.machine.config.effect? c.state = none → s.GoesOn slot s' slot' c) := by
  obtain ⟨⟨u, _⟩, ⟨x, _⟩, act⟩ := inst
  obtain rfl : _ = [] := hos
  obtain rfl : _ = [] := hoc
  let c : Checkpoint σ.State σ.Context := ⟨Checkpoint.supported, id, t, u, x⟩
  have hc : s.Holds slot c := ⟨i, _, hslot, hi, rfl, rfl⟩
  refine ⟨c, ?_, hc, Checkpoint.survives rfl, fun s' hs h' slot' => ⟨?_, fun ht => ?_⟩⟩
  · simp [checkpoint?, peek?, World.peek?, hslot, hi, c]
  · exact h'.resumes_declared rfl (hs ▸ h.declared hc) slot'
  · exact h.goes_on hc hm hs h' rfl ht slot'

namespace Lamp

/-- What a lamp is built over whose checkpoints are written down. -/
def plated : Signature where
  toAlphabet := .members ["off", "on"] ["press"]
  Context := Script.Ctx
  Payload := Unit
  Note := Unit

def dark : Member ["off", "on"] := ⟨⟨0, by decide⟩⟩

def bright : Member ["off", "on"] := ⟨⟨1, by decide⟩⟩

def press : Member ["press"] := ⟨⟨0, by decide⟩⟩

/-- A lamp that, when it goes on, keeps its handle and waits for being switched off. -/
def patient : Machine plated where
  config := ⟨.ofPairs
    [(dark, { transitions := .ofPairs [(press, bright)] }),
      (bright, {
        transitions := .ofPairs [(press, dark)]
        effect := some (.setContext ⟨2, some "on", []⟩ (.keep "on"
          (.finish (.pending (.awaitAbort none .resolved none))))) })]⟩
  initialState := dark
  initialContext := {}
  spawner := some .queue
  declared := by decide

theorem confined_patient : patient.Confined := by
  intro s c h
  obtain ⟨⟨n, hn⟩⟩ := s
  match n, hn, h with
  | 0, _, h => cases h
  | 1, _, h =>
    obtain rfl := Option.some.inj h
    exact .setContext _ (.keep _ (.finish (.pending (.awaitAbort .resolved nofun))))

/-- A session with this lamp, which has been switched on and off. The future of its activation waits
for the executor to be told. -/
def used : Session plated :=
  let s := (Session.instantiate 7 ⟨patient, {}⟩ "lamp").1
  let s := (s.send 20 "lamp" press none).1
  (s.send 20 "lamp" press none).1

theorem settled_used : used.Settled := by
  have hplaced := (Session.settled_empty patient).run (n := 7)
    (c := .place "lamp" .fresh .ofReply) (by decide +kernel) (by decide +kernel)
  have hon := hplaced.run (n := 20) (c := .send "lamp" press none .ofReply) (by decide +kernel)
    (by decide +kernel)
  exact hon.run (n := 20) (c := .send "lamp" press none .ofReply) (by decide +kernel)
    (by decide +kernel)

end Lamp

open Lamp (used dark bright press) in
/-- The checkpoint of the lamp that has been used is written as JSON and as bytes, and read back.
The lamp is resumed from it beside itself, and when it is pressed, it goes on as the first one
does. -/
theorem lamp_resumed : ∃ c : Checkpoint (Member ["off", "on"]) Script.Ctx,
    used.checkpoint? "lamp" "1" ⟨0, 0, by decide⟩ = some c ∧
    c.state = dark ∧ c.context = ⟨2, some "on", []⟩ ∧
    (∃ text, c.toJson Member.codec Script.Ctx.codec = .ok text ∧
      Checkpoint.ofJson Member.codec Script.Ctx.codec text = .ok c) ∧
    (∃ bytes, c.toBinary Member.codec Script.Ctx.codec = .ok bytes ∧
      Checkpoint.ofBinary Member.codec Script.Ctx.codec bytes = .ok c) ∧
    ∃ s n, (∀ fuel, used.resume (n + fuel) "spare" c = (s, .ok (some .done))) ∧
      s.Answers "spare" [(press, none)]
        [⟨.ok (),
          [.state bright, .entry ⟨bright, .action press, none⟩, .context ⟨2, some "on", []⟩],
          some ⟨bright, ⟨2, some "on", []⟩, false⟩⟩] := by
  have hslot : used.world.slots.get? "lamp" = some 0 := rfl
  obtain ⟨c, hc, -, hsurvives, hall⟩ := Lamp.settled_used.checkpoint_resumes Lamp.confined_patient
    hslot rfl rfl rfl "1" ⟨0, 0, by decide⟩
  obtain rfl := Option.some.inj hc
  obtain ⟨-, hgoes⟩ := hall _ rfl Lamp.settled_used "spare"
  obtain ⟨s, n, hresume, hanswers, -⟩ := hgoes rfl
  have hsend : used.send 20 "lamp" press none =
      ((used.send 20 "lamp" press none).1, some .done) := Prod.ext rfl rfl
  have hcall : used.Answers "lamp" [(press, none)] [⟨_, _, _⟩] := .cons rfl hsend
    (show _ = List.reverse [_, _, _] ++ _ from rfl) (.nil _)
  have hjson := hsurvives.json (Member.legible_codec (by decide)) Script.Ctx.legible_codec
  have hbytes := hsurvives.bytes (Member.framed_codec _) Script.Ctx.framed_codec
    ⟨by decide, by decide, by rintro _ ⟨⟩; decide, by decide, nofun⟩
  exact ⟨_, rfl, rfl, rfl, hjson, hbytes, s, n, hresume, (hanswers _ _).1 hcall⟩

end Statechart
