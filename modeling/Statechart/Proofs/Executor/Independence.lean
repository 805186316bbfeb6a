import Statechart.Proofs.Executor.Polls

/-!
Whether there is an executor, and of what kind, is of no concern to an interpreter as long as the
executor is not run, but for destructors. Two machines that differ in their spawners go in step, run
by run; all that differs is what is recorded of unfinished futures that are given away, and the
tasks that come of it. A future that nobody keeps is let go in the middle of the entry, though,
where its activation is live, and there what it owns may act through a handle. So spawners that keep
futures agree with each other, and those that do not; between the two kinds there is no difference
as long as futures that are left unfinished own nothing whose destructor runs code.
-/

namespace Statechart

variable {σ : Signature} {m m' : Machine σ} {sp sp' : Option Spawner} {r r' s : Run σ}
  {ds : List (Deed σ)} {past : List (Run σ)}

/-- The machine with another spawner. -/
def Machine.spawning (m : Machine σ) (sp : Option Spawner) : Machine σ := { m with spawner := sp }

theorem Machine.kin_spawning : (m.spawning sp).Kin (m.spawning sp') :=
  ⟨fun _ => rfl, fun _ _ => rfl, fun _ => rfl, rfl, rfl⟩

/-- Whether an event tells what has become of an unfinished future. -/
def Event.aside : Event σ → Bool
  | spawned _ | noSpawner .. | refused _ => true
  | _ => false

/-- What has happened, but for what has become of unfinished futures, the latest first. -/
def World.shown (w : World σ) : List (Event σ) := w.journal.filter (!·.aside)

/-- Two runs that differ at most in the tasks of the executor, and in what is recorded of
them. -/
structure Run.Alike (r r' : Run σ) : Prop where
  control : r'.control = r.control
  stack : r'.stack = r.stack
  instances : r'.world.instances = r.world.instances
  activations : r'.world.activations = r.world.activations
  slots : r'.world.slots = r.world.slots
  handles : r'.world.handles = r.world.handles
  subscriptions : r'.world.subscriptions = r.world.subscriptions
  nextSubscription : r'.world.nextSubscription = r.world.nextSubscription
  shown : r'.world.shown = r.world.shown

/-- What has become of unfinished futures, and the tasks, are left aside. -/
def Margin.bystander : Margin σ where
  journals j j' := j'.filter (!·.aside) = j.filter (!·.aside)
  admits _ := True
  frames s s' := s' = s
  bears _ := True
  executor := False
  admits_of _ := trivial
  bears_of _ := trivial
  record := by
    rintro e j j' - hj
    rw [List.filter_cons, List.filter_cons, hj]
  push := by
    rintro f s _ - rfl
    rfl
  owns := by
    rintro s _ rfl i
    rfl
  pins := by
    rintro s _ rfl i
    rfl

namespace Margin

theorem Runs.alike (h : bystander.Runs r r') : r.Alike r' := by
  obtain ⟨w, control, stack⟩ := r
  obtain ⟨w', control', stack'⟩ := r'
  obtain ⟨⟨-, hj⟩, hc, hs⟩ := h
  exact ⟨hc.symm, hs, rfl, rfl, rfl, rfl, rfl, rfl, hj⟩

theorem Runs.ended (h : bystander.Runs r r') (hr : r.Over) : r'.Over := by
  obtain ⟨e, hc, hs⟩ := Run.over_iff.1 hr
  exact Run.over_iff.2 ⟨e, h.control.symm.trans hc, h.stack.trans hs⟩

variable {k : ActivationId} {w : World σ} {stack : List (Frame σ)} {last : Option (Code σ)}

theorem shown_givesAway (st : σ.State) (j : List (Event σ)) :
    (m.givesAway k st :: j).filter (!·.aside) = j.filter (!·.aside) := by
  unfold Machine.givesAway
  split <;> rfl

theorem shown_gone {more : List (Event σ)} (hm : more = [] ∨ more = [.refused k])
    (st : σ.State) (j : List (Event σ)) :
    (more ++ m.givesAway k st :: j).filter (!·.aside) = j.filter (!·.aside) := by
  rcases hm with rfl | rfl <;> exact shown_givesAway st j

/-- Whether a future that is gone is reported makes no difference. -/
theorem bystander_forgets (k : ActivationId) : Worlds.Forgets bystander m m' k := by
  rintro w _ ⟨-, hj⟩
  unfold World.forget
  split <;> split <;> exact .intro False.elim hj

/-- Two machines come to the same with a future that they give away, if both of them keep it or
neither does, or if it has no destructors. -/
theorem Worlds.givenAway {w' : World σ} {st : σ.State} (hw : bystander.Worlds w w')
    (hl : m.spawner.any Spawner.keeps = m'.spawner.any Spawner.keeps ∨ last = none)
    (h : w.GivenAway m k st last stack r) (h' : w'.GivenAway m' k st last stack r') :
    bystander.Runs r r' := by
  obtain ⟨-, hj⟩ := hw
  cases h with
  | gone _ _ more hkept hmore =>
    cases h' with
    | gone _ _ more' _ hmore' =>
      refine ⟨.intro False.elim ?_, rfl, rfl⟩
      exact (shown_gone hmore' _ _).trans (hj.trans (shown_gone hmore _ _).symm)
    | drops c hc hm' =>
      subst hc
      have hkept := hkept.resolve_right nofun
      rw [hl.resolve_right nofun, hm'] at hkept
      cases hkept
  | drops c hc hm =>
    subst hc
    cases h' with
    | gone _ _ _ hkept _ =>
      have hkept := hkept.resolve_right nofun
      rw [← hl.resolve_right nofun, hm] at hkept
      cases hkept
    | drops c' hc' _ =>
      obtain rfl := Option.some.inj hc'
      refine ⟨.intro False.elim ?_, rfl, rfl⟩
      exact (shown_givesAway _ _).trans (hj.trans (shown_givesAway _ _).symm)

/-- Whatever spawner a future is given to, the entry is over; and the same destructors run, if
any. -/
theorem bystander_spawns (hm : m.spawner ≠ some .eager) (hm' : m'.spawner ≠ some .eager)
    (hl : m.spawner.any Spawner.keeps = m'.spawner.any Spawner.keeps ∨ last = none)
    (k : ActivationId) (stack : List (Frame σ)) :
    Worlds.Spawns bystander m m' k last stack stack := by
  intro w w' q hw
  cases ha : w.activations.get? k with
  | none =>
    have ha' : w'.activations.get? k = none := by rw [hw.activations_eq, ha]
    rw [World.spawn, World.spawn, ha, ha']
    exact .none
  | some a =>
    have ha' : w'.activations.get? k = some a := by rw [hw.activations_eq, ha]
    obtain ⟨r, hr, hgiven⟩ := World.exists_givenAway hm ha q last stack
    obtain ⟨r', hr', hgiven'⟩ := World.exists_givenAway hm' ha' q last stack
    rw [hr, hr']
    exact .some (hw.givenAway hl hgiven hgiven')

/-- **The machines go in step**, since the spawner is asked at the end of a first poll alone. -/
theorem Runs.step (h : bystander.Runs r r') (hk : m.Kin m') (he : m'.config = m.config)
    (hm : m.spawner ≠ some .eager) (hm' : m'.spawner ≠ some .eager)
    (hl : m.spawner.any Spawner.keeps = m'.spawner.any Spawner.keeps ∨ r.leftover? = none) :
    Option.Rel bystander.Runs (r.step m) (r'.step m') := by
  obtain ⟨w, control, stack⟩ := r
  obtain ⟨w', control', stack'⟩ := r'
  obtain ⟨hw, hc, hs⟩ := h
  obtain rfl : control = control' := hc
  obtain rfl : stack' = stack := hs
  cases control with
  | code t c => exact hw.perform hk t c rfl
  | future poller k q =>
    refine hw.advance q (fun hp hq => bystander_spawns hm hm' (hl.imp_right fun hl => ?_) k stack')
      (fun _ => trivial) rfl
    subst hp
    simpa [Run.leftover?, hq] using hl
  | ended e =>
    cases stack' with
    | nil => exact .none
    | cons f stack' =>
      refine hw.proceed e (fun i tr p _ => ?_) (fun _ _ _ _ => trivial)
        (fun k _ => bystander_forgets k) rfl
      exact hw.enter i (fun inst _ => by rw [he]) trivial tr p (fun _ _ => trivial) rfl

/-- A deed that does not run the executor begins in the same way. -/
theorem Runs.start (h : bystander.Runs r r') {d : Deed σ} (hd : d.polls = false) :
    Option.Rel bystander.Runs (d.start? r.world) (d.start? r'.world) := by
  have hw := h.worlds
  cases d with
  | call c => exact .some ⟨hw, rfl, rfl⟩
  | handle k c =>
    simp only [Deed.start?, hw.activations_eq]
    split
    · exact .some ⟨hw, rfl, rfl⟩
    · exact .none
  | tick | poll t => cases hd

end Margin

/-- What holds of a course with spawner `sp`, beside one with spawner `sp'`. -/
structure Machine.Indifferent (m : Machine σ) (sp sp' : Option Spawner) (ds : List (Deed σ))
    (past : List (Run σ)) (r : Run σ) : Prop where
  /-- The same deeds, done with the other spawner, come to the same at every step. -/
  alike : ∃ past' r', Course (m.spawning sp') ds past' r' ∧ List.Forall₂ Run.Alike past past' ∧
    r.Alike r'
  /-- Every future is polled once, when it is handed back, and is given to the spawner once at
  most, when this poll has left it unfinished. -/
  handled : r.Handled (m.spawning sp) past

/-- **As long as the executor is not run, the spawner makes no difference**, be there none, one
that queues, one that discards, or one whose executor is gone: among those that keep futures, among
those that do not, and between the two if no future that is left unfinished has destructors that
run code. -/
theorem Course.indifferent (h : Course (m.spawning sp) ds past r) (hsp : sp ≠ some .eager)
    (hsp' : sp' ≠ some .eager) (hd : ∀ d ∈ ds, d.polls = false)
    (hl : sp.any Spawner.keeps = sp'.any Spawner.keeps ∨ ∀ s ∈ past, s.leftover? = none) :
    m.Indifferent sp sp' ds past r := by
  refine ⟨?_, h.handled hsp hd⟩
  suffices ∃ past' r', Course (m.spawning sp') ds past' r' ∧ List.Forall₂ Run.Alike past past' ∧
      Margin.bystander.Runs r r' by
    obtain ⟨past', r', h', hpast, hr⟩ := this
    exact ⟨past', r', h', hpast, hr.alike⟩
  induction h with
  | start c => exact ⟨[], _, .start c, .nil, .refl rfl, rfl, rfl⟩
  | @step ds past r s h hs ih =>
    obtain ⟨past', r', h', hpast, hr⟩ := ih hd (hl.imp_right fun hl s hs => hl s (.tail _ hs))
    have hkin : (m.spawning sp).Kin (m.spawning sp') := Machine.kin_spawning
    have hstep := hr.step hkin rfl hsp hsp' (hl.imp_right fun hl => hl r (.head _))
    obtain ⟨hnone, -⟩ | ⟨s₁, s', hs₁, hs', hrel⟩ := rel_cases hstep
    · cases hs.symm.trans hnone
    obtain rfl := Option.some.inj (hs.symm.trans hs₁)
    exact ⟨r' :: past', s', h'.step hs', .cons hr.alike hpast, hrel⟩
  | @next ds past r s h hover d hstart ih =>
    obtain ⟨past', r', h', hpast, hr⟩ := ih (fun d hd' => hd d (List.mem_append_left _ hd')) hl
    have hdeed := hr.start (hd d (List.mem_append_right _ List.mem_cons_self))
    obtain ⟨hnone, -⟩ | ⟨s₁, s', hs₁, hs', hrel⟩ := rel_cases hdeed
    · cases hstart.symm.trans hnone
    obtain rfl := Option.some.inj (hstart.symm.trans hs₁)
    exact ⟨past', s', h'.next (hr.ended hover) d hs', hpast, hrel⟩

/-! ### A lamp -/

namespace Lamp

/-- A lamp that waits when it is placed, until somebody presses its switch. -/
def sleeper : Machine sig where
  config := ⟨.ofPairs
    [(false, {
        transitions := .ofPairs [((), true)]
        effect := some (.finish (.pending (.act (.setContext (1 : Nat) (.finish .done)) fun _ =>
          .awaitAbort none .resolved none))) }),
      (true, {})]⟩
  initialState := false
  initialContext := (0 : Nat)
  spawner := none
  declared := by decide

/-- A lamp that waits is placed, and its switch is pressed. -/
def pressing : List (Deed sig) :=
  [.call (.place "lamp" .fresh fun _ => .send "lamp" () none .ofReply)]

end Lamp

/-- With a spawner that queues, the future of a lamp that waits becomes a task; whether it does is
of no concern to the lamp. -/
theorem lamp_indifferent : ∃ past r,
    (some Spawner.queue ≠ some .eager ∧ (none : Option Spawner) ≠ some .eager) ∧
    (∀ d ∈ Lamp.pressing, d.polls = false) ∧ (∀ s ∈ past, s.leftover? = none) ∧
    Course (Lamp.sleeper.spawning (some .queue)) Lamp.pressing past r ∧ r.Over ∧
    r.spawned = [0] ∧ Lamp.sleeper.Indifferent (some .queue) none Lamp.pressing past r := by
  obtain ⟨past, h, hpast⟩ := (Course.start (m := Lamp.sleeper.spawning (some .queue))
    (.place "lamp" .fresh fun _ => .send "lamp" () none .ofReply)).steps 40
  have hleft : ∀ a < 40, (Run.steps (Lamp.sleeper.spawning (some .queue)) a
      (.ofCode {} (.place "lamp" .fresh fun _ => .send "lamp" () none .ofReply))).leftover? =
        none := by decide +kernel
  have hl : ∀ s ∈ past, s.leftover? = none := by
    intro s hs
    obtain hs | ⟨a, ha, rfl⟩ := hpast s hs
    · cases hs
    · exact hleft a ha
  exact ⟨past, _, ⟨by decide, by decide⟩, by decide, hl, h,
    Option.isSome_iff_exists.1 (by decide +kernel), by decide +kernel,
    h.indifferent (by decide) (by decide) (by decide) (.inr hl)⟩

/-! ### Destructors -/

theorem Course.ne_nil (h : Course m ds past r) : ds ≠ [] := by
  induction h with
  | start => exact List.cons_ne_nil _ _
  | step _ _ ih => exact ih
  | next => exact List.append_ne_nil_of_right_ne_nil _ (List.cons_ne_nil _ _)

/-- What is called alone leads to whatever comes of it. -/
theorem Course.leads {c : Code σ} (h : Course m [.call c] past r) :
    (Run.ofCode {} c).Leads m r := by
  generalize hds : [Deed.call c] = ds at h
  induction h with
  | start c' =>
    cases hds
    exact .refl _
  | step _ hs ih => exact (ih hds).trans (.step hs (.refl _))
  | next h => exact absurd (List.append_eq_cons_iff.1 hds.symm) (by simp [h.ne_nil])

namespace Lamp

/-- A lamp that leaves a future behind when it is placed. What the future owns holds the handle of
its activation, and presses the switch when it is destroyed. -/
def sprung : Machine sig where
  config := ⟨.ofPairs
    [(false, {
        transitions := .ofPairs [((), true)]
        effect := some (.finish (.pending
          (.never (some (.dispatch () none fun _ => .finish .done))))) }),
      (true, {})]⟩
  initialState := false
  initialContext := (0 : Nat)
  spawner := none
  declared := by decide

def placing : List (Deed sig) := [.call (.place "lamp" .fresh .ofReply)]

theorem confined_sprung : sprung.Confined := by
  intro s c h
  cases s with
  | true => cases h
  | false =>
    obtain rfl := Option.some.inj h
    refine .finish (.pending (.never fun c hc => ?_))
    obtain rfl := Option.some.inj hc
    exact .dispatch _ _ fun _ => .finish .done

end Lamp

/-- Though the future of the lamp owns no instance, it makes a difference whether it is kept: the
lamp is off if a spawner queues the future, and on if there is none. -/
theorem lamp_disturbed : Lamp.sprung.Confined ∧ (∀ d ∈ Lamp.placing, d.polls = false) ∧
    ∃ past r, Course (Lamp.sprung.spawning (some .queue)) Lamp.placing past r ∧
      ¬ Lamp.sprung.Indifferent (some .queue) none Lamp.placing past r := by
  obtain ⟨past, h, -⟩ := (Course.start (m := Lamp.sprung.spawning (some .queue))
    (.place "lamp" .fresh .ofReply)).steps 40
  refine ⟨Lamp.confined_sprung, by decide, past, _, h, fun hi => ?_⟩
  obtain ⟨past', r', h', -, halike⟩ := hi.alike
  have hover : (Run.steps (Lamp.sprung.spawning (some .queue)) 40
      (.ofCode {} (.place "lamp" .fresh .ofReply))).Over :=
    Option.isSome_iff_exists.1 (by decide +kernel)
  obtain ⟨e, hc, hs⟩ := Run.over_iff.1 hover
  -- the other course is over as well, and there is but one end that it can have come to
  obtain rfl : Run.steps (Lamp.sprung.spawning none) 40
      (.ofCode {} (.place "lamp" .fresh .ofReply)) = r' :=
    h'.leads.eq_of_over (Run.over_iff.2 ⟨e, halike.control.trans hc, halike.stack.trans hs⟩)
      (Option.isSome_iff_exists.1 (by decide +kernel))
  have hstate := congrArg (fun instances => (instances.get? 0).map fun i => i.state.value)
    halike.instances
  exact absurd hstate (by decide +kernel)

end Statechart
