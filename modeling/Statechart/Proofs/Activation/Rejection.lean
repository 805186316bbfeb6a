import Statechart.Session
import Statechart.Proofs.Activation.Handle
import Statechart.Proofs.Activation.Release
import Statechart.Proofs.Loop.Plain
import Statechart.Proofs.Run.Stack

/-!
Placements that fail. Until its first entry has succeeded, no slot holds a new instance, and nobody
but the placement owns it. So no owner dispatches on it, and however far its effects move it on
through their handles, its activations follow one another. When the entry fails, the placement gives
the instance up: this exits what is live then, and as everything else has been exited before,
nothing is left of the instance that a handle could work on.
-/

namespace Statechart

variable {σ : Signature} {m : Machine σ} {ok : Run σ → Prop} {r r' : Run σ} {l : Life σ}
  {w : World σ} {stack base : List (Frame σ)} {i : InstanceId} {k : ActivationId} {slot : String}

/-! ### Instances that have not been placed -/

/-- The account is kept of every activation of instance `i`, and of those that it may still
start. -/
def Life.Audited (l : Life σ) (i : InstanceId) : Prop :=
  ∀ k, (∀ t, l.activations k = some t → t.owner = i) → l.Account k

theorem Life.Audited.move (h : r.life.Audited i) (hs : r.life.Sound) (hl : r.life.LiveAt i)
    (hm : Move m r l) : l.Audited i := by
  intro k hk
  have hold : ∀ t, r.life.activations k = some t → t.owner = i := by
    intro t ht
    obtain ⟨t', ht', ho, -⟩ := hm.ages hs.toCounted ht
    exact ho.symm.trans (hk t' ht')
  exact (h k hold).move hs (fun t ht => hold t ht ▸ hl) hm

/-- An activation keeps its owner. -/
theorem Run.Path.ages (hr : Reach m ok r) (hp : r.Path m ok r') {t : Tenure σ}
    (hk : r.life.activations k = some t) :
    ∃ t', r'.life.activations k = some t' ∧ t'.owner = t.owner := by
  induction hp with
  | refl => exact ⟨t, hk, rfl⟩
  | step hp _ hs ih =>
    obtain ⟨t', hk', ho'⟩ := ih
    obtain ⟨t'', hk'', ho'', -⟩ := (move_step hs).ages (hr.path hp).sound.toCounted hk'
    exact ⟨t'', hk'', ho''.trans ho'⟩
  | turn _ ht ih =>
    rw [life_turn ht]
    exact ih

namespace Reach

/-- The account of an activation is right before its start. -/
theorem account_unstarted (h : Reach m ok r) (hk : r.life.activations k = none) :
    r.life.Account k := by
  revert hk
  refine h.life_induction (P := fun l => l.activations k = none → l.Account k)
    (fun _ => .empty k) fun r l hr _ ih hm hk => ?_
  have hbefore : r.life.activations k = none := by
    by_contra hne
    obtain ⟨t, ht⟩ := Option.ne_none_iff_exists'.1 hne
    obtain ⟨t', ht', -⟩ := hm.ages hr.sound.toCounted ht
    rw [hk] at ht'
    cases ht'
  refine (ih hbefore).move hr.sound (fun t ht => ?_) hm
  rw [hbefore] at ht
  cases ht

theorem audited_unplaced (h : Reach m ok r) (hi : r.life.placed ≤ i) : r.life.Audited i := by
  intro k hk
  refine h.account_unstarted ?_
  by_contra hne
  obtain ⟨t, ht⟩ := Option.ne_none_iff_exists'.1 hne
  have hlt := h.sound.owner k t ht
  exact Nat.not_lt.2 hi (hk t ht ▸ hlt)

/-- What has an owner has been placed. -/
theorem owned_placed (h : Reach m ok r) (ho : r.owned i = true) : i < r.life.placed := by
  induction h with
  | start c =>
    rcases owned_iff.1 ho with ⟨s, hs⟩ | hf
    · cases hs
    · cases hf
  | step _ _ hs ih =>
    rcases (Run.step_cedes hs).owned i ho with hold | ⟨-, hlt⟩
    · exact Nat.lt_of_lt_of_le (ih hold) (Run.move_step hs).placed_le
    · exact hlt
  | turn _ ht ih =>
    rw [Run.life_turn ht]
    exact ih ((Run.owned_turn ht i).symm.trans ho)

theorem unowned_unplaced (h : Reach m ok r) (hi : r.life.placed ≤ i) : r.owned i = false := by
  by_contra ho
  exact Nat.not_lt.2 hi (h.owned_placed (by simpa using ho))

end Reach

/-! ### What is left -/

/-- Nothing is left of instance `i` but the accounts of its activations. -/
structure Run.Extinct (r : Run σ) (i : InstanceId) : Prop extends Run.Vacated r i where
  live : r.life.LiveAt i
  audited : r.life.Audited i

namespace Run.Extinct

theorem step (h : r.Extinct i) (hs : r.life.Sound) (hstep : r.step m = some r') :
    r'.Extinct i where
  toVacated := h.toVacated.step h.live hstep
  live := h.live.move hs (fun _ _ _ _ _ hst _ _ =>
    absurd rfl (h.still _ (hst ▸ List.mem_cons_self))) (move_step hstep)
  audited := h.audited.move hs h.live (move_step hstep)

theorem turn (h : r.Extinct i) (ht : r.Turn r') : r'.Extinct i where
  toVacated := h.toVacated.turn ht
  live := life_turn ht ▸ h.live
  audited := life_turn ht ▸ h.audited

theorem path (h : r.Extinct i) (hr : Reach m ok r) (hp : r.Path m ok r') : r'.Extinct i := by
  induction hp with
  | refl => exact h
  | step hp _ hs ih => exact ih.step (hr.path hp).sound hs
  | turn _ ht ih => exact ih.turn ht

/-- All activations of an instance of which nothing is left are over. -/
theorem aborted (h : r.Extinct i) (hs : r.life.Sound) {t : Tenure σ}
    (hk : r.life.activations k = some t) (ho : t.owner = i) : t.aborted = true := by
  by_contra hlive
  obtain ⟨s, hi⟩ := Option.isSome_iff_exists.1 ((hs.placed i).2 h.placed)
  have hactive := h.live k t s hk ho (by simpa using hlive) hi
  rw [h.vacant s hi] at hactive
  cases hactive

end Run.Extinct

/-- Code on activation `k` can neither dispatch nor set the context: the call is answered as if it
had succeeded, is logged as one warning, and leaves everything else as it is. -/
def Run.Refuses (m : Machine σ) (r : Run σ) (k : ActivationId) : Prop :=
  ∀ t : Target σ, t.activation? = some k →
    (∀ a p next, r.control = .code t (.dispatch a p next) → ∃ e : Event σ, e.Warns ∧
      r.step m = some ⟨r.world.record e, .code t (next (some (.ok ()))), r.stack⟩) ∧
    ∀ c next, r.control = .code t (.setContext c next) → ∃ e : Event σ, e.Warns ∧
      r.step m = some ⟨r.world.record e, .code t next, r.stack⟩

theorem Run.refuses_of_aborted {a : Activation σ} (hk : r.world.activations.get? k = some a)
    (ha : a.signal.aborted = true) : r.Refuses m k := by
  refine fun t ht => ⟨fun act p next hc => ?_, fun c next hc => ?_⟩
  · refine ⟨.dispatchExpired k a.state act, ⟨_, rfl, rfl⟩, ?_⟩
    simp only [step, hc]
    exact World.forward_expired ht hk ha act p next
  · refine ⟨.contextExpired k a.state, ⟨_, rfl, rfl⟩, ?_⟩
    simp only [step, hc]
    exact World.setContext_expired ht hk ha c next

/-! ### A placement on its way -/

/-- Nobody dispatches as an owner on an instance that no slot holds. -/
theorem Run.not_sends (h : ∀ s, r.world.slots.get? s ≠ some i) : ¬ r.Sends i := by
  rintro ⟨t, s, a, p, next, -, hi⟩
  exact h s hi

/-- Instance `i` is there, but no slot holds it. -/
structure Run.Fresh (r : Run σ) (i : InstanceId) : Prop where
  placed : i < r.life.placed
  unheld : ∀ s, r.world.slots.get? s ≠ some i
  tended : r.life.Tended i
  audited : r.life.Audited i

/-- How far a placement of instance `i` has come whose caller goes on with `base`. -/
inductive Run.Placement (i : InstanceId) (slot : String) (base : List (Frame σ)) (r : Run σ) : Prop
  /-- The first entry is under way. -/
  | enters {above} (hs : r.stack = above ++ .placing i slot :: base)
      (ha : ∀ f ∈ above, f.places? ≠ some i) (h : r.Fresh i)
  /-- The entry is over, and an instance is given up: the new one, or the one whose slot it gets. -/
  | parts {above j e} (hs : r.stack = above ++ .farewell j e :: base)
      (he : ∀ x, e = .error x → r.Extinct i)
  | returns {e} (hc : r.control = .ended e) (hs : r.stack = base)
      (he : ∀ x, e = .error x → r.Extinct i)

/-- An exit adds nothing to what is under way but itself. -/
theorem World.exit_stages (h : w.exit i stack = some r) {g : Stage σ} (hg : g ∈ r.life.stages) :
    g ∈ stagesOf stack ∨ ∃ k c, g = .exiting k c := by
  cases exit_cases h with
  | vacant => exact .inl hg
  | active =>
    rw [life_observing] at hg
    exact (List.mem_cons.1 hg).symm.imp id fun e => ⟨_, _, e⟩

namespace Run.Fresh

theorem step (h : r.Fresh i) (hs : r.life.Sound) (hstep : r.step m = some r')
    (hp : ∀ e s stack, r.control = .ended e → r.stack ≠ .placing i s :: stack) : r'.Fresh i where
  placed := Nat.lt_of_lt_of_le h.placed (move_step hstep).placed_le
  unheld s hi := by
    rcases (step_cedes hstep).slots s i hi with hold | ⟨e, stack, hc, hst⟩
    · exact h.unheld s hold
    · exact hp e s stack hc hst
  tended := h.tended.move hs (fun hsend => absurd hsend (not_sends h.unheld)) (move_step hstep)
  audited := h.audited.move hs h.tended.live (move_step hstep)

theorem turn (h : r.Fresh i) (ht : r.Turn r') : r'.Fresh i where
  placed := life_turn ht ▸ h.placed
  unheld := slots_turn ht ▸ h.unheld
  tended := life_turn ht ▸ h.tended
  audited := life_turn ht ▸ h.audited

end Run.Fresh

/-- **What a failed first entry leaves behind.** The placement is the only owner of its instance,
so that it lets it go. -/
theorem Run.Fresh.rejects {x : MachineError}
    (h : Run.Fresh ⟨w, .ended (.error x), .placing i slot :: base⟩ i)
    (hs : (w.life (stagesOf base)).Sound) (ho : base.any (Frame.owns i) = false)
    (hb : ∀ g ∈ stagesOf base, g.enters? ≠ some i)
    (hstep : Run.step m ⟨w, .ended (.error x), .placing i slot :: base⟩ = some r) :
    r.Extinct i ∧ ∃ above, r.stack = above ++ .farewell i (.error x) :: base := by
  have hm := move_step hstep
  have hr : w.release i (.error x) base = some r := hstep
  have hunowned : Statechart.owned w base i = false := by
    by_contra hne
    rcases owned_iff.1 (by simpa using hne) with ⟨s, hi⟩ | hown
    · exact h.unheld s hi
    · rw [ho] at hown
      cases hown
  rw [World.release, if_neg (by simp [hunowned])] at hr
  obtain ⟨above, habove⟩ := (World.upon_exit (P := fun _ => False) (n := i) hr).suffix
  have htended : r.life.Tended i :=
    h.tended.move hs (fun hsend => absurd hsend (not_sends h.unheld)) hm
  have hleaving : .leaving i ∈ r.life.stages :=
    (mem_stages_iff rfl).2 ⟨.farewell i (.error x), by simp [← habove], rfl⟩
  refine ⟨⟨⟨?_, ?_, fun s hi => ?_, fun g hg he => ?_⟩, htended.live, ?_⟩, above, habove.symm⟩
  · exact Nat.lt_of_lt_of_le h.placed hm.placed_le
  · exact ((World.keeps_exit hr).owned_eq i).trans hunowned
  · exact htended.vacant s hi _ hleaving rfl
  · rcases World.exit_stages hr hg with hold | ⟨k, c, rfl⟩
    · rcases List.mem_cons.1 hold with rfl | hold
      · cases he
      · exact hb g hold he
    · cases he
  · exact h.audited.move hs h.tended.live hm

/-- A successful placement has nothing to hand back but the ending of the release that it causes. -/
theorem World.placement_of_store (h : w.store slot i base = some r) : r.Placement i slot base := by
  cases store_cases h with
  | empty => exact .returns rfl rfl nofun
  | replaces _ h =>
    cases release_cases h with
    | shared => exact .returns rfl rfl nofun
    | last _ h =>
      obtain ⟨above, habove⟩ := (upon_exit (P := fun _ => False) (n := i) h).suffix
      exact .parts habove.symm nofun

/-- What stands upon a stack is not the stack. -/
theorem ne_append_cons (above : List (Frame σ)) (f : Frame σ) : base ≠ above ++ f :: base := by
  intro h
  have hlength := congrArg List.length h
  simp only [List.length_append, List.length_cons] at hlength
  omega

namespace Run.Placement

section Step

variable (hs : r.life.Sound) (ho : base.any (Frame.owns i) = false)
  (hb : ∀ g ∈ stagesOf base, g.enters? ≠ some i) (hn : ¬ r.Back base)
  (hstep : r.step m = some r')

include hs hstep

theorem step_parts {above : List (Frame σ)} {j : InstanceId} {e : Ending σ}
    (hst : r.stack = above ++ .farewell j e :: base) (he : ∀ x, e = .error x → r.Extinct i) :
    r'.Placement i slot base := by
  have hext : ∀ x, e = .error x → r'.Extinct i := fun x hx => (he x hx).step hs hstep
  by_cases hback : r.Back (.farewell j e :: base)
  · obtain ⟨w, e', rfl⟩ := hback.eq
    obtain rfl := Option.some.inj hstep
    exact .returns rfl rfl hext
  · obtain ⟨above', hst', -⟩ := above_step hstep hst hback
    exact .parts hst' hext

include ho hb

theorem step_enters {above : List (Frame σ)} (hst : r.stack = above ++ .placing i slot :: base)
    (ha : ∀ f ∈ above, f.places? ≠ some i) (h : r.Fresh i) : r'.Placement i slot base := by
  by_cases hback : r.Back (.placing i slot :: base)
  · obtain ⟨w, e, rfl⟩ := hback.eq
    cases e with
    | ok o => exact World.placement_of_store hstep
    | error x =>
      obtain ⟨hext, above, hst'⟩ := h.rejects hs ho hb hstep
      exact .parts hst' fun _ _ => hext
  · obtain ⟨above', hst', hmem⟩ := above_step hstep hst hback
    refine .enters hst' (fun f hf hp => ?_) (h.step hs hstep fun e s stack hc hs' => ?_)
    · rcases hmem f hf with hf | hnew
      · exact ha f hf hp
      · exact Nat.ne_of_lt h.placed (hnew i hp)
    · -- the frame on top would be that of a second placement of `i`
      rw [hst] at hs'
      cases above with
      | nil => exact hback ⟨⟨e, hc⟩, hst⟩
      | cons f above =>
        obtain rfl := (List.cons.inj hs').1
        exact ha _ List.mem_cons_self rfl

include hn

/-- **A placement goes on until its caller does.** -/
theorem step (h : r.Placement i slot base) : r'.Placement i slot base := by
  cases h with
  | enters hst ha hfresh => exact step_enters hs ho hb hstep hst ha hfresh
  | parts hst he => exact step_parts hs hstep hst he
  | returns hc hst he => exact absurd ⟨⟨_, hc⟩, hst⟩ hn

end Step

theorem turn (h : r.Placement i slot base) (hne : base ≠ []) (ht : r.Turn r') :
    r'.Placement i slot base := by
  obtain ⟨new, hnew, hplaces⟩ := (upon_turn (n := i + 1) ht).above
  cases h with
  | enters hst ha hfresh =>
    rw [hst, ← List.append_assoc] at hnew
    refine .enters hnew (fun f hf hp => ?_) (hfresh.turn ht)
    rcases List.mem_append.1 hf with hf | hf
    · exact Nat.ne_of_lt (Nat.lt_succ_self i) (hplaces f hf i hp)
    · exact ha f hf hp
  | parts hst he =>
    rw [hst, ← List.append_assoc] at hnew
    exact .parts hnew fun x hx => (he x hx).turn ht
  | returns hc hst he =>
    -- when something has ended, whoever takes a turn finds an empty stack
    cases ht with
    | code | future | poll => cases hc
    | call | handle | executor => exact absurd hst.symm hne

/-- **A placement goes on until its caller does**, whatever user code does meanwhile. -/
theorem path (h : r.Placement i slot base) (hr : Reach m (fun _ => True) r)
    (ho : base.any (Frame.owns i) = false) (hb : ∀ g ∈ stagesOf base, g.enters? ≠ some i)
    (hne : base ≠ []) (hp : r.Path m (fun r => ¬ r.Back base) r') : r'.Placement i slot base := by
  induction hp with
  | refl => exact h
  | step hp hn hs ih =>
    have hreach := hr.path (hp.mono fun _ _ => trivial)
    exact ih.step hreach.sound ho hb hn hs
  | turn _ ht ih => exact ih.turn hne ht

/-- When the caller goes on with an error, nothing is left of the instance. -/
theorem extinct (h : r.Placement i slot base) {x : MachineError}
    (hc : r.control = .ended (.error x)) (hs : r.stack = base) : r.Extinct i := by
  cases h with
  | @enters above hst _ _ => exact absurd (hs.symm.trans hst) (ne_append_cons above _)
  | @parts above j e hst _ => exact absurd (hs.symm.trans hst) (ne_append_cons above _)
  | @returns e hc' _ he => exact he x (Control.ended.inj (hc'.symm.trans hc))

end Run.Placement

/-! ### All of it -/

/-- The world in which a placement reports what it starts from. -/
def World.announce (w : World σ) : Origin σ → World σ
  | .resumed s _ => w.record (.resuming s)
  | _ => w

theorem World.place_eq (t : Target σ) (o : Origin σ) (next : Reply → Code σ) :
    w.place m t slot o next stack =
      (w.announce o).start m t slot (o.state m) (o.context m) next stack := by
  cases o <;> rfl

/-- The first step of a placement leaves its first entry to be made. -/
theorem Reach.placement (h : Reach m ok r) {t : Target σ} {o : Origin σ} {next : Reply → Code σ}
    (hc : r.control = .code t (.place slot o next)) (hstep : r.step m = some r')
    (hst : r'.stack = .entering r.world.instances.size .initial none ::
      .placing r.world.instances.size slot :: .resume t next :: r.stack) :
    r'.Placement r.world.instances.size slot (.resume t next :: r.stack) := by
  have hm := Run.move_step hstep
  have htended := Life.Tended.unplaced h.sound (Nat.le_refl r.life.placed)
  have hunowned : r.owned r.world.instances.size = false := h.unowned_unplaced (Nat.le_refl _)
  have hunheld (s) : r.world.slots.get? s ≠ some r.world.instances.size := by
    intro hi
    rw [Run.owned, owned_of_slot hi] at hunowned
    cases hunowned
  have habove : r'.stack = [.entering r.world.instances.size .initial none] ++
      .placing r.world.instances.size slot :: .resume t next :: r.stack := hst
  refine .enters habove (by simp [Frame.places?]) ⟨?_, fun s hi => ?_, ?_, ?_⟩
  · have howned : r'.owned r.world.instances.size = true :=
      owned_iff.2 (.inr (by simp [hst, Frame.owns]))
    rcases (Run.step_cedes hstep).owned _ howned with hold | ⟨-, hlt⟩
    · rw [hunowned] at hold
      cases hold
    · exact hlt
  · rcases (Run.step_cedes hstep).slots s _ hi with hold | ⟨e, stack, hc', -⟩
    · exact hunheld s hold
    · cases hc.symm.trans hc'
  · exact htended.move h.sound (fun hsend => absurd hsend (Run.not_sends hunheld)) hm
  · exact (h.audited_unplaced (Nat.le_refl _)).move h.sound htended.live hm

/-- **A rejected instance is finished with.** What its activations still owe would be due on a part
of the stack that was there before them. -/
theorem Run.Extinct.finished (h : r'.Extinct i) (hr : Reach m ok r) (hp : r.Path m ok r')
    (hi : r.life.placed ≤ i) (hs : r'.life.stages = r.life.stages) {a : Activation σ}
    (hk : r'.world.activations.get? k = some a) (ho : a.owner = i) :
    r'.Finished k ∧ r'.cleanupsGiven k ≤ 1 := by
  have hk' : r'.life.activations k = some a.tenure := World.life_activations hk
  have haccount : r'.life.Account k := by
    refine h.audited k fun t ht => ?_
    obtain rfl := Option.some.inj (hk'.symm.trans ht)
    exact ho
  have hunstarted : r.life.activations k = none := by
    by_contra hne
    obtain ⟨t, ht⟩ := Option.ne_none_iff_exists'.1 hne
    obtain ⟨t', ht', hto⟩ := hp.ages hr ht
    obtain rfl := Option.some.inj (hk'.symm.trans ht')
    have hlt := hr.sound.owner k t ht
    rw [← hto, show a.tenure.owner = i from ho] at hlt
    exact Nat.not_lt.2 hi hlt
  have hdue : r'.life.due k = 0 := by
    have hbefore := hr.account_unstarted hunstarted
    have hnone : r.life.tally Event.gives? k = 0 := by
      by_contra hne
      have hlt := (hbefore.given (Nat.pos_of_ne_zero hne)).1
      rw [← hr.sound.started, hunstarted] at hlt
      cases hlt
    have hbalance := hbefore.balance
    rw [show r'.life.due k = r.life.due k by simp only [Life.due, Life.exits, hs]]
    omega
  have hover := h.aborted (hr.path hp).sound hk' ho
  refine ⟨haccount.finished hk' hover hdue, ?_⟩
  rw [← r'.cleanupsGiven_life]
  exact haccount.once

/-- **A failed start leaves nothing behind.** A checkpoint of another version is refused before
anything is run, and an undeclared state before anything is placed. Otherwise the instance is
placed and entered; and when the caller goes on with an error, whatever user code has done
meanwhile, each activation of the instance was aborted once, and the cleanup that its effect has
handed back was run once. From then on nobody owns the instance, and whoever has kept one of its
handles can neither dispatch nor set the context through it. -/
theorem Reach.rejected (h : Reach m (fun _ => True) r) {t : Target σ} {o : Origin σ}
    {next : Reply → Code σ} (hc : r.control = .code t (.place slot o next)) :
    (∀ fuel c (s : Session σ), c.version ≠ Checkpoint.supported → s.resume fuel slot c =
      (s, .error (.unsupportedVersion c.version Checkpoint.supported))) ∧
    (m.config.contains (o.state m) = false → r.step m = some ⟨r.world.announce o,
      .code t (next (some (.error (.unknownState (σ.stateName (o.state m)))))), r.stack⟩) ∧
    (m.config.contains (o.state m) = true → ∃ w,
      let i := r.world.instances.size
      let base := .resume t next :: r.stack
      let r₁ : Run σ := ⟨w, .ended .done, .entering i .initial none :: .placing i slot :: base⟩
      r.step m = some r₁ ∧
      ∀ r₂ x, r₁.Path m (fun r => ¬ r.Back base) r₂ → r₂.control = .ended (.error x) →
        r₂.stack = base →
        (∀ k a, r₂.world.activations.get? k = some a → a.owner = i →
          r₂.Finished k ∧ r₂.cleanupsGiven k ≤ 1) ∧
        ∀ r₃, r₂.Path m (fun _ => True) r₃ → r₃.owned i = false ∧
          ∀ k a, r₃.world.activations.get? k = some a → a.owner = i → r₃.Refuses m k) := by
  have hstep : r.step m = some ((r.world.announce o).start m t slot (o.state m) (o.context m) next
      r.stack) := by
    rw [← World.place_eq]
    simp only [Run.step, hc]
    rfl
  refine ⟨fun fuel c s hv => ?_, fun hd => ?_, fun hd => ?_⟩
  · simp [Session.resume, Checkpoint.checkVersion, hv]
  · rw [hstep, World.start, if_neg (by simp [hd])]
    rfl
  · rw [World.start, if_pos hd] at hstep
    have hsize : (r.world.announce o).instances = r.world.instances := by cases o <;> rfl
    rw [hsize] at hstep
    refine ⟨_, hstep, fun r₂ x hp hx hst => ?_⟩
    have hreach := h.step trivial hstep
    have hfirst : r.Path m (fun _ => True) _ := .step .refl trivial hstep
    have hpath := hfirst.trans (hp.mono fun _ _ => trivial)
    have hunowned : r.stack.any (Frame.owns r.world.instances.size) = false :=
      (Bool.or_eq_false_iff.1 (h.unowned_unplaced (Nat.le_refl _))).2
    have hstages : r.life.stages = stagesOf (.resume t next :: r.stack) := by
      rw [Run.life, hc]
      rfl
    have hcalm : ∀ g ∈ stagesOf (.resume t next :: r.stack),
        g.enters? ≠ some r.world.instances.size := by
      intro g hg he
      exact Nat.lt_irrefl r.life.placed
        (h.sound.transits g (hstages ▸ hg) _ (Stage.transit?_of_enters? he))
    have hext := ((h.placement hc hstep rfl).path hreach hunowned hcalm (by simp) hp).extinct hx hst
    refine ⟨fun k a hk ho => ?_, fun r₃ hp₃ => ⟨?_, fun k a hk ho => ?_⟩⟩
    · refine hext.finished h hpath (Nat.le_refl _) ?_ hk ho
      rw [hstages, Run.life, hx, hst]
      rfl
    · exact (hext.path (h.path hpath) hp₃).unowned
    · have hlater := (h.path hpath).path hp₃
      have hover := (hext.path (h.path hpath) hp₃).aborted hlater.sound
        (World.life_activations hk) ho
      exact Run.refuses_of_aborted hk hover

namespace Lamp

/-- A lamp whose first effect moves it on, and fails after that; its second state owes a cleanup. -/
def faulty : Machine sig where
  config := ⟨.ofPairs
    [(false, {
        transitions := .ofPairs [((), true)]
        effect := some (.dispatch () none fun _ =>
          .raise (.effectFailed "off" "the bulb is broken")) }),
      (true, { effect := some (.finish (.cleanup (.finish .done))) })]⟩
  initialState := false
  initialContext := (0 : Nat)
  spawner := none
  declared := by decide

/-- The moment at which whoever has placed this lamp goes on. -/
def refused : Run sig := placement.steps faulty 17

end Lamp

/-- This lamp is rejected. Both its activations have been aborted once, and the cleanup of the
second one has been run. -/
theorem lamp_rejected : Lamp.refused.Finished 0 ∧ Lamp.refused.Finished 1 ∧
    Lamp.refused.cleanupsGiven 1 = 1 := by
  have h : Reach Lamp.faulty (fun _ => True) Lamp.placement := .start _
  obtain ⟨-, -, hplace⟩ := h.rejected (t := .bare) (o := .fresh) rfl
  obtain ⟨w, hfirst, hreturn⟩ := hplace (by decide +kernel)
  have hbusy : ∀ a < 16, (Lamp.placement.steps Lamp.faulty (a + 1)).stack.length ≠ 1 := by
    decide +kernel
  have hreached : Lamp.refused = _ := Run.steps_succ hfirst 16
  have hpath : Run.Path Lamp.faulty (fun r => ¬ r.Back [.resume .bare .ofReply])
      ⟨w, .ended .done, [.entering 0 .initial none, .placing 0 "lamp", .resume .bare .ofReply]⟩
      Lamp.refused := by
    rw [hreached]
    refine .steps .refl fun a ha hback => hbusy a ha ?_
    rw [Run.steps_succ hfirst]
    exact congrArg List.length hback.2
  obtain ⟨hfinished, -⟩ := hreturn Lamp.refused _ hpath rfl rfl
  exact ⟨(hfinished 0 _ rfl rfl).1, (hfinished 1 _ rfl rfl).1, by decide +kernel⟩

end Statechart
