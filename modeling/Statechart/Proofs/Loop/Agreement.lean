import Statechart.Proofs.Loop.Body
import Statechart.Proofs.Run.Ownership

/-!
The machine agrees with the plain loop. A transition in the middle of a body leaves the rest of the
body on the stack, at every level of the nesting; all of it belongs to activations that are over,
so that it comes to its end after the last entry and moves nothing.
-/

namespace Statechart

variable {σ : Signature} {m : Machine σ} {w w' : World σ} {i : InstanceId} {s : σ.State}
  {x : σ.Context} {tr : Trigger σ.Action} {p : Option σ.Payload} {r : Run σ}

/-! ### The chain of entries -/

theorem Run.not_over_of_cons {e : Ending σ} {f : Frame σ} {stack : List (Frame σ)} :
    ¬ Run.Over ⟨w, .ended e, f :: stack⟩ := by
  rw [over_iff]
  rintro ⟨-, -, ⟨⟩⟩

/-- What a transition leaves of the body of `k` is inert, like all that is below it. -/
theorem Frame.inert_left {k : ActivationId} {t : Target σ} {next : Reply → Code σ}
    {frames : List (Frame σ)} (ht : t.activation? = some k) (hk : w.aborted k = true)
    (hn : ∀ r, (next r).Own) (hf : ∀ f ∈ frames, f.Inert w) :
    ∀ f ∈ .pinning i :: .resume t next :: .body k :: frames, f.Inert w := by
  intro f hfm
  rcases List.mem_cons.1 hfm with rfl | hfm
  · exact .pinning i
  rcases List.mem_cons.1 hfm with rfl | hfm
  · exact .resume ht hk hn
  rcases List.mem_cons.1 hfm with rfl | hfm
  · exact .body hk
  · exact hf f hfm

/-- What the entry into the state `s` leads to: `base` goes on once the loop has come to its end,
with the instance where the loop has left it. -/
def Run.Loops (m : Machine σ) (r : Run σ) (w : World σ) (i : InstanceId) (s : σ.State)
    (x : σ.Context) (tr : Trigger σ.Action) (p : Option σ.Payload) (base : List (Frame σ)) : Prop :=
  ∃ fuel t y visits, m.loop fuel s x tr p = some (t, y, visits) ∧
    ∃ w' e act, r.Leads m ⟨w', .ended e, base⟩ ∧ w.Aside i w' ∧
      w'.instances.get? i = some ⟨⟨t, []⟩, ⟨y, []⟩, act⟩ ∧
      w'.visits i = w.visits i ++ visits ∧ ∀ k, act = some k → k < w'.activations.size

section

variable {base frames : List (Frame σ)} {e : Ending σ}

/-- A state without effect ends the loop. -/
theorem Run.loops_bare (he : m.config.effect? s = none)
    (hi : w.instances.get? i = some ⟨⟨s, []⟩, ⟨x, []⟩, none⟩) (hf : ∀ f ∈ frames, f.Inert w) :
    Run.Loops m ⟨w, .ended e, .entering i tr p :: (frames ++ base)⟩ w i s x tr p base := by
  have hstep : Run.step m ⟨w, .ended e, .entering i tr p :: (frames ++ base)⟩ =
      some ⟨w.record (.entered i s tr p), .ended .done, frames ++ base⟩ :=
    World.enter_bare hi he _
  have hside := w.aside_record i (.entered i s tr p)
  obtain ⟨w', e', hl, hu, -⟩ := World.unwind (m := m) (w := w.record (.entered i s tr p))
    (fun f hfm => (hf f hfm).mono hside.aborted) Ending.own_done base
  refine ⟨1, s, x, [⟨s, tr, p⟩], by simp [Machine.loop, he], w', e', none, .step hstep hl,
    hside.trans (hu.aside i), ?_, ?_, by rintro _ ⟨⟩⟩
  · rw [hu.instances]
    exact hi
  · rw [hu.visits, World.visits_record]
    simp [Event.visit?]

/-- A body that comes to its end ends the loop, and then comes to its end all that is below it. -/
theorem Run.loops_ends {c : Code σ} {y : σ.Context} (he : m.config.effect? s = some c)
    (hp : c.alone m s tr x p = .ends y)
    (hstep : Run.step m ⟨w, .ended e, .entering i tr p :: (frames ++ base)⟩ =
      some ⟨w.begin i s tr p, .code (.environment k tr p) c, .body k :: (frames ++ base)⟩)
    (hfollows : Run.Follows m ⟨w.begin i s tr p, .code (.environment k tr p) c,
      .body k :: (frames ++ base)⟩ (w.begin i s tr p) i k s tr (.body k :: (frames ++ base))
      (.ends y)) (hf : ∀ f ∈ frames, f.Inert w) :
    Run.Loops m ⟨w, .ended e, .entering i tr p :: (frames ++ base)⟩ w i s x tr p base := by
  obtain ⟨w₁, e₁, hl₁, hside₁, hv₁, hlive, he₁⟩ := hfollows
  obtain ⟨w₂, e₂, hl₂, hu₂, he₂⟩ := hlive.conclude_leads (m := m) he₁ (frames ++ base)
  have hside₂ := ((w.aside_begin i s tr p).trans hside₁).trans (hu₂.aside i)
  obtain ⟨w', e', hl, hu, -⟩ := World.unwind (m := m)
    (fun f hfm => (hf f hfm).mono hside₂.aborted) he₂ base
  refine ⟨1, s, y, [⟨s, tr, p⟩], by simp [Machine.loop, he, hp], w', e', some k,
    .step hstep (hl₁.trans (hl₂.trans hl)), hside₂.trans (hu.aside i), ?_, ?_, ?_⟩
  · rw [hu.instances, hu₂.instances]
    exact hlive.inst
  · rw [hu.visits, hu₂.visits, hv₁, w.visits_begin]
  · rintro _ ⟨⟩
    obtain ⟨a, hka, -⟩ := hlive.act
    exact Nat.lt_of_lt_of_le (Roster.lt_size hka) (Nat.le_trans hu₂.started hu.started)

/-- **If a run is over in the end, then each of its entries is the beginning of a loop.** -/
theorem Run.loops_of_over (hm : m.Scripted) (n : Nat) (frames : List (Frame σ)) {w : World σ}
    {s : σ.State} {x : σ.Context} {tr : Trigger σ.Action} {p : Option σ.Payload} {e : Ending σ}
    (hi : w.instances.get? i = some ⟨⟨s, []⟩, ⟨x, []⟩, none⟩) (hs : w.Confined)
    (hf : ∀ f ∈ frames, f.Inert w) (ha : alive w base i = true)
    (hn : (Run.steps m n ⟨w, .ended e, .entering i tr p :: (frames ++ base)⟩).Over) :
    Run.Loops m ⟨w, .ended e, .entering i tr p :: (frames ++ base)⟩ w i s x tr p base := by
  induction n using Nat.strongRecOn generalizing w s x tr p e frames with
  | ind n ih =>
  cases he : m.config.effect? s with
  | none => exact loops_bare he hi hf
  | some c =>
    obtain ⟨k, hk⟩ : ∃ k, k = w.activations.size := ⟨_, rfl⟩
    have hstep : Run.step m ⟨w, .ended e, .entering i tr p :: (frames ++ base)⟩ =
        some ⟨w.begin i s tr p, .code (.environment k tr p) c, .body k :: (frames ++ base)⟩ :=
      hk ▸ World.enter_effect hi he _
    have hside := w.aside_begin i s tr p
    have hfollows : Run.Follows m ⟨w.begin i s tr p, .code (.environment k tr p) c,
        .body k :: (frames ++ base)⟩ (w.begin i s tr p) i k s tr (.body k :: (frames ++ base))
        (c.alone m s tr x p) :=
      (hm s c he).follows (hk ▸ World.live_begin hi tr p) (hside.confined hs)
        (alive_above ha hside.slots (.body k :: frames))
    cases hp : c.alone m s tr x p with
    | ends y => exact loops_ends he hp hstep (hp ▸ hfollows) hf
    | moves y a t q =>
      -- the body is left by a transition, and its rest is inert
      rw [hp] at hfollows
      obtain ⟨w₁, e₁, p₁, next, hl₁, hside₁, hv₁, hi₁, hab, hnext⟩ := hfollows
      have hside₁ := hside.trans hside₁
      cases n with
      | zero => exact absurd hn Run.not_over_of_cons
      | succ n =>
        rw [Run.steps_succ hstep] at hn
        obtain ⟨n₁, hle, heq⟩ := hl₁.passed hn
        have hinert := Frame.inert_left (i := i) (t := .environment k tr p₁) rfl hab hnext
          fun f hfm => (hf f hfm).mono hside₁.aborted
        have ha₁ : alive w₁ base i = true := alive_above ha hside₁.slots []
        obtain ⟨fuel, t', z, visits, hloop, w', e', act, hl, hside', hi', hv', hact⟩ :=
          ih n₁ (Nat.lt_succ_of_le hle) _ hi₁ (hside₁.confined hs) hinert ha₁ (heq ▸ hn)
        refine ⟨fuel + 1, t', z, ⟨s, tr, p⟩ :: visits, by simp [Machine.loop, he, hp, hloop], w',
          e', act, .step hstep (hl₁.trans hl), hside₁.trans hside', hi', ?_, hact⟩
        rw [hv', hv₁, w.visits_begin, List.append_assoc]
        rfl

end

/-! ### Calls -/

/-- Where a run is over, it has come to whatever it leads to that is over. -/
theorem Run.Leads.eq_of_over {r' : Run σ} (h : r.Leads m r') (h' : r'.Over) {n : Nat}
    (hn : (r.steps m n).Over) : r.steps m n = r' := by
  obtain ⟨n', -, heq⟩ := h.passed hn
  rw [← heq, steps_of_over h']

/-- The code that hands on the answer of its call hands it on. -/
theorem World.answer_leads (w : World σ) (e : Ending σ) :
    ∃ e', Run.Leads m ⟨w, .ended e, [.resume .bare .ofReply]⟩ ⟨w, .ended e', []⟩ ∧
      e'.reply = e.reply := by
  cases e with
  | ok o => exact ⟨.done, .step rfl (.step rfl (.refl _)), rfl⟩
  | error e => exact ⟨.error e, .step rfl (.step rfl (.refl _)), rfl⟩

/-- When the call of an owner has ended, its answer is handed on, and nothing is released. -/
theorem World.owner_leads (w : World σ) {slot : String} (h : w.slots.get? slot = some i)
    (e : Ending σ) :
    ∃ e', Run.Leads m ⟨w, .ended e, [.owning i, .resume .bare .ofReply]⟩ ⟨w, .ended e', []⟩ ∧
      e'.reply = e.reply := by
  obtain ⟨e', hl, he⟩ := w.answer_leads (m := m) e
  refine ⟨e', .step ?_ hl, he⟩
  simp [Run.step, proceed, release, owned_of_slot h]

/-- A release moves no other instance, and nothing at all if another owner is left. -/
theorem World.release_leads {inst : Instance σ} (hi : w.instances.get? i = some inst)
    (hk : ∀ k, inst.active = some k → k < w.activations.size) (hs : w.Confined) (e : Ending σ)
    (stack : List (Frame σ)) :
    ∃ r, w.release i e stack = some r ∧ ∃ w', r.Leads m ⟨w', .ended e, stack⟩ ∧ w.Aside i w' ∧
      w'.moves = w.moves ∧ (owned w stack i = true → w' = w) := by
  cases ho : owned w stack i with
  | true =>
    exact ⟨_, by simp [release, ho], w, .refl _, (Unmoved.refl w).aside i, rfl, fun _ => rfl⟩
  | false =>
    have hu := w.unmoved_record (e := .released i) rfl
    obtain ⟨r, hr, w', e', hl, hside, -, hmoves, -⟩ := exit_leads (m := m)
      (w := w.record (.released i)) hi hk (hu.confined hs) (.farewell i e :: stack)
    refine ⟨r, by simpa [release, ho] using hr, w', hl.trans (.step rfl (.refl _)),
      (hu.aside i).trans hside, hmoves.trans hu.moves, by rintro ⟨⟩⟩

/-- The world in which an instance has been placed, before its first entry. -/
def World.placed (w : World σ) (s : σ.State) (x : σ.Context) : World σ :=
  World.record { w with instances := w.instances.push ⟨⟨s, []⟩, ⟨x, []⟩, none⟩ }
    (.placed w.instances.size s)

theorem World.aside_placed (w : World σ) (s : σ.State) (x : σ.Context) :
    w.Aside w.instances.size (w.placed s x) where
  slots := rfl
  instances j hj := by simp only [placed, record, Roster.get?_push, if_neg hj]
  started := Nat.le_refl _
  aborted _ := id
  confined := id

/-- A placement leads to the first entry, if the state is declared. -/
theorem World.place_leads (w : World σ) (slot : String) (o : Origin σ) :
    ∃ w', w.Unmoved w' ∧
      ((∃ e, Run.Leads m (.ofCode w (.place slot o .ofReply)) ⟨w', .ended (.error e), []⟩) ∨
        Run.Leads m (.ofCode w (.place slot o .ofReply))
          ⟨w'.placed (o.state m) (o.context m), .ended .done,
            [.entering w'.instances.size .initial none, .placing w'.instances.size slot,
              .resume .bare .ofReply]⟩) := by
  have hstart (w' : World σ) (s : σ.State) (x : σ.Context) :
      (∃ e, Run.Leads m (w'.start m .bare slot s x .ofReply []) ⟨w', .ended (.error e), []⟩) ∨
        Run.Leads m (w'.start m .bare slot s x .ofReply [])
          ⟨w'.placed s x, .ended .done, [.entering w'.instances.size .initial none,
            .placing w'.instances.size slot, .resume .bare .ofReply]⟩ := by
    unfold start
    split
    · exact .inr (.refl _)
    · exact .inl ⟨_, .step rfl (.refl _)⟩
  have hplace {w' : World σ} (hu : w.Unmoved w') (s : σ.State) (x : σ.Context)
      (h : w.place m .bare slot o .ofReply [] = w'.start m .bare slot s x .ofReply []) :
      ∃ w', w.Unmoved w' ∧
        ((∃ e, Run.Leads m (.ofCode w (.place slot o .ofReply)) ⟨w', .ended (.error e), []⟩) ∨
        Run.Leads m (.ofCode w (.place slot o .ofReply))
          ⟨w'.placed s x, .ended .done, [.entering w'.instances.size .initial none,
            .placing w'.instances.size slot, .resume .bare .ofReply]⟩) := by
    have hstep : Run.step m (.ofCode w (.place slot o .ofReply)) =
        some (w'.start m .bare slot s x .ofReply []) := congrArg some h
    refine ⟨w', hu, (hstart w' s x).imp ?_ (.step hstep)⟩
    rintro ⟨e, hl⟩
    exact ⟨e, .step hstep hl⟩
  cases o with
  | fresh => exact hplace (.refl w) _ _ rfl
  | recovered s x => exact hplace (.refl w) _ _ rfl
  | resumed s x => exact hplace (w.unmoved_record (e := .resuming s) rfl) _ _ rfl

/-- The world in which a slot holds instance `i`. -/
def World.slotted (w : World σ) (slot : String) (i : InstanceId) : World σ :=
  { w with slots := w.slots.insert slot i }

/-- Instance `i` has been stored in a slot. Whatever has an owner then is where it was before. -/
structure World.Stored (w : World σ) (slot : String) (i : InstanceId) (stack : List (Frame σ))
    (w' : World σ) : Prop where
  slots : w'.slots = (w.slotted slot i).slots
  owned : ∀ j, owned (w.slotted slot i) stack j = true →
    w'.instances.get? j = w.instances.get? j
  moves : w'.moves = w.moves
  started : w.activations.size ≤ w'.activations.size
  confined : w.Confined → w'.Confined

/-- A slot that is filled gives up its old instance, and leaves all that is owned alone. -/
theorem World.store_leads (slot : String) (i : InstanceId) (hs : w.Confined)
    (hk : ∀ j inst k, w.instances.get? j = some inst → inst.active = some k →
      k < w.activations.size) (stack : List (Frame σ)) :
    (w.store slot i stack = none ∧
      ∃ j, w.slots.get? slot = some j ∧ w.instances.get? j = none) ∨
    ∃ r, w.store slot i stack = some r ∧
      ∃ w', r.Leads m ⟨w', .ended .done, stack⟩ ∧ w.Stored slot i stack w' := by
  have hstill : w.Stored slot i stack (w.slotted slot i) :=
    ⟨rfl, fun _ _ => rfl, rfl, Nat.le_refl _, id⟩
  cases hold : w.slots.get? slot with
  | none => exact .inr ⟨_, by simp [store, hold, slotted], w.slotted slot i, .refl _, hstill⟩
  | some j =>
    have hstore : w.store slot i stack = (w.slotted slot i).release j .done stack := by
      simp [store, hold, slotted]
    rw [hstore]
    cases ho : owned (w.slotted slot i) stack j with
    | true => exact .inr ⟨_, by simp [release, ho], w.slotted slot i, .refl _, hstill⟩
    | false =>
      cases hj : (w.slotted slot i).instances.get? j with
      | none =>
        have hj' : ((w.slotted slot i).record (.released j)).instances.get? j = none := hj
        exact .inl ⟨by simp [release, ho, exit, hj'], j, rfl, hj⟩
      | some inst' =>
        obtain ⟨r, hr, w', hl, hside, hmoves, -⟩ := release_leads (m := m) hj (hk j inst' · hj) hs
          .done stack
        refine .inr ⟨r, hr, w', hl, hside.slots, fun j' hj' => hside.instances j' ?_, hmoves,
          hside.started, hside.confined⟩
        rintro rfl
        rw [ho] at hj'
        cases hj'

/-- When a placement succeeds, the slot holds the new instance, where its first entries have left
it. -/
theorem World.placing_leads {inst : Instance σ} {slot : String}
    (hi : w.instances.get? i = some inst) (hs : w.Confined)
    (hk : ∀ j inst k, w.instances.get? j = some inst → inst.active = some k →
      k < w.activations.size) {e : Ending σ} {n : Nat} {out : Outcome σ}
    (hn : (Run.steps m n ⟨w, .ended e, [.placing i slot, .resume .bare .ofReply]⟩).ending? =
      some (.ok out)) :
    ∃ w' e', Run.steps m n ⟨w, .ended e, [.placing i slot, .resume .bare .ofReply]⟩ =
        ⟨w', .ended e', []⟩ ∧ w'.slots.get? slot = some i ∧ w'.instances.get? i = some inst ∧
      w'.visits i = w.visits i := by
  have hover : (Run.steps m n ⟨w, .ended e, [.placing i slot, .resume .bare .ofReply]⟩).Over :=
    ⟨_, hn⟩
  have hfinal {w' : World σ} {e' : Ending σ} : Run.Over ⟨w', .ended e', []⟩ := ⟨e', rfl⟩
  cases e with
  | error err =>
    -- the instance is given up, and the error is handed on
    obtain ⟨r, hr, w', hl, -⟩ := release_leads (m := m) hi (hk i inst · hi) hs (.error err)
      [.resume .bare .ofReply]
    obtain ⟨e', hl', he'⟩ := w'.answer_leads (m := m) (.error err)
    have hstep : Run.step m ⟨w, .ended (.error err), [.placing i slot, .resume .bare .ofReply]⟩ =
        some r := hr
    rw [(Run.Leads.step hstep (hl.trans hl')).eq_of_over hfinal hover] at hn
    obtain rfl : e' = .ok out := Option.some.inj hn
    cases he'
  | ok o =>
    have hstep : Run.step m ⟨w, .ended (.ok o), [.placing i slot, .resume .bare .ofReply]⟩ =
        w.store slot i [.resume .bare .ofReply] := rfl
    rcases w.store_leads (m := m) slot i hs hk [.resume .bare .ofReply] with
      ⟨hstuck, -⟩ | ⟨r, hr, w', hl, hstored⟩
    · -- a run that is stuck is not over
      rw [Run.steps_of_none (hstep.trans hstuck) n] at hover
      exact absurd hover Run.not_over_of_cons
    · obtain ⟨e', hl', -⟩ := w'.answer_leads (m := m) .done
      have hslot : (w.slotted slot i).slots.get? slot = some i := Table.get?_insert_self ..
      refine ⟨w', e', (Run.Leads.step (hstep.trans hr) (hl.trans hl')).eq_of_over hfinal hover,
        ?_, (hstored.owned i (owned_of_slot hslot _)).trans hi, by
          rw [visits_eq, visits_eq, hstored.moves]⟩
      rw [hstored.slots]
      exact hslot

theorem Reach.active_lt {ok : Run σ → Prop} (h : Reach m ok r) {inst : Instance σ}
    {k : ActivationId} (hi : r.world.instances.get? i = some inst) (hk : inst.active = some k) :
    k < r.world.activations.size := by
  obtain ⟨t, ht, -⟩ := h.sound.active i inst.standing k
    (World.life_instances hi) hk
  exact (h.sound.started k).1 (by rw [ht]; rfl)

/-- **A placement agrees with the loop.** -/
theorem Reach.place_agrees (hm : m.Scripted) (h : Reach m Run.Scripted r) {slot : String}
    {o : Origin σ} {n : Nat} {out : Outcome σ}
    (hn : ((Run.ofCode r.world (.place slot o .ofReply)).steps m n).ending? = some (.ok out)) :
    ∃ fuel s x visits, m.loop fuel (o.state m) (o.context m) .initial none = some (s, x, visits) ∧
      ∃ w' e' inst, (Run.ofCode r.world (.place slot o .ofReply)).steps m n =
          ⟨w', .ended e', []⟩ ∧ w'.slots.get? slot = some r.world.instances.size ∧
        w'.instances.get? r.world.instances.size = some inst ∧ inst.state.value = s ∧
        inst.context.value = x ∧ w'.visits r.world.instances.size = visits := by
  have hconfined := h.confined fun _ => Run.Scripted.confined
  have hover : ((Run.ofCode r.world (.place slot o .ofReply)).steps m n).Over := ⟨_, hn⟩
  obtain ⟨w₀, hu, ⟨e, hl⟩ | hl⟩ := r.world.place_leads (m := m) slot o
  · rw [hl.eq_of_over ⟨_, rfl⟩ hover] at hn
    cases Option.some.inj hn
  · rw [hu.instances] at hl
    obtain ⟨i, hsize⟩ : ∃ i, i = r.world.instances.size := ⟨_, rfl⟩
    rw [← hsize] at hl ⊢
    have hsize₀ : i = w₀.instances.size := by rw [hu.instances, hsize]
    have hside : w₀.Aside i (w₀.placed (o.state m) (o.context m)) :=
      hsize₀ ▸ w₀.aside_placed _ _
    have hi₁ : (w₀.placed (o.state m) (o.context m)).instances.get? i =
        some ⟨⟨o.state m, []⟩, ⟨o.context m, []⟩, none⟩ := by
      simp only [World.placed, World.record, Roster.get?_push, hsize₀, if_true]
    have hv₁ : (w₀.placed (o.state m) (o.context m)).visits i = [] := by
      rw [← h.visits_eq_nil, ← hsize, ← hu.visits i, World.placed, World.visits_record]
      simp [Event.visit?]
      rfl
    -- from the first entry on
    obtain ⟨n₁, -, heq₁⟩ := hl.passed hover
    obtain ⟨fuel, s, x, visits, hloop, w', e', act, hl', hside', hi', hv', hact⟩ :=
      Run.loops_of_over hm n₁ [] hi₁
        ((hu.aside i).trans hside |>.confined hconfined) (fun _ hf => absurd hf List.not_mem_nil)
        (by simp [alive, Frame.pins, Frame.owns]) (heq₁ ▸ hover)
    obtain ⟨n₂, -, heq₂⟩ := hl'.passed (heq₁ ▸ hover)
    have hside'' := ((hu.aside i).trans hside).trans hside'
    rw [← heq₂.trans heq₁] at hn ⊢
    obtain ⟨w'', e'', hfinal, hslot, hi'', hv''⟩ := World.placing_leads hi'
      (hside''.confined hconfined) (fun j inst k hj hk => by
        by_cases hij : j = i
        · subst hij
          rw [hi'] at hj
          obtain rfl := Option.some.inj hj
          exact hact k hk
        · rw [hside''.instances j hij] at hj
          exact Nat.lt_of_lt_of_le (h.active_lt hj hk) hside''.started) hn
    exact ⟨fuel, s, x, visits, hloop, w'', e'', _, hfinal, hslot, hi'', rfl, rfl, by
      rw [hv'', hv', hv₁, List.nil_append]⟩

/-- **A dispatch by an owner agrees with the loop.** -/
theorem Reach.send_agrees (hm : m.Scripted) (h : Reach m Run.Scripted r) {slot : String}
    {inst : Instance σ} {a : σ.Action} {n : Nat} (hslot : r.world.slots.get? slot = some i)
    (hi : r.world.instances.get? i = some inst) (hos : inst.state.observers = [])
    (hoc : inst.context.observers = [])
    (hover : ((Run.ofCode r.world (.send slot a p .ofReply)).steps m n).Over) :
    ∃ fuel s x visits,
      m.loopFrom fuel inst.state.value inst.context.value a p = some (s, x, visits) ∧
      ∃ w' e' inst', (Run.ofCode r.world (.send slot a p .ofReply)).steps m n =
          ⟨w', .ended e', []⟩ ∧ w'.instances.get? i = some inst' ∧ inst'.state.value = s ∧
        inst'.context.value = x ∧ w'.visits i = r.world.visits i ++ visits := by
  obtain ⟨⟨s, _⟩, ⟨x, _⟩, act⟩ := inst
  obtain rfl : _ = [] := hos
  obtain rfl : _ = [] := hoc
  have hstep : Run.step m (.ofCode r.world (.send slot a p .ofReply)) =
      r.world.dispatch m i .owner a p [.owning i, .resume .bare .ofReply] := by
    simp [Run.step, Run.ofCode, World.perform, hslot]
  -- the owner is left, so that the end of the call releases nothing
  have hend {w' : World σ} {e : Ending σ}
      (hl : Run.Leads m (.ofCode r.world (.send slot a p .ofReply))
        ⟨w', .ended e, [.owning i, .resume .bare .ofReply]⟩)
      (hs : w'.slots = r.world.slots) :
      ∃ e', (Run.ofCode r.world (.send slot a p .ofReply)).steps m n = ⟨w', .ended e', []⟩ := by
    obtain ⟨e', hl', -⟩ := w'.owner_leads (m := m) (hs ▸ hslot) e
    exact ⟨e', (hl.trans hl').eq_of_over ⟨e', rfl⟩ hover⟩
  unfold Machine.loopFrom
  cases ho : m.outcome s a with
  | inr q =>
    obtain ⟨w', e, hd, -, hu, -⟩ := World.dispatch_refused hi ho .owner p
      [.owning i, .resume .bare .ofReply]
    obtain ⟨e', hfinal⟩ := hend (.step (hstep.trans hd) (.refl _)) hu.slots
    exact ⟨0, s, x, [], rfl, w', e', _, hfinal, by rw [hu.instances]; exact hi, rfl, rfl, by
      rw [hu.visits, List.append_nil]⟩
  | inl t =>
    have hconfined := h.confined fun _ => Run.Scripted.confined
    obtain ⟨r₁, hd, w₁, hl, hside, hi₁, hmoves, -⟩ := World.dispatch_leads hi ho rfl
      (fun k => h.active_lt hi) hconfined .owner p [.owning i, .resume .bare .ofReply]
    have hl := Run.Leads.step (hstep.trans hd) hl
    obtain ⟨n₁, -, heq⟩ := hl.passed hover
    have ha : alive w₁ [.owning i, .resume .bare .ofReply] i = true := by
      simp [alive, Frame.pins, Frame.owns]
    obtain ⟨fuel, s', y, visits, hloop, w', e', act, hl', hside', hi', hv', -⟩ :=
      Run.loops_of_over hm n₁ [] hi₁ (hside.confined hconfined)
        (fun _ hf => absurd hf List.not_mem_nil) ha (heq ▸ hover)
    obtain ⟨e'', hfinal⟩ := hend (hl.trans hl') (hside'.slots.trans hside.slots)
    exact ⟨fuel, s', y, visits, hloop, w', e'', _, hfinal, hi', rfl, rfl, by
      rw [hv', World.visits_of_write hmoves]⟩

/-- **The machine agrees with the plain loop.** Let the effects be scripts. A placement that is
answered with success leaves the new instance in the state, with the context and after the entries
that the loop comes to from the values it is placed with; and a dispatch by an owner that is
answered at all does the same, from where the instance was, if the instance has no observers. -/
theorem Reach.loop_agrees (hm : m.Scripted) (h : Reach m Run.Scripted r) :
    (∀ slot o n out,
      ((Run.ofCode r.world (.place slot o .ofReply)).steps m n).ending? = some (.ok out) →
      ∃ fuel s x visits,
        m.loop fuel (o.state m) (o.context m) .initial none = some (s, x, visits) ∧
        ∃ w' e' inst, (Run.ofCode r.world (.place slot o .ofReply)).steps m n =
            ⟨w', .ended e', []⟩ ∧ w'.slots.get? slot = some r.world.instances.size ∧
          w'.instances.get? r.world.instances.size = some inst ∧ inst.state.value = s ∧
          inst.context.value = x ∧ w'.visits r.world.instances.size = visits) ∧
    ∀ slot i inst a p n, r.world.slots.get? slot = some i → r.world.instances.get? i = some inst →
      inst.state.observers = [] → inst.context.observers = [] →
      ((Run.ofCode r.world (.send slot a p .ofReply)).steps m n).Over →
      ∃ fuel s x visits,
        m.loopFrom fuel inst.state.value inst.context.value a p = some (s, x, visits) ∧
        ∃ w' e' inst', (Run.ofCode r.world (.send slot a p .ofReply)).steps m n =
            ⟨w', .ended e', []⟩ ∧ w'.instances.get? i = some inst' ∧ inst'.state.value = s ∧
          inst'.context.value = x ∧ w'.visits i = r.world.visits i ++ visits :=
  ⟨fun _ _ _ _ => h.place_agrees hm, fun _ _ _ _ _ _ => h.send_agrees hm⟩

theorem Code.own_ofReply (r : Reply) : (Code.ofReply r : Code σ).Own := by
  unfold ofReply
  split
  · exact .raise _
  · exact .done

theorem Lamp.scripted : Lamp.machine.Scripted := by
  intro s c h
  cases s with
  | false =>
    obtain rfl := Option.some.inj h
    exact .setContext _ (.dispatch _ _ Code.own_ofReply)
  | true =>
    obtain rfl := Option.some.inj h
    exact .setContext _ (.cleanup (.dispatch _ _ Code.own_ofReply))

/-- The lamp is off and on when it is placed, for the machine as for the loop. -/
theorem lamp_agrees :
    Lamp.machine.loop 2 false (0 : Nat) .initial none =
      some (true, (2 : Nat), [⟨false, .initial, none⟩, ⟨true, .action (), none⟩]) ∧
    ∃ fuel s x visits, Lamp.machine.loop fuel false (0 : Nat) .initial none = some (s, x, visits) ∧
      ∃ w' e' inst, Lamp.lit = ⟨w', .ended e', []⟩ ∧ w'.slots.get? "lamp" = some 0 ∧
        w'.instances.get? 0 = some inst ∧ inst.state.value = s ∧ inst.context.value = x ∧
        w'.visits 0 = visits := by
  have h : Reach Lamp.machine Run.Scripted (.ofCode {} (.finish .done)) := .start _
  exact ⟨rfl, (h.loop_agrees Lamp.scripted).1 "lamp" .fresh 22 .done rfl⟩

end Statechart
