import Statechart.Proofs.Lifecycle.Move

/-!
Numbers and windows in the lifecycle of every run that occurs, whatever user code does. Numbers are
given out in order, so that whatever is under way is for an instance or an activation that is
there; and the window of an activation is open exactly while its entry is under way and its exit
has not begun. Each change of a lifecycle keeps both, and a move is made of such changes.
-/

namespace Statechart

variable {σ : Signature} {m : Machine σ} {ok : Run σ → Prop} {r : Run σ} {l : Life σ}

/-! ### Lifecycles of reachable runs -/

theorem Run.life_turn {r r' : Run σ} (h : r.Turn r') : r'.life = r.life := by
  cases h with
  | code c' => rfl
  | @future w p k f stack f' => cases p <;> rfl
  | poll hj hp hs => rfl
  | call c => rfl
  | handle c hk => rfl
  | @executor w e r h =>
    obtain ⟨t, task, p, rest, -, rfl⟩ := World.ofPoll?_eq_some h
    rfl

/-- **What every move keeps holds of every reachable run.** -/
theorem Reach.life_induction {P : Life σ → Prop} (h : Reach m ok r) (h₀ : P .empty)
    (hmove : ∀ r l, Reach m ok r → ok r → P r.life → Move m r l → P l) : P r.life := by
  induction h with
  | start c => exact h₀
  | step hr hok hs ih => exact hmove _ _ hr hok ih (Run.move_step hs)
  | turn _ ht ih => rwa [Run.life_turn ht]

/-! ### Numbers -/

namespace Stage

/-- The activation whose entry is under way. -/
def body? : Stage σ → Option ActivationId
  | entry k => some k
  | _ => none

/-- The instance that is on its way from one state to the next. -/
def transit? : Stage σ → Option InstanceId
  | changing i _ _ _ => some i
  | entering i _ _ => some i
  | leaving i => some i
  | _ => none

end Stage

@[simp, grind =] theorem Departure.transit?_stage (i : InstanceId) (d : Departure σ) :
    (d.stage i).transit? = some i := by
  cases d <;> rfl

@[simp, grind =] theorem Departure.body?_stage (i : InstanceId) (d : Departure σ) :
    (d.stage i).body? = none := by
  cases d <;> rfl

@[simp, grind .] theorem Departure.exiting_ne_event {i j : InstanceId} {k : ActivationId}
    {s : σ.State} (d : Departure σ) : .exiting i k s ≠ d.event j := by
  cases d <;> simp [event]

@[grind =] theorem Stage.body?_eq_some_iff {s : Stage σ} {k : ActivationId} :
    s.body? = some k ↔ s = .entry k := by
  cases s <;> simp [body?]

/-- What is under way and is not an entry stands on the stack. -/
theorem Run.mem_stages_iff {g : Stage σ} (hg : g.body? = none) :
    g ∈ r.life.stages ↔ ∃ f ∈ r.stack, f.stage? = some g := by
  have hc : r.control.stage? ≠ some g := by
    intro hc
    unfold Control.stage? at hc
    split at hc <;> cases hc
    cases hg
  simp [life, World.life, stagesOf, hc]

attribute [grind] Stage.transit? Tenure.spent Tenure.closed

/-- Instances and activations are numbered in order, and only these numbers are in use. -/
structure Life.Counted (l : Life σ) : Prop where
  placed : ∀ i, (l.instances i).isSome ↔ i < l.placed
  started : ∀ k, (l.activations k).isSome ↔ k < l.started
  owner : ∀ k t, l.activations k = some t → t.owner < l.placed
  transits : ∀ s ∈ l.stages, ∀ i, s.transit? = some i → i < l.placed
  entries : ∀ s ∈ l.stages, ∀ k, s.body? = some k → k < l.started

namespace Life.Counted

theorem activations_started (h : l.Counted) : l.activations l.started = none := by
  simpa using (h.started l.started).not

theorem note (h : l.Counted) (e : Event σ) : (l.note e).Counted :=
  ⟨h.placed, h.started, h.owner, h.transits, h.entries⟩

theorem pop (h : l.Counted) {f : Stage σ} {rest : List (Stage σ)} (hs : l.stages = f :: rest) :
    (l.on rest).Counted := by
  have hsub : ∀ s ∈ rest, s ∈ l.stages := fun s hm => hs ▸ List.mem_cons_of_mem _ hm
  exact ⟨h.placed, h.started, h.owner, fun s hm => h.transits s (hsub s hm),
    fun s hm => h.entries s (hsub s hm)⟩

theorem push (h : l.Counted) {f : Stage σ} (ht : ∀ i, f.transit? = some i → i < l.placed)
    (he : ∀ k, f.body? = some k → k < l.started) : (l.on (f :: l.stages)).Counted := by
  refine ⟨h.placed, h.started, h.owner, fun s hm => ?_, fun s hm => ?_⟩
  · rcases List.mem_cons.1 hm with rfl | hm
    · exact ht
    · exact h.transits s hm
  · rcases List.mem_cons.1 hm with rfl | hm
    · exact he
    · exact h.entries s hm

/-- A departure, like an entry, is under way for an instance that has been placed. -/
theorem push_transit (h : l.Counted) {i : InstanceId} {f : Stage σ} (hf : f.transit? = some i)
    (hb : f.body? = none) (hi : i < l.placed) : (l.on (f :: l.stages)).Counted := by
  refine h.push (fun j hj => ?_) (by simp [hb])
  rw [hf] at hj
  exact Option.some.inj hj ▸ hi

theorem addInstance (h : l.Counted) (s : Standing σ) : (l.addInstance s).Counted where
  placed i := by
    simp only [Life.addInstance]
    split
    · next e => simp [e]
    · next e => rw [h.placed i, Nat.lt_succ_iff_lt_or_eq, or_iff_left e]
  started := h.started
  owner k t hk := Nat.lt_succ_of_lt (h.owner k t hk)
  transits s hs i hi := Nat.lt_succ_of_lt (h.transits s hs i hi)
  entries := h.entries

theorem modifyInstance (h : l.Counted) (i : InstanceId) (f : Standing σ → Standing σ) :
    (l.modifyInstance i f).Counted := by
  refine ⟨fun j => ?_, h.started, h.owner, h.transits, h.entries⟩
  simp only [Life.modifyInstance, ← h.placed j]
  split
  · rw [Option.isSome_map]
  · rfl

theorem addActivation (h : l.Counted) {t : Tenure σ} (ht : t.owner < l.placed) :
    (l.addActivation t).Counted where
  placed := h.placed
  started k := by
    simp only [Life.addActivation]
    split
    · next e => simp [e]
    · next e => rw [h.started k, Nat.lt_succ_iff_lt_or_eq, or_iff_left e]
  owner k u hk := by
    simp only [Life.addActivation] at hk
    split at hk
    · obtain rfl := Option.some.inj hk
      exact ht
    · exact h.owner k u hk
  transits := h.transits
  entries s hs k hk := Nat.lt_succ_of_lt (h.entries s hs k hk)

theorem modifyActivation (h : l.Counted) (k : ActivationId) (f : Tenure σ → Tenure σ)
    (hf : ∀ t, (f t).owner = t.owner) : (l.modifyActivation k f).Counted := by
  refine ⟨h.placed, fun j => ?_, fun j t hj => ?_, h.transits, h.entries⟩
  · simp only [Life.modifyActivation, ← h.started j]
    split
    · rw [Option.isSome_map]
    · rfl
  · obtain ⟨u, hu, rfl⟩ := modifyActivation_eq_some.1 hj
    have ho := h.owner j u hu
    split
    · rwa [hf]
    · exact ho

theorem begin (h : l.Counted) {i : InstanceId} (hi : i < l.placed) (s : σ.State)
    (tr : Trigger σ.Action) (p : Option σ.Payload) : (l.begin i s tr p).Counted :=
  ((h.addActivation (t := { owner := i, state := s }) hi).modifyInstance i _).note _

theorem tearDown (h : l.Counted) (i : InstanceId) (k : ActivationId) (s : σ.State) :
    (l.tearDown i k s).Counted :=
  (((h.note _).modifyInstance i _).modifyActivation k _ fun _ => by rfl).note _

theorem move (h : r.life.Counted) (hm : Move m r l) : l.Counted := by
  have placed {i s} (hi : r.life.instances i = some s) : i < r.life.placed :=
    (h.placed i).1 (by simp [hi])
  have closed (k : ActivationId) : (r.life.modifyActivation k .closed).Counted :=
    h.modifyActivation k _ fun _ => rfl
  cases hm with
  | quiet => exact h
  | place hs => exact ((h.note _).addInstance _).push_transit rfl rfl (Nat.lt_succ_self _)
  | depart hi ha hd =>
    exact (h.note _).push_transit (Departure.transit?_stage _ _) (Departure.body?_stage _ _)
      (placed hi)
  | exit hi ha hk hd =>
    refine (((h.note _).tearDown _ _ _).push_transit (Departure.transit?_stage _ _)
      (Departure.body?_stage _ _) (placed hi)).push ?_ ?_
    · rintro _ ⟨⟩
    · rintro _ ⟨⟩
  | exited hs => exact h.pop hs
  | cleanup hs hr hst => exact (h.note _).pop hs
  | left hs => exact h.pop hs
  | change hs hi =>
    exact (((h.note _).modifyInstance _ _).pop hs).push_transit rfl rfl (placed hi)
  | enterBare hs hi he => exact (h.note _).pop hs
  | enter hs hi he ha =>
    refine ((h.begin (placed hi) _ _ _).pop hs).push ?_ ?_
    · rintro _ ⟨⟩
    · rintro _ ⟨⟩
      exact Nat.lt_succ_self _
  | displace hs hi he ha =>
    refine (((h.note _).begin (placed hi) _ _ _).pop hs).push ?_ ?_
    · rintro _ ⟨⟩
    · rintro _ ⟨⟩
      exact Nat.lt_succ_self _
  | close hs => exact (closed _).pop hs
  | forgo hs hk hb hi ha => exact ((closed _).note _).pop hs
  | keep hs hr hst hk hb hi ha =>
    exact (((closed _).note _).modifyActivation _ _ fun _ => by rfl).pop hs
  | atOnce hs hr hst hk hb => exact (((closed _).note _).note _).pop hs
  | write hk hb ho hi => exact (h.note _).modifyInstance _ _
  | observe ho => exact h.modifyActivation _ _ fun _ => by rfl

end Life.Counted

/-! ### Windows -/

/-- No entry is under way twice, and a window is open while its entry is under way, until the exit
of the activation. -/
structure Life.Windowed (l : Life σ) : Prop where
  nodup : (l.stages.filterMap Stage.body?).Nodup
  window : ∀ k t, l.activations k = some t →
    (t.windowOpen = true ↔ t.aborted = false ∧ .entry k ∈ l.stages)

namespace Life.Windowed

theorem note (h : l.Windowed) (e : Event σ) : (l.note e).Windowed := ⟨h.nodup, h.window⟩

theorem addInstance (h : l.Windowed) (s : Standing σ) : (l.addInstance s).Windowed :=
  ⟨h.nodup, h.window⟩

theorem modifyInstance (h : l.Windowed) (i : InstanceId) (f : Standing σ → Standing σ) :
    (l.modifyInstance i f).Windowed :=
  ⟨h.nodup, h.window⟩

theorem pop (h : l.Windowed) {f : Stage σ} {rest : List (Stage σ)} (hs : l.stages = f :: rest)
    (hf : f.body? = none) : (l.on rest).Windowed := by
  refine ⟨?_, fun k t hk => ?_⟩
  · have hn := h.nodup
    rwa [hs, List.filterMap_cons_none hf] at hn
  · have hne : .entry k ≠ f := by
      rintro rfl
      cases hf
    rw [h.window k t hk, hs, List.mem_cons, or_iff_right hne]
    rfl

theorem push (h : l.Windowed) {f : Stage σ} (hf : f.body? = none) :
    (l.on (f :: l.stages)).Windowed := by
  refine ⟨?_, fun k t hk => ?_⟩
  · have hn := h.nodup
    rwa [← List.filterMap_cons_none hf] at hn
  · have hne : .entry k ≠ f := by
      rintro rfl
      cases hf
    rw [h.window k t hk, Life.on, List.mem_cons, or_iff_right hne]

theorem modifyActivation (h : l.Windowed) (k : ActivationId) (f : Tenure σ → Tenure σ)
    (hw : ∀ t, (f t).windowOpen = t.windowOpen) (ha : ∀ t, (f t).aborted = t.aborted) :
    (l.modifyActivation k f).Windowed := by
  refine ⟨h.nodup, fun j t hj => ?_⟩
  obtain ⟨u, hu, rfl⟩ := modifyActivation_eq_some.1 hj
  have hu := h.window j u hu
  split
  · rwa [hw, ha]
  · exact hu

theorem tearDown (h : l.Windowed) (i : InstanceId) (k : ActivationId) (s : σ.State) :
    (l.tearDown i k s).Windowed := by
  refine ⟨h.nodup, fun j t hj => ?_⟩
  obtain ⟨u, hu, rfl⟩ := modifyActivation_eq_some.1 hj
  have hu := h.window j u hu
  split
  · simp [Tenure.spent]
  · exact hu

/-- Whoever closes a window ends the entry. -/
theorem close (h : l.Windowed) {k : ActivationId} {rest : List (Stage σ)}
    (hs : l.stages = .entry k :: rest) : ((l.modifyActivation k .closed).on rest).Windowed := by
  have hn : (k :: rest.filterMap Stage.body?).Nodup := by
    have := h.nodup
    rwa [hs] at this
  rw [List.nodup_cons] at hn
  refine ⟨hn.2, fun j t hj => ?_⟩
  obtain ⟨u, hu, rfl⟩ := modifyActivation_eq_some.1 hj
  by_cases hjk : j = k
  · have hnot : .entry j ∉ rest := fun hm => hn.1 (List.mem_filterMap.2 ⟨_, hm, hjk ▸ rfl⟩)
    simp [Life.on, hjk ▸ hnot, Tenure.closed, hjk]
  · have hne : (.entry j : Stage σ) ≠ .entry k := by
      rintro ⟨⟩
      exact hjk rfl
    rw [if_neg hjk, h.window j u hu, hs, List.mem_cons, or_iff_right hne]
    rfl

theorem begin (h : l.Windowed) (hc : l.Counted) (i : InstanceId) (s : σ.State)
    (tr : Trigger σ.Action) (p : Option σ.Payload) :
    ((l.begin i s tr p).on (.entry l.started :: l.stages)).Windowed := by
  have hnew : .entry l.started ∉ l.stages := fun hm => Nat.lt_irrefl _ (hc.entries _ hm _ rfl)
  refine ⟨?_, fun k t hk => ?_⟩
  · refine List.nodup_cons.2 ⟨fun hm => ?_, h.nodup⟩
    obtain ⟨f, hf, he⟩ := List.mem_filterMap.1 hm
    exact hnew (Stage.body?_eq_some_iff.1 he ▸ hf)
  · simp only [Life.on, Life.begin, Life.note, Life.modifyInstance, Life.addActivation] at hk ⊢
    split at hk
    · next e =>
      -- the window of the new activation is open
      obtain rfl := Option.some.inj hk
      simp [e]
    · next e => simp [h.window k t hk, e]

theorem move (h : r.life.Windowed) (hc : r.life.Counted) (hm : Move m r l) : l.Windowed := by
  cases hm with
  | quiet => exact h
  | place hs => exact ((h.note _).addInstance _).push rfl
  | depart hi ha hd => exact (h.note _).push (Departure.body?_stage _ _)
  | exit hi ha hk hd =>
    exact (((h.note _).tearDown _ _ _).push (Departure.body?_stage _ _)).push rfl
  | exited hs => exact h.pop hs rfl
  | cleanup hs hr hst => exact (h.note _).pop hs rfl
  | left hs => exact h.pop hs rfl
  | change hs hi => exact (((h.note _).modifyInstance _ _).pop hs rfl).push rfl
  | enterBare hs hi he => exact (h.note _).pop hs rfl
  | enter hs hi he ha => exact (h.pop hs rfl).begin (hc.pop hs) _ _ _ _
  | @displace i tr p rest s c j hs hi he ha =>
    have hd := (h.note (.displaced j)).pop hs rfl
    exact hd.begin ((hc.note (.displaced j)).pop hs) i s.state tr p
  | close hs => exact h.close hs
  | forgo hs hk hb hi ha => exact (h.close hs).note _
  | keep hs hr hst hk hb hi ha =>
    exact ((h.close hs).note _).modifyActivation _ _ (fun _ => by rfl) fun _ => by rfl
  | atOnce hs hr hst hk hb => exact ((h.close hs).note _).note _
  | write hk hb ho hi => exact (h.note _).modifyInstance _ _
  | observe ho => exact h.modifyActivation _ _ (fun _ => by rfl) fun _ => by rfl

end Life.Windowed

end Statechart
