import Statechart.Proofs.Lifecycle.Counted

/-!
What else holds of the lifecycle of every run that occurs: what is over for an activation stays so,
a live activation belongs to its instance and is not aborted, and an entry that is under way
belongs to the live activation unless it has been exited. `Reach.sound` puts all of it together.
-/

namespace Statechart

variable {σ : Signature} {m : Machine σ} {ok : Run σ → Prop} {r : Run σ} {l : Life σ}

/-! ### Aging -/

/-- **An activation keeps its owner and its state, and what is over for it stays so.** -/
theorem Move.ages (hm : Move m r l) (hc : r.life.Counted) {k : ActivationId} {t : Tenure σ}
    (hk : r.life.activations k = some t) :
    ∃ t', l.activations k = some t' ∧ t'.owner = t.owner ∧ t'.state = t.state ∧
      (t.aborted = true → t'.aborted = true) ∧ (t.windowOpen = false → t'.windowOpen = false) := by
  have hlt : k < r.life.started := (hc.started k).1 (by simp [hk])
  cases hm
  case quiet => exact ⟨t, hk, rfl, rfl, id, id⟩
  all_goals
    simp only [Life.note, Life.on, Life.addInstance, Life.addActivation, Life.modifyInstance,
      Life.modifyActivation, Life.begin, Life.tearDown]
    grind

/-! ### Live activations -/

/-- A live activation belongs to its instance and is not aborted, and the activations that are
aborted are those whose exit has begun. -/
structure Life.Seated (l : Life σ) : Prop where
  active : ∀ i s k, l.instances i = some s → s.active = some k →
    ∃ t, l.activations k = some t ∧ t.owner = i ∧ t.aborted = false
  exiting : ∀ i k s, .exiting i k s ∈ l.past → ∃ t, l.activations k = some t ∧ t.aborted = true
  aborted : ∀ k t, l.activations k = some t → t.aborted = true → ∃ s, .exiting t.owner k s ∈ l.past

namespace Life.Seated

theorem note (h : l.Seated) {e : Event σ} (he : ∀ i k s, .exiting i k s ≠ e) :
    (l.note e).Seated := by
  refine ⟨h.active, fun i k s hk => ?_, fun k t hk ht => ?_⟩
  · exact h.exiting i k s ((List.mem_cons.1 hk).resolve_left (he i k s))
  · obtain ⟨s, hs⟩ := h.aborted k t hk ht
    exact ⟨s, List.mem_cons_of_mem _ hs⟩

theorem begin (h : l.Seated) (hc : l.Counted) {i : InstanceId} {s : Standing σ}
    (hi : l.instances i = some s) (tr : Trigger σ.Action) (p : Option σ.Payload) :
    (l.begin i s.state tr p).Seated := by
  have old : ∀ {k t}, l.activations k = some t → k ≠ l.started := by
    rintro k t ht rfl
    rw [hc.activations_started] at ht
    cases ht
  refine Seated.note ⟨fun j u k hj hk => ?_, fun j k u hk => ?_, fun k t hk ht => ?_⟩ (by simp)
  · simp only [modifyInstance, addActivation] at hj ⊢
    by_cases hji : j = i
    · -- the new activation is the live one of `i`
      rw [if_pos hji, hji, hi, Option.map_some] at hj
      obtain rfl := Option.some.inj hj
      obtain rfl := Option.some.inj hk
      exact ⟨_, if_pos rfl, hji.symm, rfl⟩
    · rw [if_neg hji] at hj
      obtain ⟨t, ht, ho, ha⟩ := h.active j u k hj hk
      exact ⟨t, by rwa [if_neg (old ht)], ho, ha⟩
  · obtain ⟨t, ht, ha⟩ := h.exiting j k u hk
    exact ⟨t, by simpa [modifyInstance, addActivation, old ht] using ht, ha⟩
  · simp only [modifyInstance, addActivation] at hk ⊢
    by_cases hkl : k = l.started
    · rw [if_pos hkl] at hk
      obtain rfl := Option.some.inj hk
      cases ht
    · rw [if_neg hkl] at hk
      exact h.aborted k t hk ht

theorem tearDown (h : l.Seated) {i : InstanceId} {k : ActivationId} {s : Standing σ}
    (hi : l.instances i = some s) (hs : s.active = some k) :
    (l.tearDown i k s.state).Seated := by
  obtain ⟨b, hk, ho, hb⟩ := h.active i s k hi hs
  refine Seated.note ⟨fun j u j' hj hu => ?_, fun j j' u hj => ?_, fun j t hj ht => ?_⟩ (by simp)
  · obtain ⟨v, hv, rfl⟩ := modifyInstance_eq_some.1 hj
    split at hu
    · cases hu
    · next hji =>
      obtain ⟨t, ht, hto, ha⟩ := h.active j v j' hv hu
      -- `k` belongs to `i`, so no other instance loses its live activation
      have hne : j' ≠ k := by
        rintro rfl
        rw [hk] at ht
        obtain rfl := Option.some.inj ht
        exact hji (hto.symm.trans ho)
      exact ⟨t, modifyActivation_eq_some.2 ⟨t, ht, if_neg hne⟩, hto, ha⟩
  · by_cases hjk : j' = k
    · exact ⟨b.spent, modifyActivation_eq_some.2 ⟨b, hjk ▸ hk, if_pos hjk⟩, rfl⟩
    · have hold : .exiting j j' u ∈ l.past := by
        refine (List.mem_cons.1 hj).resolve_left ?_
        rintro ⟨⟩
        exact hjk rfl
      obtain ⟨t, ht, ha⟩ := h.exiting j j' u hold
      exact ⟨t, modifyActivation_eq_some.2 ⟨t, ht, if_neg hjk⟩, ha⟩
  · obtain ⟨v, hv, rfl⟩ := modifyActivation_eq_some.1 hj
    by_cases hjk : j = k
    · obtain rfl : b = v := Option.some.inj (hk.symm.trans (hjk ▸ hv))
      refine ⟨s.state, ?_⟩
      rw [if_pos hjk, show b.spent.owner = i from ho, hjk]
      exact List.mem_cons_self
    · rw [if_neg hjk] at ht ⊢
      obtain ⟨u, hu⟩ := h.aborted j v hv ht
      exact ⟨u, List.mem_cons_of_mem _ hu⟩

theorem on (h : l.Seated) (stages : List (Stage σ)) : (l.on stages).Seated :=
  ⟨h.active, h.exiting, h.aborted⟩

theorem addInstance (h : l.Seated) {s : Standing σ} (hs : s.active = none) :
    (l.addInstance s).Seated := by
  refine ⟨fun j u k hj hk => ?_, h.exiting, h.aborted⟩
  simp only [Life.addInstance] at hj
  split at hj
  · obtain rfl := Option.some.inj hj
    rw [hs] at hk
    cases hk
  · exact h.active j u k hj hk

theorem modifyInstance (h : l.Seated) (i : InstanceId) (f : Standing σ → Standing σ)
    (hf : ∀ s, (f s).active = s.active) : (l.modifyInstance i f).Seated := by
  refine ⟨fun j u k hj hk => ?_, h.exiting, h.aborted⟩
  obtain ⟨v, hv, rfl⟩ := modifyInstance_eq_some.1 hj
  refine h.active j v k hv ?_
  split at hk
  · rwa [hf] at hk
  · exact hk

theorem modifyActivation (h : l.Seated) (k : ActivationId) (f : Tenure σ → Tenure σ)
    (ho : ∀ t, (f t).owner = t.owner) (ha : ∀ t, (f t).aborted = t.aborted) :
    (l.modifyActivation k f).Seated := by
  have kept {j : ActivationId} {t : Tenure σ} (hj : l.activations j = some t) :
      ∃ t', (l.modifyActivation k f).activations j = some t' ∧ t'.owner = t.owner ∧
        t'.aborted = t.aborted := by
    refine ⟨_, modifyActivation_eq_some.2 ⟨t, hj, rfl⟩, ?_, ?_⟩
    · split
      · exact ho t
      · rfl
    · split
      · exact ha t
      · rfl
  refine ⟨fun i s j hi hs => ?_, fun i j s hj => ?_, fun j t hj ht => ?_⟩
  · obtain ⟨t, ht, hto, hta⟩ := h.active i s j hi hs
    obtain ⟨t', ht', ho', ha'⟩ := kept ht
    exact ⟨t', ht', ho'.trans hto, ha'.trans hta⟩
  · obtain ⟨t, ht, hta⟩ := h.exiting i j s hj
    obtain ⟨t', ht', -, ha'⟩ := kept ht
    exact ⟨t', ht', ha'.trans hta⟩
  · obtain ⟨u, hu, -⟩ := modifyActivation_eq_some.1 hj
    obtain ⟨t', ht', ho', ha'⟩ := kept hu
    rw [hj] at ht'
    obtain rfl := Option.some.inj ht'
    rw [ho']
    exact h.aborted j u hu (ha' ▸ ht)

theorem move (h : r.life.Seated) (hc : r.life.Counted) (hm : Move m r l) : l.Seated := by
  have departs {i : InstanceId} (d : Departure σ) : (r.life.note (d.event i)).Seated :=
    h.note fun _ _ _ => Departure.exiting_ne_event _
  have closed (k : ActivationId) : (r.life.modifyActivation k .closed).Seated :=
    h.modifyActivation k _ (fun _ => rfl) fun _ => rfl
  cases hm with
  | quiet => exact h
  | place hs => exact ((h.note (by simp)).addInstance rfl).on _
  | depart hi ha hd => exact (departs _).on _
  | exit hi ha hk hd => exact ((departs _).tearDown hi ha).on _
  | exited hs => exact h.on _
  | cleanup hs hr hst => exact (h.note (by simp)).on _
  | left hs => exact h.on _
  | change hs hi => exact ((h.note (by simp)).modifyInstance _ _ fun _ => by rfl).on _
  | enterBare hs hi he => exact (h.note (by simp)).on _
  | enter hs hi he ha => exact (h.begin hc hi _ _).on _
  | displace hs hi he ha => exact ((h.note (by simp)).begin (hc.note _) hi _ _).on _
  | close hs => exact (closed _).on _
  | forgo hs hk hb hi ha => exact ((closed _).note (by simp)).on _
  | keep hs hr hst hk hb hi ha =>
    exact (((closed _).note (by simp)).modifyActivation _ _ (fun _ => by rfl)
      fun _ => by rfl).on _
  | atOnce hs hr hst hk hb => exact (((closed _).note (by simp)).note (by simp)).on _
  | write hk hb ho hi => exact (h.note (by simp)).modifyInstance _ _ fun _ => by rfl
  | observe ho => exact h.modifyActivation _ _ (fun _ => by rfl) fun _ => by rfl

end Life.Seated

/-! ### Current entries -/

/-- Every entry of instance `i` among these stages has been exited. -/
def Life.Clear (l : Life σ) (i : InstanceId) (stages : List (Stage σ)) : Prop :=
  ∀ k t, .entry k ∈ stages → l.activations k = some t → t.owner = i → t.aborted = true

/-- An entry that is under way belongs to the live activation, unless its exit has begun; an
instance that is on its way to the next state has no other entries below. -/
structure Life.Current (l : Life σ) : Prop where
  live : ∀ k t s, .entry k ∈ l.stages → l.activations k = some t → t.aborted = false →
    l.instances t.owner = some s → s.active = some k
  transit : ∀ s rest i, s :: rest <:+ l.stages → s.transit? = some i → l.Clear i rest

theorem Life.Clear.move {i : InstanceId} {stages : List (Stage σ)} (h : r.life.Clear i stages)
    (hc : r.life.Counted) (hs : stages <:+ r.life.stages) (hm : Move m r l) : l.Clear i stages := by
  intro k t' hk ht' ho
  have hlt := hc.entries _ (hs.subset hk) k rfl
  obtain ⟨t, ht⟩ := Option.isSome_iff_exists.1 ((hc.started k).2 hlt)
  obtain ⟨u, hu, huo, -, ha, -⟩ := hm.ages hc ht
  rw [ht'] at hu
  obtain rfl := Option.some.inj hu
  exact ha (h k t hk ht (huo ▸ ho))

namespace Life.Current

theorem clear (h : l.Current) {s : Stage σ} {rest : List (Stage σ)} {i : InstanceId}
    (hs : l.stages = s :: rest) (hi : s.transit? = some i) : l.Clear i rest :=
  h.transit s rest i ⟨[], hs.symm⟩ hi

theorem live_move (h : r.life.Current) (hc : r.life.Counted) (hs : r.life.Seated)
    (hm : Move m r l) {k : ActivationId} {t : Tenure σ} {s : Standing σ}
    (hk : .entry k ∈ l.stages) (ht : l.activations k = some t) (hb : t.aborted = false)
    (hi : l.instances t.owner = some s) : s.active = some k := by
  have live := h.live
  have hclear := @h.clear
  have owner := hc.owner
  have started := hc.started
  have entries := hc.entries
  have active := hs.active
  cases hm
  case quiet => exact live k t s hk ht hb hi
  all_goals
    generalize r.life = l at *
    simp only [Life.note, Life.on, addInstance, modifyInstance, modifyActivation, Life.begin,
      Life.tearDown, addActivation] at hk ht hi
    grind [Option.map_eq_some_iff, Life.Clear]

/-- Once an instance departs, all its entries have been exited. -/
theorem clear_departed (h : r.life.Current) {i : InstanceId} {s : Standing σ}
    (hi : r.life.instances i = some s) (hl : ∀ k t, s.active = some k →
      l.activations k = some t → t.aborted = true)
    (hk : ∀ k, s.active ≠ some k → l.activations k = r.life.activations k) :
    l.Clear i r.life.stages := by
  intro k t hm ht ho
  by_contra hb
  by_cases ha : s.active = some k
  · exact hb (hl k t ha ht)
  · rw [hk k ha] at ht
    exact ha (h.live k t s hm ht (by simpa using hb) (ho ▸ hi))

theorem transit_move (h : r.life.Current) (hc : r.life.Counted) (hm : Move m r l) {s : Stage σ}
    {rest : List (Stage σ)} {i : InstanceId} (hsuf : s :: rest <:+ l.stages)
    (hi : s.transit? = some i) : l.Clear i rest := by
  have kept : ∀ {s rest i}, s :: rest <:+ r.life.stages → s.transit? = some i → l.Clear i rest :=
    fun hsuf hi => (h.transit _ _ _ hsuf hi).move hc ((List.suffix_cons _ _).trans hsuf) hm
  have popped : ∀ {g stages}, r.life.stages = g :: stages → s :: rest <:+ stages →
      l.Clear i rest := fun hg hsuf => kept (hsuf.trans ⟨[_], hg.symm⟩) hi
  cases hm
  case quiet => exact kept hsuf hi
  case write => exact kept hsuf hi
  case observe => exact kept hsuf hi
  case place =>
    rcases List.suffix_cons_iff.1 hsuf with hsuf | hsuf
    · cases hsuf
      cases hi
      intro k t hk ht ho
      cases Nat.lt_irrefl _ (ho ▸ hc.owner k t ht)
    · exact kept hsuf hi
  case depart j s d hj ha hd =>
    rcases List.suffix_cons_iff.1 hsuf with hsuf | hsuf
    · cases hsuf
      cases (d.transit?_stage j).symm.trans hi
      exact h.clear_departed hj (by simp [ha]) fun _ _ => rfl
    · exact kept hsuf hi
  case exit j s k b d hj ha hk hd =>
    rcases List.suffix_cons_iff.1 hsuf with hsuf | hsuf
    · cases hsuf
      cases hi
    rcases List.suffix_cons_iff.1 hsuf with hsuf | hsuf
    · cases hsuf
      cases (d.transit?_stage j).symm.trans hi
      refine h.clear_departed hj (fun k' t hk' ht => ?_) fun k' hk' => ?_
      · cases ha.symm.trans hk'
        simp only [Life.on, Life.tearDown, Life.note, modifyActivation, if_true, modifyInstance,
          hk, Option.map_some] at ht
        exact Option.some.inj ht ▸ rfl
      · exact if_neg (by rintro rfl; exact hk' ha)
    · exact kept hsuf hi
  case change hs _ =>
    rcases List.suffix_cons_iff.1 hsuf with hsuf | hsuf
    · cases hsuf
      cases hi
      exact kept ⟨[], hs.symm⟩ rfl
    · exact popped hs hsuf
  case enter hs _ _ _ =>
    rcases List.suffix_cons_iff.1 hsuf with hsuf | hsuf
    · cases hsuf
      cases hi
    · exact popped hs hsuf
  case displace hs _ _ _ =>
    rcases List.suffix_cons_iff.1 hsuf with hsuf | hsuf
    · cases hsuf
      cases hi
    · exact popped hs hsuf
  -- the other moves end a stage
  all_goals exact popped (by assumption) hsuf

theorem move (h : r.life.Current) (hc : r.life.Counted) (hs : r.life.Seated) (hm : Move m r l) :
    l.Current :=
  ⟨fun _ _ _ => h.live_move hc hs hm, fun _ _ _ => h.transit_move hc hm⟩

end Life.Current

/-! ### All of it -/

/-- What holds of every lifecycle. -/
structure Life.Sound (l : Life σ) : Prop extends
  Life.Counted l, Life.Windowed l, Life.Seated l, Life.Current l

theorem Life.Sound.empty : (empty : Life σ).Sound where
  placed i := by simp [Life.empty]
  started k := by simp [Life.empty]
  owner _ _ h := nomatch h
  transits _ h := nomatch h
  entries _ h := nomatch h
  nodup := List.nodup_nil
  window _ _ h := nomatch h
  active _ _ _ h := nomatch h
  exiting _ _ _ h := nomatch h
  aborted _ _ h := nomatch h
  live _ _ _ h := nomatch h
  transit s rest i h := by simp [Life.empty] at h

theorem Life.Sound.move (h : r.life.Sound) (hm : Move m r l) : l.Sound where
  toCounted := h.toCounted.move hm
  toWindowed := h.toWindowed.move h.toCounted hm
  toSeated := h.toSeated.move h.toCounted hm
  toCurrent := h.toCurrent.move h.toCounted h.toSeated hm

/-- **The lifecycle of every run that occurs is sound.** -/
theorem Reach.sound (h : Reach m ok r) : r.life.Sound :=
  h.life_induction .empty fun _ _ _ _ h => h.move

namespace Reach

theorem instance_placed (h : Reach m ok r) {i : InstanceId} (hi : i < r.life.placed) :
    ∃ inst, r.world.instances.get? i = some inst := by
  obtain ⟨s, hs⟩ := Option.isSome_iff_exists.1 ((h.sound.placed i).2 hi)
  obtain ⟨inst, hinst, -⟩ := Option.map_eq_some_iff.1 hs
  exact ⟨inst, hinst⟩

variable {k : ActivationId} {a : Activation σ}

theorem owner_placed (h : Reach m ok r) (hk : r.world.activations.get? k = some a) :
    ∃ inst, r.world.instances.get? a.owner = some inst :=
  h.instance_placed (h.sound.owner k a.tenure (World.life_activations hk))

theorem aborted_of_exited (h : Reach m ok r) (hk : r.exited k = true) :
    ∃ a, r.world.activations.get? k = some a ∧ a.signal.aborted = true := by
  obtain ⟨i, s, he⟩ := Run.exited_iff.1 hk
  obtain ⟨t, ht, hb⟩ := h.sound.exiting i k s he
  obtain ⟨a, ha, rfl⟩ := Option.map_eq_some_iff.1 ht
  exact ⟨a, ha, hb⟩

theorem exited_iff_aborted (h : Reach m ok r) (hk : r.world.activations.get? k = some a) :
    r.exited k = true ↔ a.signal.aborted = true := by
  constructor
  · intro he
    obtain ⟨b, hb, hab⟩ := h.aborted_of_exited he
    rw [hk] at hb
    obtain rfl := Option.some.inj hb
    exact hab
  · intro ha
    have hk' : r.life.activations k = some a.tenure := World.life_activations hk
    obtain ⟨s, hs⟩ := h.sound.aborted k a.tenure hk' ha
    exact Run.exited_iff.2 ⟨_, s, hs⟩

end Reach

end Statechart
