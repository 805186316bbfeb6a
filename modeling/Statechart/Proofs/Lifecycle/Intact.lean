import Statechart.Proofs.Lifecycle.Sound

/-!
Lifecycles in which no activation has lost its place to another one. There an activation that is
not aborted is the live one of its instance, and the latest that the instance has started. From
this it follows that an activation moves its instance on at most once, and that the activations of
an instance write its context one after the other.
-/

namespace Statechart

variable {σ : Signature} {m : Machine σ} {ok : Run σ → Prop} {r : Run σ} {l : Life σ}

/-! ### Events of an activation -/

namespace Event

/-- The activation through which a transition was asked for. -/
def mover? : Event σ → Option ActivationId
  | transition _ (.handle k) _ _ _ => some k
  | _ => none

/-- The activation through which the context of instance `i` was written. -/
def writer? (i : InstanceId) : Event σ → Option ActivationId
  | contextSet j k _ => if j = i then some k else none
  | _ => none

end Event

/-- What has happened reaches back to where it began. -/
theorem Move.past (hm : Move m r l) : r.life.past <:+ l.past := by
  cases hm with
  | quiet | exited | left | close | observe => exact List.suffix_rfl
  | place | depart | cleanup | change | enterBare | enter | forgo | keep | write =>
    exact List.suffix_cons _ _
  | displace | atOnce => exact ⟨[_, _], rfl⟩
  | exit => exact ⟨[_, _, _], rfl⟩

theorem Move.placed_le (hm : Move m r l) : r.life.placed ≤ l.placed := by
  cases hm
  case place => exact Nat.le_succ _
  all_goals exact Nat.le_refl _

/-- How a stage comes to be under way in a move. -/
inductive Move.Begins (m : Machine σ) (r : Run σ) (l : Life σ) (g : Stage σ) : Prop
  | entry (hg : g = .entry r.life.started)
  | placed (hg : g = .entering r.life.placed .initial none)
  | written {i t a p rest} (hg : g = .entering i (.action a) p)
      (hs : r.life.stages = .changing i t a p :: rest)
  | departs {i s} {d : Departure σ} (hg : g = d.stage i) (hi : r.life.instances i = some s)
      (hd : d.Due m r i) (hp : d.event i ∈ l.past)
  | exits {k b} (hg : g = .exiting k b.cleanup) (hk : r.life.activations k = some b)
      (hp : .aborted k ∈ l.past)

/-- What is under way has been so before, or has just begun. -/
theorem Move.stage (hm : Move m r l) {g : Stage σ} (hg : g ∈ l.stages) :
    g ∈ r.life.stages ∨ Begins m r l g := by
  have below {f : Stage σ} {rest : List (Stage σ)} (hs : r.life.stages = f :: rest)
      (hg : g ∈ rest) : g ∈ r.life.stages := hs ▸ List.mem_cons_of_mem _ hg
  cases hm
  case quiet => exact .inl hg
  case write => exact .inl hg
  case observe => exact .inl hg
  case place => exact (List.mem_cons.1 hg).symm.imp id .placed
  case depart hi _ hd =>
    exact (List.mem_cons.1 hg).symm.imp id (.departs · hi hd List.mem_cons_self)
  case exit hi _ hk hd =>
    rcases List.mem_cons.1 hg with hg | hg
    · exact .inr (.exits hg hk List.mem_cons_self)
    · refine (List.mem_cons.1 hg).symm.imp id (.departs · hi hd ?_)
      exact List.mem_cons_of_mem _ (List.mem_cons_of_mem _ List.mem_cons_self)
  case change hs _ => exact (List.mem_cons.1 hg).symm.imp (below hs) (.written · hs)
  case enter hs _ _ _ => exact (List.mem_cons.1 hg).symm.imp (below hs) .entry
  case displace hs _ _ _ => exact (List.mem_cons.1 hg).symm.imp (below hs) .entry
  all_goals exact .inl (below (by assumption) hg)

/-- An exit begins with the signal of its activation, and takes the cleanup of the activation
over. -/
theorem Move.Begins.exiting {k : ActivationId} {c : Option (Cleanup σ)}
    (h : Begins m r l (.exiting k c)) :
    .aborted k ∈ l.past ∧ ∃ b, r.life.activations k = some b ∧ b.cleanup = c := by
  cases h with
  | entry hg | placed hg | written hg _ => cases hg
  | departs hg _ _ _ => cases ‹Departure σ› <;> cases hg
  | exits hg hk hp =>
    cases hg
    exact ⟨hp, _, hk, rfl⟩

/-- An activation loses its place when its instance enters a state while it is live. -/
theorem Move.displaced (hm : Move m r l) {k : ActivationId} (hk : .displaced k ∈ l.past) :
    .displaced k ∈ r.life.past ∨ ∃ i tr p rest s, r.life.stages = .entering i tr p :: rest ∧
      r.life.instances i = some s ∧ s.active = some k := by
  have old {e : Event σ} {past : List (Event σ)} (hk : .displaced k ∈ e :: past)
      (he : .displaced k ≠ e) : .displaced k ∈ past := (List.mem_cons.1 hk).resolve_left he
  cases hm
  case quiet => exact .inl hk
  case depart d _ _ _ => exact .inl (old hk (by cases d <;> nofun))
  case exit d _ _ _ _ =>
    exact .inl (old (old (old hk nofun) nofun) (by cases d <;> nofun))
  case displace hs hi he ha =>
    rcases List.mem_cons.1 (old hk nofun) with e | hk
    · cases e
      exact .inr ⟨_, _, _, _, _, hs, hi, ha⟩
    · exact .inl hk
  case atOnce => exact .inl (old (old hk nofun) nofun)
  all_goals exact .inl (by first | exact hk | exact old hk nofun)

/-! ### The leading activation -/

/-- No activation has lost its place to another one. -/
def Life.Intact (l : Life σ) : Prop := ∀ k, .displaced k ∉ l.past

theorem Life.Intact.before (h : l.Intact) (hm : Move m r l) : r.life.Intact :=
  fun k hk => h k (hm.past.subset hk)

/-- What is not aborted leads: it is the live activation of its instance, and none was started
after it by the same instance. -/
structure Life.Led (l : Life σ) : Prop where
  live : ∀ k t s, l.activations k = some t → t.aborted = false →
    l.instances t.owner = some s → s.active = some k
  latest : ∀ j k t u, l.activations j = some t → l.activations k = some u → t.owner = u.owner →
    u.aborted = false → j ≤ k

/-- An activation was there before, or has just been started. -/
theorem Move.origin (hm : Move m r l) (hs : r.life.Sound) (hi : l.Intact) {k : ActivationId}
    {t : Tenure σ} (hk : l.activations k = some t) :
    (∃ u, r.life.activations k = some u ∧ t.owner = u.owner ∧
      (u.aborted = true → t.aborted = true)) ∨
    (k = r.life.started ∧ ∃ s, r.life.instances t.owner = some s ∧ s.active = none) := by
  have started := hs.started
  have active := hs.active
  cases hm
  case quiet => exact .inl ⟨t, hk, rfl, id⟩
  case displace => exact absurd (List.mem_cons_of_mem _ List.mem_cons_self) (hi _)
  all_goals
    clear hi hs
    generalize r.life = l at *
    simp only [Life.note, Life.on, Life.addInstance, Life.modifyInstance, Life.modifyActivation,
      Life.begin, Life.tearDown, Life.addActivation] at hk
    grind [Option.map_eq_some_iff]

/-- What is not aborted is the live activation, as far as instance `i` is concerned. -/
def Life.LiveAt (l : Life σ) (i : InstanceId) : Prop :=
  ∀ k t s, l.activations k = some t → t.owner = i → t.aborted = false → l.instances i = some s →
    s.active = some k

theorem Life.Led.liveAt (h : l.Led) (i : InstanceId) : l.LiveAt i :=
  fun k t s hk ho hb hi => h.live k t s hk hb (ho ▸ hi)

namespace Life.LiveAt

variable {i : InstanceId}

/-- What is not aborted stays live until its exit, if the instance loses no activation. -/
theorem move (h : r.life.LiveAt i) (hs : r.life.Sound) (hi : ∀ s j tr p rest,
      r.life.stages = .entering i tr p :: rest → r.life.instances i = some s →
        s.active = some j → .displaced j ∉ l.past) (hm : Move m r l) : l.LiveAt i := by
  intro k t s hk ho hb ht
  have owner := hs.owner
  have started := hs.started
  have active := hs.active
  unfold LiveAt at h
  clear hs
  cases hm
  case quiet => exact h k t s hk ho hb ht
  case displace j' tr p rest u c j hst hj he ha =>
    have hne : j' ≠ i := by
      rintro rfl
      exact hi u j tr p rest hst hj ha (List.mem_cons_of_mem _ List.mem_cons_self)
    clear hi
    generalize r.life = l at *
    simp only [Life.note, Life.on, modifyInstance, Life.begin, addActivation] at hk ht
    grind
  all_goals
    clear hi
    generalize r.life = l at *
    simp only [Life.note, Life.on, addInstance, modifyInstance, modifyActivation, Life.begin,
      Life.tearDown, addActivation] at hk ht
    grind [Option.map_eq_some_iff]

/-- Who may ask for a transition through an activation asks through the live one. -/
theorem active_of_admits (h : r.life.LiveAt i) {s : Standing σ} {k : ActivationId}
    (hi : r.life.instances i = some s) (ha : r.Admits i (.handle k)) : s.active = some k := by
  obtain ⟨b, hk, ho, hb⟩ := ha
  exact h k b s hk ho hb hi

end Life.LiveAt

namespace Life.Led

theorem live_move (h : r.life.Led) (hs : r.life.Sound) (hi : l.Intact) (hm : Move m r l)
    {k : ActivationId} {t : Tenure σ} {s : Standing σ} (hk : l.activations k = some t)
    (hb : t.aborted = false) (ht : l.instances t.owner = some s) : s.active = some k :=
  (h.liveAt t.owner).move hs (fun _ _ _ _ _ _ _ _ => hi _) hm k t s hk rfl hb ht

theorem latest_move (h : r.life.Led) (hs : r.life.Sound) (hi : l.Intact) (hm : Move m r l)
    {j k : ActivationId} {t u : Tenure σ} (hj : l.activations j = some t)
    (hk : l.activations k = some u) (ho : t.owner = u.owner) (hu : u.aborted = false) :
    j ≤ k := by
  rcases hm.origin hs hi hk with ⟨u', hk', huo, hua⟩ | ⟨rfl, -⟩
  · have hb : u'.aborted = false := by
      by_contra hb
      rw [hua (by simpa using hb)] at hu
      cases hu
    rcases hm.origin hs hi hj with ⟨t', hj', hto, -⟩ | ⟨rfl, s, ht, ha⟩
    · exact h.latest j k t' u' hj' hk' (by rw [← hto, ho, huo]) hb
    · -- a new activation is started only where none is live
      have := h.live k u' s hk' hb (by rwa [← huo, ← ho])
      rw [ha] at this
      cases this
  · rcases hm.origin hs hi hj with ⟨t', hj', -⟩ | ⟨rfl, -⟩
    · exact Nat.le_of_lt ((hs.started j).1 (by simp [hj']))
    · exact Nat.le_refl _

theorem move (h : r.life.Led) (hs : r.life.Sound) (hi : l.Intact) (hm : Move m r l) : l.Led :=
  ⟨fun _ _ _ => h.live_move hs hi hm, fun _ _ _ _ => h.latest_move hs hi hm⟩

/-- Who may ask for a transition through an activation asks through the live one. -/
theorem active_of_admits (h : r.life.Led) {i : InstanceId} {s : Standing σ} {k : ActivationId}
    (hi : r.life.instances i = some s) (ha : r.Admits i (.handle k)) : s.active = some k :=
  (h.liveAt i).active_of_admits hi ha

end Life.Led

/-! ### Transitions through an activation -/

/-- No transition was asked for twice through the same activation, nor through one that is not
aborted by now. -/
structure Life.Once (l : Life σ) : Prop where
  moved : ∀ k ∈ l.past.filterMap Event.mover?, ∃ t, l.activations k = some t ∧ t.aborted = true
  nodup : (l.past.filterMap Event.mover?).Nodup

theorem Life.Once.move (h : r.life.Once) (hl : r.life.Led) (hs : r.life.Sound)
    (hm : Move m r l) : l.Once := by
  have kept : ∀ k ∈ r.life.past.filterMap Event.mover?,
      ∃ t, l.activations k = some t ∧ t.aborted = true := by
    intro k hk
    obtain ⟨t, ht, hb⟩ := h.moved k hk
    obtain ⟨t', ht', -, -, ha, -⟩ := hm.ages hs.toCounted ht
    exact ⟨t', ht', ha hb⟩
  cases hm
  case depart i s d hi ha hd =>
    cases d with
    | release => exact ⟨kept, h.nodup⟩
    | transition caller src tgt a p =>
      cases caller with
      | owner => exact ⟨kept, h.nodup⟩
      | handle k => cases ha.symm.trans (hl.active_of_admits hi hd.2.2.2)
  case exit i s k b d hi ha hk hd =>
    cases d with
    | release => exact ⟨kept, h.nodup⟩
    | transition caller src tgt a p =>
      cases caller with
      | owner => exact ⟨kept, h.nodup⟩
      | handle j =>
        -- the activation that is asked is the one whose exit begins
        cases ha.symm.trans (hl.active_of_admits hi hd.2.2.2)
        refine ⟨fun j hj => ?_, List.nodup_cons.2 ⟨fun hk' => ?_, h.nodup⟩⟩
        · rcases List.mem_cons.1 hj with rfl | hj
          · exact ⟨b.spent, modifyActivation_eq_some.2 ⟨b, hk, if_pos rfl⟩, rfl⟩
          · exact kept j hj
        · obtain ⟨t, ht, hb⟩ := h.moved k hk'
          obtain ⟨u, hu, -, hub⟩ := hd.2.2.2
          rw [ht] at hu
          cases hu
          rw [hb] at hub
          cases hub
  all_goals exact ⟨kept, h.nodup⟩

/-! ### Context writes -/

/-- The activations of an instance have written its context in the order of their start. -/
structure Life.Serial (l : Life σ) : Prop where
  owner : ∀ i, ∀ k ∈ l.past.filterMap (Event.writer? i),
    ∃ t, l.activations k = some t ∧ t.owner = i
  sorted : ∀ i, (l.past.filterMap (Event.writer? i)).Pairwise (· ≥ ·)

theorem Life.Serial.move (h : r.life.Serial) (hl : r.life.Led) (hs : r.life.Sound)
    (hm : Move m r l) : l.Serial := by
  have kept : ∀ i, ∀ k ∈ r.life.past.filterMap (Event.writer? i),
      ∃ t, l.activations k = some t ∧ t.owner = i := by
    intro i k hk
    obtain ⟨t, ht, ho⟩ := h.owner i k hk
    obtain ⟨t', ht', ho', -⟩ := hm.ages hs.toCounted ht
    exact ⟨t', ht', ho'.trans ho⟩
  cases hm
  case depart d _ _ _ => cases d <;> exact ⟨kept, h.sorted⟩
  case exit d _ _ _ _ => cases d <;> exact ⟨kept, h.sorted⟩
  case write k b s c hk hb ho hi =>
    have hpast (i) : (((r.life.note (.contextSet b.owner k c)).modifyInstance b.owner
        fun s => { s with context := c }).past).filterMap (Event.writer? i) =
        if b.owner = i then k :: r.life.past.filterMap (Event.writer? i)
        else r.life.past.filterMap (Event.writer? i) := by
      simp only [modifyInstance, Life.note, List.filterMap_cons, Event.writer?]
      by_cases he : b.owner = i <;> simp [he]
    refine ⟨fun i j hj => ?_, fun i => ?_⟩
    · rw [hpast] at hj
      split at hj
      · next he =>
        rcases List.mem_cons.1 hj with rfl | hj
        · exact ⟨b, hk, he⟩
        · exact kept i j hj
      · exact kept i j hj
    · rw [hpast]
      split
      · next he =>
        refine List.pairwise_cons.2 ⟨fun j hj => ?_, h.sorted i⟩
        obtain ⟨t, ht, hto⟩ := h.owner i j hj
        exact hl.latest j k t b ht hk (hto.trans he.symm) hb
      · exact h.sorted i
  all_goals exact ⟨kept, h.sorted⟩

/-! ### All of it -/

/-- What holds of every intact lifecycle. -/
structure Life.Lawful (l : Life σ) : Prop extends Life.Led l, Life.Once l, Life.Serial l

/-- **The lifecycle of a run is lawful as long as no activation has lost its place.** -/
theorem Reach.lawful (h : Reach m ok r) (hi : r.life.Intact) : r.life.Lawful := by
  refine h.life_induction (P := fun l => l.Intact → l.Lawful) (fun _ => ?_)
    (fun r l hr _ ih hm hi => ?_) hi
  · exact ⟨⟨nofun, nofun⟩, ⟨nofun, List.nodup_nil⟩, ⟨nofun, fun _ => List.Pairwise.nil⟩⟩
  · have ih := ih (hi.before hm)
    exact ⟨ih.toLed.move hr.sound hi hm, ih.toOnce.move ih.toLed hr.sound hm,
      ih.toSerial.move ih.toLed hr.sound hm⟩

end Statechart
