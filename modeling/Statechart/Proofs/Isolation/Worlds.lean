import Statechart.Proofs.Isolation.Basic

/-!
What can be done to two worlds beside each other. Every change of the one that concerns the instance
has its like in the other. Where something new comes to the instance, the matching grows by a pair;
all that was matched before stays so.
-/

namespace Statechart

variable {σ : Signature} {I : Isolation σ} {p q : Pairs} {w w' : World σ} {k k' : ActivationId}
  {stack stack' : List (Frame σ)}

/-! ### Matchings that grow -/

namespace Pairs

theorem Targets.mono {t t' : Target σ} (h : p.Targets t t') (hq : p.Within q) :
    q.Targets t t' := by
  cases h with
  | environment hk tr pl => exact .environment (hq.acts hk) tr pl
  | handle hk => exact .handle (hq.acts hk)
  | bare => exact .bare

theorem Cleanups.mono {c c' : Cleanup σ} (h : p.Cleanups c c') (hq : p.Within q) :
    q.Cleanups c c' :=
  ⟨hq.acts h.author, h.code⟩

theorem Wakers.mono {x x' : Waker} (h : p.Wakers x x') (hq : p.Within q) : q.Wakers x x' := by
  cases h with
  | idle => exact .idle
  | task ht => exact .task (hq.tasks ht)

theorem Pollers.mono {x x' : Poller} (h : p.Pollers x x') (hq : p.Within q) : q.Pollers x x' := by
  cases h with
  | entry => exact .entry
  | spawner => exact .spawner
  | executor ht => exact .executor (hq.tasks ht)

theorem Progresses.mono {x x' : Progress σ} (h : p.Progresses x x') (hq : p.Within q) :
    q.Progresses x x' := by
  cases h with
  | ready f => exact .ready f
  | stalled => exact .stalled
  | awaiting hk f last => exact .awaiting (hq.acts hk) f last

theorem Tasks.mono {t t' : Task σ} (h : p.Tasks t t') (hq : p.Within q) : q.Tasks t t' :=
  ⟨hq.acts h.activation, rel_mono h.progress fun _ _ hx => hx.mono hq⟩

theorem Cells.mono {α β : Type} {c c' : Cell α β} (h : p.Cells c c') (hq : p.Within q) :
    q.Cells c c' :=
  ⟨h.value, h.observers.imp fun _ _ ho => ⟨hq.subs ho.1, ho.2⟩⟩

theorem Instances.mono {a a' : Instance σ} (h : p.Instances a a') (hq : p.Within q) :
    q.Instances a a' :=
  ⟨h.state.mono hq, h.context.mono hq, rel_mono h.active fun _ _ => hq.acts⟩

theorem Activations.mono {i : InstanceId} {a a' : Activation σ} (h : p.Activations i a a')
    (hq : p.Within q) : q.Activations i a a' :=
  ⟨h.owner, h.owner', h.state, h.aborted, h.observer, h.wakers.imp fun _ _ hx => hx.mono hq,
    h.windowOpen, rel_mono h.cleanup fun _ _ hc => hc.mono hq⟩

/-! ### Cells -/

namespace Cells

variable {α β : Type} {c c' : Cell α β} {x x' : SubscriptionId}

theorem write (h : p.Cells c c') (a : α) : p.Cells (c.write a) (c'.write a) := ⟨rfl, h.observers⟩

theorem subscribe (h : p.Cells c c') (hx : p.subs.Pair x x') (b : β) :
    p.Cells (c.subscribe x b) (c'.subscribe x' b) :=
  ⟨h.value, List.rel_append h.observers (.cons ⟨hx, rfl⟩ .nil)⟩

theorem observes_eq (h : p.Cells c c') (hx : p.subs.Pair x x') :
    c.observes x = c'.observes x' := by
  obtain ⟨value, observers⟩ := c
  obtain ⟨value', observers'⟩ := c'
  obtain ⟨-, ho⟩ := h
  change observers.any (fun o => o.1 = x) = observers'.any fun o => o.1 = x'
  dsimp only at ho
  induction ho with
  | nil => rfl
  | cons ho _ ih => rw [List.any_cons, List.any_cons, ih, decide_eq_decide.2 (ho.1.eq_iff hx)]

theorem unsubscribe (h : p.Cells c c') (hx : p.subs.Pair x x') :
    p.Cells (c.unsubscribe x) (c'.unsubscribe x') := by
  obtain ⟨value, observers⟩ := c
  obtain ⟨value', observers'⟩ := c'
  obtain ⟨hv, ho⟩ := h
  refine ⟨hv, ?_⟩
  change List.Forall₂ _ (observers.filter fun o => o.1 ≠ x) (observers'.filter fun o => o.1 ≠ x')
  dsimp only at ho
  clear hv
  induction ho with
  | nil => exact .nil
  | @cons o o' _ _ ho _ ih =>
    by_cases he : o.1 = x
    · rw [List.filter_cons_of_neg (by simp [he]),
        List.filter_cons_of_neg (by simp [(ho.1.eq_iff hx).1 he])]
      exact ih
    · rw [List.filter_cons_of_pos (by simp [he]),
        List.filter_cons_of_pos (by simp [mt (ho.1.eq_iff hx).2 he])]
      exact .cons ho ih

end Cells

end Pairs

namespace Isolation

theorem Notices.mono {n n' : Notice σ} (h : I.Notices p n n') (hq : p.Within q) :
    I.Notices q n n' := by
  cases h with
  | state hx s => exact .state (hq.subs hx) s
  | context hx c => exact .context (hq.subs hx) c

theorem Frames.mono {f f' : Frame σ} (h : I.Frames p f f') (hq : p.Within q) :
    I.Frames q f f' := by
  cases h with
  | resume ht next => exact .resume (ht.mono hq) next
  | owning => exact .owning
  | pinning => exact .pinning
  | farewell e => exact .farewell e
  | settle e => exact .settle e
  | exiting hk hw hc =>
    exact .exiting (hq.acts hk) (hw.imp fun _ _ hx => hx.mono hq)
      (rel_mono hc fun _ _ hc => hc.mono hq)
  | changing s a pl => exact .changing s a pl
  | notifying hc => exact .notifying (hc.imp fun _ _ hx => ⟨hx.1.mono hq, hx.2⟩)
  | entering tr pl => exact .entering tr pl
  | body hk => exact .body (hq.acts hk)
  | dropping hk => exact .dropping (hq.acts hk)
  | acting hp hk next => exact .acting (hp.mono hq) (hq.acts hk) next
  | placing slot hs => exact .placing slot hs

theorem Stacks.mono (h : I.Stacks p stack stack') (hq : p.Within q) : I.Stacks q stack stack' :=
  h.imp fun _ _ hf => hf.mono hq

theorem Events.mono {e e' : Event σ} (h : I.Events p e e') (hq : p.Within q) : I.Events q e e' :=
  fun _ _ hf => h ⟨hf.inst, fun hk => hf.act (hq.acts hk), fun ht => hf.task (hq.tasks ht)⟩

theorem Places.mono {r r' : Roster (Instance σ)} (h : I.Places p r r') (hq : p.Within q) :
    I.Places q r r' :=
  { h with own := rel_mono h.own fun _ _ ha => ha.mono hq }

theorem Handles.mono {t t' : Table String ActivationId} (h : I.Handles p t t')
    (hq : p.Within q) : I.Handles q t t' := by
  refine { h with bound := fun hb => ?_ }
  obtain ⟨k', hk, hb'⟩ | hother := h.bound hb
  · exact .inl ⟨k', hq.acts hk, hb'⟩
  · exact .inr hother

theorem Journals.mono {j j' : List (Event σ)} (h : I.Journals p j j') (hq : p.Within q) :
    I.Journals q j j' := by
  obtain ⟨since, since', hj, hj', hs⟩ := h
  exact ⟨since, since', hj, hj', hs.imp fun _ _ he => he.mono hq⟩

/-! ### Entries that fall to the instance -/

namespace Dealt

variable {α : Type} {M : Matching Nat} {R S : α → α → Prop}
  {i : InstanceId} {whom whom' before : α → Option InstanceId} {r r' base : Roster α} {a a' : α}

theorem mono (h : Dealt i M R whom whom' before r r' base) (hS : ∀ a a', R a a' → S a a') :
    Dealt i M S whom whom' before r r' base :=
  { h with pairs := fun hk => rel_mono (h.pairs hk) hS }

theorem whom_eq (h : Dealt i M R whom whom' before r r' base) (hk : M.Pair k k') :
    (r.get? k).bind whom = some i := by
  rw [← Roster.mem_dealt, h.own, Matching.mem_map_fst]
  exact ⟨k', hk⟩

/-- The pairs are there on either side. -/
theorem get (h : Dealt i M R whom whom' before r r' base) (hk : M.Pair k k') :
    ∃ a a', r.get? k = some a ∧ r'.get? k' = some a' ∧ R a a' := by
  rcases rel_cases (h.pairs hk) with ⟨hn, -⟩ | hs
  · have hw := h.whom_eq hk
    rw [hn] at hw
    cases hw
  · exact hs

theorem fresh (h : Dealt i M R whom whom' before r r' base) : r.size ∉ M.pairs.map Prod.fst := by
  rw [← h.own, Roster.mem_dealt, (Roster.get?_eq_none_iff r _).2 Nat.le.refl]
  exact nofun

theorem fresh' (h : Dealt i M R whom whom' before r r' base) :
    r'.size ∉ M.pairs.map Prod.snd := by
  rw [← h.own', Roster.mem_dealt, (Roster.get?_eq_none_iff r' _).2 Nat.le.refl]
  exact nofun

/-- What is new to the instance makes a pair. -/
theorem push (h : Dealt i M R whom whom' before r r' base) (hw : whom a = some i)
    (hw' : whom' a' = some 0) (hR : R a a') :
    Dealt i (M.add r.size r'.size h.fresh h.fresh') R whom whom' before (r.push a) (r'.push a')
      base where
  own := by
    rw [Roster.dealt_push, if_pos hw, h.own, Matching.add, List.map_append]
    rfl
  own' := by
    rw [Roster.dealt_push, if_pos hw', h.own', Matching.add, List.map_append]
    rfl
  pairs := by
    intro k k' hk
    rw [Roster.get?_push, Roster.get?_push]
    rcases (Matching.pair_add h.fresh h.fresh').1 hk with hk | ⟨rfl, rfl⟩
    · rw [if_neg, if_neg]
      · exact h.pairs hk
      · rintro rfl
        exact h.fresh' (Matching.mem_map_snd.2 ⟨k, hk⟩)
      · rintro rfl
        exact h.fresh (Matching.mem_map_fst.2 ⟨k', hk⟩)
    · rw [if_pos rfl, if_pos rfl]
      exact .some hR
  rest := by
    intro k hk
    rw [Matching.add, List.map_append, List.mem_append, not_or] at hk
    rw [Roster.get?_push, if_neg fun he => hk.2 (List.mem_singleton.2 he)]
    exact h.rest hk.1
  others := by
    intro j hj
    rw [Roster.dealt_push, if_neg fun he => hj (Option.some.inj (he.symm.trans hw)),
      List.append_nil]
    exact h.others hj

/-- A pair changes on either side. -/
theorem modify (h : Dealt i M R whom whom' before r r' base) {f f' : α → α} (hk : M.Pair k k')
    (hf : ∀ a a', R a a' → R (f a) (f' a'))
    (hw : ∀ a, r.get? k = some a → whom (f a) = whom a)
    (hw' : ∀ a, r'.get? k' = some a → whom' (f' a) = whom' a) :
    Dealt i M R whom whom' before (r.modify k f) (r'.modify k' f') base where
  own := (Roster.dealt_modify hw _).trans h.own
  own' := (Roster.dealt_modify hw' _).trans h.own'
  pairs := by
    intro j j' hj
    rw [Roster.get?_modify, Roster.get?_modify]
    by_cases he : j = k
    · rw [if_pos he, if_pos ((hj.eq_iff hk).1 he)]
      exact rel_map (h.pairs hj) hf
    · rw [if_neg he, if_neg (mt (hj.eq_iff hk).2 he)]
      exact h.pairs hj
  rest := by
    intro j hj
    rw [Roster.get?_modify, if_neg]
    · exact h.rest hj
    · rintro rfl
      exact hj (Matching.mem_map_fst.2 ⟨k', hk⟩)
  others hj := (Roster.dealt_modify hw _).trans (h.others hj)

/-- The entries fall to whom they fell before. -/
theorem relabel (h : Dealt i M R whom whom' before r r' base)
    {whom₁ whom₁' : α → Option InstanceId} (hw : ∀ k a, r.get? k = some a → whom₁ a = whom a)
    (hw' : ∀ k a, r'.get? k = some a → whom₁' a = whom' a) :
    Dealt i M R whom₁ whom₁' before r r' base := by
  have same {r : Roster α} {whom whom₁ : α → Option InstanceId}
      (hw : ∀ k a, r.get? k = some a → whom₁ a = whom a) (j : InstanceId) :
      r.dealt whom₁ j = r.dealt whom j := by
    refine Roster.dealt_congr rfl (fun k => ?_) j
    cases ha : r.get? k with
    | none => rfl
    | some a => exact hw k a ha
  exact ⟨(same hw _).trans h.own, (same hw' _).trans h.own', h.pairs, h.rest,
    fun hj => (same hw _).trans (h.others hj)⟩

end Dealt

theorem Places.modify {r r' : Roster (Instance σ)} (h : I.Places p r r')
    {f f' : Instance σ → Instance σ}
    (hf : ∀ a a', p.Instances a a' → p.Instances (f a) (f' a')) :
    I.Places p (r.modify I.inst f) (r'.modify 0 f') where
  own := by
    rw [Roster.get?_modify, Roster.get?_modify, if_pos rfl, if_pos rfl]
    exact rel_map h.own hf
  size' := h.size'
  rest := by
    intro j hj
    rw [Roster.get?_modify, if_neg hj]
    exact h.rest hj

/-! ### Changes of a world -/

namespace Worlds

theorem record (h : I.Worlds p w w') {e e' : Event σ} (he : I.Events p e e') :
    I.Worlds p (w.record e) (w'.record e') := by
  obtain ⟨since, since', hj, hj', hs⟩ := h.journal
  exact { h with
    journal := ⟨e :: since, e' :: since', congrArg (e :: ·) hj, congrArg (e' :: ·) hj',
      .cons he hs⟩ }

/-- An event is recorded that names the instance. -/
theorem recordInst (h : I.Worlds p w w') (e : InstanceId → Event σ)
    (he : ∀ f i, (e i).renumber f = e (f.inst i)) :
    I.Worlds p (w.record (e I.inst)) (w'.record (e 0)) :=
  h.record fun f f' hf => by rw [he, he, hf.inst]

/-- An event is recorded that names an activation of the instance. -/
theorem recordAct (h : I.Worlds p w w') (hk : p.acts.Pair k k') (e : ActivationId → Event σ)
    (he : ∀ f k, (e k).renumber f = e (f.act k)) :
    I.Worlds p (w.record (e k)) (w'.record (e k')) :=
  h.record fun f f' hf => by rw [he, he, hf.act hk]

/-- What is queued does not matter. -/
theorem queue (h : I.Worlds p w w') (l l' : List TaskId) :
    I.Worlds p { w with ready := l } { w' with ready := l' } :=
  { h with }

theorem modifyInstance (h : I.Worlds p w w') {f f' : Instance σ → Instance σ}
    (hf : ∀ a a', p.Instances a a' → p.Instances (f a) (f' a')) :
    I.Worlds p (w.modifyInstance I.inst f) (w'.modifyInstance 0 f') :=
  { h with instances := h.instances.modify hf }

theorem modifyActivation (h : I.Worlds p w w') (hk : p.acts.Pair k k')
    {f f' : Activation σ → Activation σ}
    (hf : ∀ a a', p.Activations I.inst a a' → p.Activations I.inst (f a) (f' a')) :
    I.Worlds p (w.modifyActivation k f) (w'.modifyActivation k' f') := by
  obtain ⟨a, a', ha, ha', hrel⟩ := h.activations.get hk
  have hown : ∀ b, w.activations.get? k = some b → (f b).owner = b.owner := by
    intro b hb
    obtain rfl := Option.some.inj (ha.symm.trans hb)
    rw [(hf _ _ hrel).owner, hrel.owner]
  have hown' : ∀ b, w'.activations.get? k' = some b → (f' b).owner = b.owner := by
    intro b hb
    obtain rfl := Option.some.inj (ha'.symm.trans hb)
    rw [(hf _ _ hrel).owner', hrel.owner']
  exact { h with
    activations := h.activations.modify hk hf (fun b hb => congrArg some (hown b hb))
      fun b hb => congrArg some (hown' b hb)
    tasks := h.tasks.relabel (fun _ t _ => Roster.owner?_modify hown t.activation)
      fun _ t _ => Roster.owner?_modify hown' t.activation }

theorem owner?_of_pair (h : I.Worlds p w w') (hk : p.acts.Pair k k') :
    w.activations.owner? k = some I.inst ∧ w'.activations.owner? k' = some 0 := by
  obtain ⟨a, a', ha, ha', hrel⟩ := h.activations.get hk
  rw [Roster.owner?, Roster.owner?, ha, ha', Option.map_some, Option.map_some, hrel.owner,
    hrel.owner']
  exact ⟨rfl, rfl⟩

theorem closeWindow (h : I.Worlds p w w') (hk : p.acts.Pair k k') :
    I.Worlds p (w.closeWindow k) (w'.closeWindow k') :=
  h.modifyActivation hk fun _ _ ha => { ha with windowOpen := rfl }

/-- An activation starts on either side. -/
theorem begin (h : I.Worlds p w w') (s : σ.State) (tr : Trigger σ.Action)
    (pl : Option σ.Payload) :
    ∃ q, p.Within q ∧ q.acts.Pair w.activations.size w'.activations.size ∧
      I.Worlds q (w.begin I.inst s tr pl) (w'.begin 0 s tr pl) := by
  obtain ⟨q, hact, hq, hnew⟩ : ∃ q,
      q = p.addAct _ _ h.activations.fresh h.activations.fresh' ∧ p.Within q ∧
        q.acts.Pair w.activations.size w'.activations.size :=
    ⟨_, rfl, Pairs.within_addAct, Pairs.pair_addAct⟩
  have hpushed : I.Worlds q
      { w with activations := w.activations.push { owner := I.inst, state := s } }
      { w' with activations := w'.activations.push { owner := 0, state := s } } := by
    subst hact
    exact
      { instances := h.instances.mono hq
        activations := (h.activations.mono fun _ _ ha => ha.mono hq).push rfl rfl
          ⟨rfl, rfl, rfl, rfl, rfl, .nil, rfl, .none⟩
        tasks := (h.tasks.mono fun _ _ ht => ht.mono hq).relabel
          (fun _ _ ht => Roster.owner?_push _ _ (h.spawned ht))
          fun _ _ ht => Roster.owner?_push _ _ (h.spawned' ht)
        spawned := fun ht => Nat.lt_succ_of_lt (h.spawned ht)
        spawned' := fun ht => Nat.lt_succ_of_lt (h.spawned' ht)
        slots := h.slots
        handles := h.handles.mono hq
        names := { h.names with }
        journal := h.journal.mono hq }
  refine ⟨q, hq, hnew, (hpushed.modifyInstance fun _ _ ha => ?_).record fun f f' hf => ?_⟩
  · exact { ha with active := .some hnew }
  · simp only [Event.renumber, hf.inst, hf.act hnew]

/-- An instance is placed on either side, which is the first one that is alone. -/
theorem place (h : I.Worlds p w w') (hi : w.instances.size = I.inst) (s : σ.State)
    (x : σ.Context) :
    w'.instances.size = 0 ∧
      I.Worlds p { w with instances := w.instances.push ⟨⟨s, []⟩, ⟨x, []⟩, none⟩ }
        { w' with instances := w'.instances.push ⟨⟨s, []⟩, ⟨x, []⟩, none⟩ } := by
  have hnone : w.instances.get? I.inst = none :=
    (Roster.get?_eq_none_iff _ _).2 (Nat.le_of_eq hi)
  have hsize : w'.instances.size = 0 := by
    have hown := h.instances.own
    rw [hnone] at hown
    cases hn : w'.instances.get? 0 with
    | none => exact Nat.le_zero.1 ((Roster.get?_eq_none_iff _ _).1 hn)
    | some a => rw [hn] at hown; cases hown
  refine ⟨hsize, { h with instances := ⟨?_, ?_, fun hj => ?_⟩ }⟩
  · rw [Roster.get?_push, Roster.get?_push, if_pos hi.symm, if_pos hsize.symm]
    exact .some ⟨⟨rfl, .nil⟩, ⟨rfl, .nil⟩, .none⟩
  · exact Nat.le_of_eq (congrArg (· + 1) hsize)
  · rw [Roster.get?_push, if_neg (hi ▸ hj)]
    exact h.instances.rest hj

/-! ### Tasks -/

theorem spawned_push {acts : Roster (Activation σ)} {tasks : Roster (Task σ)} {t : Task σ}
    (hs : Spawned acts tasks) (ht : t.activation < acts.size) : Spawned acts (tasks.push t) := by
  intro j task hj
  rw [Roster.get?_push] at hj
  split at hj
  · cases hj
    exact ht
  · exact hs hj

/-- A task is spawned on either side. -/
theorem addTask (h : I.Worlds p w w') (hk : p.acts.Pair k k') {x x' : Progress σ}
    (hx : p.Progresses x x') :
    ∃ q, p.Within q ∧ I.Worlds q (w.addTask k x) (w'.addTask k' x') := by
  obtain ⟨a, a', ha, ha', -⟩ := h.activations.get hk
  obtain ⟨howner, howner'⟩ := h.owner?_of_pair hk
  have hq : p.Within (p.addTask _ _ h.tasks.fresh h.tasks.fresh') := Pairs.within_addTask
  refine ⟨_, hq, ?_⟩
  exact
    { instances := h.instances.mono hq
      activations := h.activations.mono fun _ _ ha => ha.mono hq
      tasks := (h.tasks.mono fun _ _ ht => ht.mono hq).push howner howner' ⟨hk, .some (hx.mono hq)⟩
      spawned := spawned_push h.spawned (Roster.lt_size ha)
      spawned' := spawned_push h.spawned' (Roster.lt_size ha')
      slots := h.slots
      handles := h.handles.mono hq
      names := { h.names with }
      journal := h.journal.mono hq }

theorem spawned_modify {acts : Roster (Activation σ)} {tasks : Roster (Task σ)}
    (hs : Spawned acts tasks) (t : TaskId) (x : Option (Progress σ)) :
    Spawned acts (tasks.modify t fun task => { task with progress := x }) := by
  intro j task hj
  rw [Roster.get?_modify] at hj
  split at hj
  · obtain ⟨task', htask, rfl⟩ := Option.map_eq_some_iff.1 hj
    have hlt := hs htask
    exact hlt
  · exact hs hj

theorem setProgress (h : I.Worlds p w w') {t t' : TaskId} (ht : p.tasks.Pair t t')
    {x x' : Option (Progress σ)} (hx : Option.Rel p.Progresses x x') :
    I.Worlds p (w.setProgress t x) (w'.setProgress t' x') := by
  exact { h with
    tasks := h.tasks.modify ht (fun _ _ ht => ⟨ht.activation, hx⟩) (fun _ _ => rfl) fun _ _ => rfl
    spawned := spawned_modify h.spawned t x
    spawned' := spawned_modify h.spawned' t' x' }

theorem fireWaker (h : I.Worlds p w w') {x x' : Waker} (hx : p.Wakers x x') :
    I.Worlds p (w.fireWaker x) (w'.fireWaker x') := by
  have queued (w : World σ) (t : TaskId) :
      ∃ l, w.wake t = { w.record (.woken t) with ready := l } := by
    unfold World.wake
    split
    · exact ⟨_, rfl⟩
    · exact ⟨_, rfl⟩
  cases hx with
  | idle => exact h
  | @task t t' ht =>
    obtain ⟨l, hl⟩ := queued w t
    obtain ⟨l', hl'⟩ := queued w' t'
    change I.Worlds p (w.wake t) (w'.wake t')
    rw [hl, hl']
    refine (h.record fun f f' hf => ?_).queue l l'
    simp only [Event.renumber, hf.task ht]

theorem fireWakers (h : I.Worlds p w w') {xs xs' : List Waker}
    (hx : List.Forall₂ p.Wakers xs xs') :
    I.Worlds p (xs.foldl World.fireWaker w) (xs'.foldl World.fireWaker w') := by
  induction hx generalizing w w' with
  | nil => exact h
  | cons hx _ ih => exact ih (h.fireWaker hx)

/-! ### Slots and handles -/

theorem store (h : I.Worlds p w w') {slot : String} (hs : I.whose slot = I.inst) :
    I.Worlds p { w with slots := w.slots.insert slot I.inst }
      { w' with slots := w'.slots.insert slot 0 } := by
  refine { h with slots := ⟨fun other => ?_, fun {other j} hj => ?_, fun {other} ho => ?_⟩ }
  · rw [Table.get?_insert, Table.get?_insert]
    split
    · next he => rw [← he, if_pos hs]; rfl
    · exact h.slots.own other
  · rw [Table.get?_insert] at hj
    split at hj
    · next he => rw [← he, hs]; exact (Option.some.inj hj).symm
    · exact h.slots.held hj
  · rw [Table.get?_insert, if_neg]
    · exact h.slots.rest ho
    · rintro rfl
      exact ho hs

theorem erase (h : I.Worlds p w w') {slot : String} (hs : I.whose slot = I.inst) :
    I.Worlds p { w with slots := w.slots.erase slot } { w' with slots := w'.slots.erase slot } := by
  refine { h with slots := ⟨fun other => ?_, fun {other j} hj => ?_, fun {other} ho => ?_⟩ }
  · rw [Table.get?_erase, Table.get?_erase]
    split
    · simp
    · exact h.slots.own other
  · rw [Table.get?_erase] at hj
    split at hj
    · cases hj
    · exact h.slots.held hj
  · rw [Table.get?_erase, if_neg]
    · exact h.slots.rest ho
    · rintro rfl
      exact ho hs

theorem keep (h : I.Worlds p w w') (hk : p.acts.Pair k k') (name : String) :
    I.Worlds p { w with handles := w.handles.insert name k }
      { w' with handles := w'.handles.insert name k' } := by
  refine { h with handles := ⟨fun {other} ho => ?_, fun {other j} hj => ?_⟩ }
  · rw [Table.get?_insert] at ho ⊢
    split at ho
    · cases ho
    · next he => rw [if_neg he]; exact h.handles.unbound ho
  · rw [Table.get?_insert] at hj ⊢
    split at hj
    · next he =>
      cases hj
      exact .inl ⟨k', hk, if_pos he⟩
    · next he => rw [if_neg he]; exact h.handles.bound hj

/-! ### Subscriptions -/

theorem toNat_succ {x : SubscriptionId} (h : x + 1 ≠ 0) : (x + 1).toNat = x.toNat + 1 := by
  have hne : (x + 1).toNat ≠ 0 := fun he => h (UInt64.toNat_inj.1 he)
  have hlt := x.toNat_lt
  rw [UInt64.toNat_add, UInt64.toNat_one] at hne ⊢
  omega

end Worlds

namespace Names

variable {t t' : Table String SubscriptionId} {x x' : SubscriptionId}

/-- The counter of the one that is alone is never ahead, so that it has an id left as well. -/
theorem succ_alone (h : I.Names p t t' x x') (hc : x + 1 ≠ 0) :
    (x' + 1).toNat = x'.toNat + 1 := by
  refine Worlds.toNat_succ fun h0 => hc (UInt64.toNat_inj.1 ?_)
  have hnext := Worlds.toNat_succ hc
  have hle := h.counter
  have h0 := congrArg UInt64.toNat h0
  have hlt := (x + 1).toNat_lt
  rw [UInt64.toNat_add, UInt64.toNat_one, UInt64.toNat_zero] at h0
  omega

theorem unused (h : I.Names p t t' x x') : x ∉ p.subs.pairs.map Prod.fst := by
  intro hx
  obtain ⟨_, hx⟩ := Matching.mem_map_fst.1 hx
  exact Nat.lt_irrefl _ (h.used hx).1

theorem unused_alone (h : I.Names p t t' x x') : x' ∉ p.subs.pairs.map Prod.snd := by
  intro hx
  obtain ⟨_, hx⟩ := Matching.mem_map_snd.1 hx
  exact Nat.lt_irrefl _ (h.used hx).2

/-- The next ids go together, under a name that is used for the instance. -/
theorem insert (h : I.Names p t t' x x') {name : String} (hn : I.whose name = I.inst)
    (hc : x + 1 ≠ 0) :
    I.Names (p.addSub x x' h.unused h.unused_alone) (t.insert name x) (t'.insert name x') (x + 1)
      (x' + 1) where
  own := by
    intro other ho
    rw [Table.get?_insert, Table.get?_insert]
    split
    · exact .some Pairs.pair_addSub
    · exact rel_mono (h.own ho) fun _ _ => Pairs.within_addSub.subs
  rest := by
    intro other ho
    rw [Table.get?_insert, if_neg]
    · exact h.rest ho
    · rintro rfl
      exact ho hn
  used := by
    intro y y' hy
    rw [Worlds.toNat_succ hc, h.succ_alone hc]
    rcases (Matching.pair_add h.unused h.unused_alone).1 hy with hy | ⟨rfl, rfl⟩
    · exact ⟨Nat.lt_succ_of_lt (h.used hy).1, Nat.lt_succ_of_lt (h.used hy).2⟩
    · exact ⟨Nat.lt_succ_self _, Nat.lt_succ_self _⟩
  counter := by
    rw [Worlds.toNat_succ hc, h.succ_alone hc]
    exact Nat.succ_le_succ h.counter
  later := by
    rw [Worlds.toNat_succ hc]
    exact Nat.le_succ_of_le h.later

end Names

namespace Worlds

/-- A subscription gets an id on either side, under a name that is used for the instance. -/
theorem nameSubscription (h : I.Worlds p w w') {name : String} (hn : I.whose name = I.inst)
    (hc : w.nextSubscription + 1 ≠ 0) :
    ∃ q, p.Within q ∧ q.subs.Pair w.nextSubscription w'.nextSubscription ∧
      I.Worlds q (w.nameSubscription name) (w'.nameSubscription name) := by
  have hq : p.Within (p.addSub _ _ h.names.unused h.names.unused_alone) := Pairs.within_addSub
  refine ⟨_, hq, Pairs.pair_addSub, ?_⟩
  exact
    { instances := h.instances.mono hq
      activations := h.activations.mono fun _ _ ha => ha.mono hq
      tasks := h.tasks.mono fun _ _ ht => ht.mono hq
      spawned := h.spawned
      spawned' := h.spawned'
      slots := h.slots
      handles := h.handles.mono hq
      names := h.names.insert hn hc
      journal := h.journal.mono hq }

theorem watchState (h : I.Worlds p w w') {name : String} (hn : I.whose name = I.inst)
    (hc : w.nextSubscription + 1 ≠ 0) (observer : σ.State → Code σ) :
    ∃ q, p.Within q ∧ I.Worlds q (w.watchState I.inst name observer)
      (w'.watchState 0 name observer) := by
  obtain ⟨q, hq, hx, hw⟩ := h.nameSubscription hn hc
  exact ⟨q, hq, hw.modifyInstance fun _ _ ha => { ha with state := ha.state.subscribe hx observer }⟩

theorem watchContext (h : I.Worlds p w w') {name : String} (hn : I.whose name = I.inst)
    (hc : w.nextSubscription + 1 ≠ 0) (observer : σ.Context → Code σ) :
    ∃ q, p.Within q ∧ I.Worlds q (w.watchContext I.inst name observer)
      (w'.watchContext 0 name observer) := by
  obtain ⟨q, hq, hx, hw⟩ := h.nameSubscription hn hc
  exact ⟨q, hq,
    hw.modifyInstance fun _ _ ha => { ha with context := ha.context.subscribe hx observer }⟩

theorem unwatch (h : I.Worlds p w w') {x x' : SubscriptionId} (hx : p.subs.Pair x x') :
    (w.unwatch I.inst x).1 = (w'.unwatch 0 x').1 ∧
      I.Worlds p (w.unwatch I.inst x).2 (w'.unwatch 0 x').2 := by
  unfold World.unwatch
  rcases rel_cases h.instances.own with ⟨hi, hi'⟩ | ⟨inst, inst', hi, hi', hrel⟩
  · rw [hi, hi']
    exact ⟨rfl, h⟩
  · rw [hi, hi']
    dsimp only
    rw [hrel.state.observes_eq hx, hrel.context.observes_eq hx]
    split
    · exact ⟨rfl, h.modifyInstance fun _ _ ha => { ha with state := ha.state.unsubscribe hx }⟩
    · split
      · exact ⟨rfl, h.modifyInstance fun _ _ ha => { ha with context := ha.context.unsubscribe hx }⟩
      · exact ⟨rfl, h⟩

/-! ### What a world shows -/

theorem aborted (h : I.Worlds p w w') (hk : p.acts.Pair k k') : w.aborted k = w'.aborted k' := by
  obtain ⟨a, a', ha, ha', hrel⟩ := h.activations.get hk
  rw [World.aborted, World.aborted, ha, ha']
  exact hrel.aborted

theorem view (h : I.Worlds p w w') {t t' : Target σ} (ht : p.Targets t t') :
    w.view t = w'.view t' := by
  have hview {k k' : ActivationId} (hk : p.acts.Pair k k') {t t' : Target σ}
      (hkt : t.activation? = some k) (hkt' : t'.activation? = some k')
      (he : t.entry? = t'.entry?) : w.view t = w'.view t' := by
    obtain ⟨a, a', ha, ha', hrel⟩ := h.activations.get hk
    rw [World.view, World.view, hkt, hkt']
    simp only [Option.bind_eq_bind, Option.bind_some, ha, ha', hrel.owner, hrel.owner']
    rcases rel_cases h.instances.own with ⟨hi, hi'⟩ | ⟨inst, inst', hi, hi', hinst⟩
    · rw [hi, hi']
      rfl
    · rw [hi, hi', Option.bind_some, Option.bind_some, hrel.state, hinst.context.value,
        hrel.aborted, hrel.windowOpen, he]
  cases ht with
  | environment hk tr pl => exact hview hk rfl rfl rfl
  | handle hk => exact hview hk rfl rfl rfl
  | bare => rfl

/-- What belongs to another instance has belonged to it before. -/
theorem owner?_of_base (h : I.Worlds p w w') {j : InstanceId} (hj : j ≠ I.inst)
    (hk : I.base.activations.owner? k = some j) : w.activations.owner? k = some j := by
  rw [Roster.owner?_eq_bind, ← Roster.mem_dealt] at hk ⊢
  rwa [h.activations.others hj]

/-- A handle of the instance stands for the same on either side. -/
theorem handle (h : I.Worlds p w w') {name : String} (hb : w.bindsTo I.inst name = true) :
    Option.Rel p.acts.Pair (w.handles.get? name) (w'.handles.get? name) := by
  cases hn : w.handles.get? name with
  | none =>
    rw [(h.handles.unbound hn).1]
    exact .none
  | some k =>
    obtain ⟨k', hk, hn'⟩ | ⟨-, j, hj, hbase⟩ := h.handles.bound hn
    · rw [hn']
      exact .some hk
    · simp only [World.bindsTo, hn, Option.all_some, decide_eq_true_eq] at hb
      exact absurd (Option.some.inj ((h.owner?_of_base hj hbase).symm.trans hb)) hj

/-- What a slot of the instance holds on either side. -/
theorem slot (h : I.Worlds p w w') {slot : String} (hs : I.whose slot = I.inst) :
    w.slots.get? slot = none ∧ w'.slots.get? slot = none ∨
      w.slots.get? slot = some I.inst ∧ w'.slots.get? slot = some 0 := by
  rw [h.slots.own slot, if_pos hs]
  cases hn : w.slots.get? slot with
  | none => exact .inl ⟨rfl, rfl⟩
  | some j =>
    obtain rfl := h.slots.held hn
    exact .inr ⟨congrArg some hs, rfl⟩

theorem any_slot (h : I.Worlds p w w') :
    w.slots.entries.any (·.2 = I.inst) = w'.slots.entries.any (·.2 = 0) := by
  rw [Bool.eq_iff_iff, any_slot_iff, any_slot_iff]
  constructor
  · rintro ⟨slot, hs⟩
    obtain ⟨hn, -⟩ | ⟨-, hs'⟩ := h.slot (h.slots.held hs).symm
    · cases hs.symm.trans hn
    · exact ⟨slot, hs'⟩
  · rintro ⟨slot, hs'⟩
    by_cases hw : I.whose slot = I.inst
    · obtain ⟨-, hn⟩ | ⟨hs, -⟩ := h.slot hw
      · cases hs'.symm.trans hn
      · exact ⟨slot, hs⟩
    · rw [h.slots.own slot, if_neg hw] at hs'
      cases hs'

theorem owned_eq (h : I.Worlds p w w') (hs : I.Stacks p stack stack') :
    owned w stack I.inst = owned w' stack' 0 := by
  rw [owned, owned, h.any_slot]
  congr 1
  induction hs with
  | nil => rfl
  | cons hf _ ih =>
    rw [List.any_cons, List.any_cons, ih]
    cases hf <;> simp [Frame.owns]

theorem alive_eq (h : I.Worlds p w w') (hs : I.Stacks p stack stack') :
    alive w stack I.inst = alive w' stack' 0 := by
  rw [alive, alive, h.any_slot]
  congr 1
  induction hs with
  | nil => rfl
  | cons hf _ ih =>
    rw [List.any_cons, List.any_cons, ih]
    cases hf <;> simp [Frame.pins, Frame.owns]

end Worlds

end Isolation

end Statechart
