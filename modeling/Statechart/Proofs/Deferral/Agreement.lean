import Statechart.Proofs.Deferral.Lockstep

/-!
Whole courses beside each other. Whatever is done to a machine, and to the one whose effect hands
back a future, comes to the same: the same worlds, and the same journals but for the reports that a
future that waits for ever found no spawner, one for each activation whose entry is over.
-/

namespace Statechart

variable {σ : Signature}

/-- A deed begins with the lifecycle as it is. -/
theorem Run.Over.life_start {r r' : Run σ} (hr : r.Over) {d : Deed σ}
    (hd : d.start? r.world = some r') : r'.life = r.life := by
  have hturns := hr.turns hd
  clear hd
  induction hturns with
  | single ht => exact Run.life_turn ht
  | tail _ ht ih => exact (Run.life_turn ht).trans ih

theorem World.nextTask?_beside (w : World σ) (past : List (Event σ)) :
    (w.beside past w.tasks w.ready).nextTask? =
      w.nextTask?.map fun n => (n.1, n.2.1, n.2.2.beside past n.2.2.tasks n.2.2.ready) := by
  have hfinished : (w.beside past w.tasks w.ready).finished = w.finished := rfl
  have hready : (w.beside past w.tasks w.ready).ready = w.ready := rfl
  simp only [nextTask?, hfinished, hready]
  cases w.ready.dropWhile w.finished with
  | nil => rfl
  | cons t rest => simp [Function.comp_def, beside]

theorem World.journal_nextTask? {w w₁ : World σ} {t : TaskId} {task : Task σ}
    (h : w.nextTask? = some (t, task, w₁)) : w₁.journal = w.journal := by
  unfold nextTask? at h
  split at h
  · cases h
  · obtain ⟨_, -, he⟩ := Option.map_eq_some_iff.1 h
    cases he
    rfl

/-- Where the executors are the same, every deed begins in the same way. -/
theorem Margin.start_rel {M : Margin σ} {w w' : World σ} (h : M.Worlds w w') (hx : M.executor)
    (hp : ∀ k, M.admits (.polled k)) (hs : M.frames [] []) (d : Deed σ) :
    Option.Rel M.Runs (d.start? w) (d.start? w') := by
  obtain ⟨ht, hj⟩ := h
  obtain ⟨rfl, rfl⟩ := ht hx
  rename_i past
  have beside {w : World σ} (hj : M.journals w.journal past) :
      M.Worlds w (w.beside past w.tasks w.ready) := .intro (fun _ => ⟨rfl, rfl⟩) hj
  have polled {w : World σ} (hj : M.journals w.journal past) (k : ActivationId) :
      M.Worlds (w.record (.polled k)) ((w.beside past w.tasks w.ready).record (.polled k)) :=
    .intro (fun _ => ⟨rfl, rfl⟩) (M.record (hp k) hj)
  cases d with
  | call c => exact .some ⟨beside hj, rfl, hs⟩
  | handle k c =>
    change Option.Rel _ (if k < w.activations.size then _ else _)
      (if k < w.activations.size then _ else _)
    by_cases hk : k < w.activations.size
    · rw [if_pos hk, if_pos hk]
      exact .some ⟨beside hj, rfl, hs⟩
    · rw [if_neg hk, if_neg hk]
      exact .none
  | tick =>
    simp only [Deed.start?, Run.ofPoll?, World.nextTask?_beside]
    cases hn : w.nextTask? with
    | none => exact .none
    | some next =>
      obtain ⟨t, task, w₁⟩ := next
      have hj₁ : M.journals w₁.journal past := World.journal_nextTask? hn ▸ hj
      dsimp only [Option.map_some]
      cases task.progress with
      | none => exact .none
      | some p => exact .some ⟨polled hj₁ _, rfl, hs⟩
  | poll t =>
    refine rel_bind_same _ fun task _ => rel_bind_same _ fun p _ => ?_
    exact .some ⟨polled (w := w.unqueue t) hj task.activation, rfl, leave hs rfl⟩

namespace Deferral

variable {m : Machine σ} {D : Deferral m} {warned starts gone doing : List ActivationId}
  {r r' r₁ : Run σ} {ds : List (Deed σ)} {past : List (Run σ)}

namespace Stand

theorem worlds (h : D.Stand warned starts doing r r') :
    (D.margin warned starts []).Worlds r.world r'.world := by
  cases h with
  | same h => exact worlds_congr h.worlds
  | script hw | done hw => exact worlds_congr hw

theorem starts_eq (h : D.Stand warned starts doing r r') : r.world.startsIn D.state = starts :=
  h.worlds.journal.2

/-- The entries whose scripts are being performed are under way. -/
theorem entry_mem (h : D.Stand warned starts doing r r') {k : ActivationId} (hk : k ∈ doing) :
    .entry k ∈ r.life.stages := by
  have hbody : .body k ∈ r.stack := by
    cases h with
    | same h => exact h.stack.body_mem hk
    | script _ _ hs | done _ _ hs =>
      rcases List.mem_cons.1 hk with rfl | hk
      · exact List.mem_cons_self
      · exact List.mem_cons_of_mem _ (hs.body_mem hk)
  exact List.mem_append_right _ (List.mem_filterMap.2 ⟨_, hbody, rfl⟩)

theorem ending_eq (h : D.Stand warned starts doing r r') : r'.ending? = r.ending? := by
  cases h with
  | script | done => rfl
  | same h =>
    obtain ⟨w, control, stack⟩ := r
    obtain ⟨w', control', stack'⟩ := r'
    obtain ⟨-, hc, hs⟩ := h
    obtain rfl : control = control' := hc
    cases hs with
    | nil => rfl
    | same | script => cases control <;> rfl

/-- Between deeds, no script is being performed. -/
theorem idle (h : D.Stand warned starts doing r r') (hr : r.Over) : doing = [] := by
  obtain ⟨e, -, hstack⟩ := Run.over_iff.1 hr
  cases h with
  | script | done => cases hstack
  | same h =>
    have hs : D.Frames doing r.stack r'.stack := h.stack
    rw [hstack] at hs
    generalize r'.stack = stack' at hs
    cases hs
    rfl

end Stand

/-- What holds of the activations of the state: of those that have `gone`, the entry is over, and
those that are `doing` their scripts are in the state. -/
structure Books (s : σ.State) (gone doing : List ActivationId) (l : Life σ) : Prop where
  nodup : gone.Nodup
  gone : ∀ k ∈ gone, k < l.started ∧ .entry k ∉ l.stages
  doing : ∀ k ∈ doing, ∃ t, l.activations k = some t ∧ t.state = s

theorem Books.move {s : σ.State} {l : Life σ} (h : Books s gone doing r.life)
    (hc : r.life.Counted) (hm : Move m r l) : Books s gone doing l := by
  refine ⟨h.nodup, fun k hk => ?_, fun k hk => ?_⟩
  · obtain ⟨hlt, hnot⟩ := h.gone k hk
    exact ⟨Nat.lt_of_lt_of_le hlt hm.started_le,
      fun he => (hm.entry_mem he).elim hnot (Nat.ne_of_lt hlt)⟩
  · obtain ⟨t, ht, hst⟩ := h.doing k hk
    obtain ⟨t', ht', -, hst', -⟩ := hm.ages hc ht
    exact ⟨t', ht', hst'.trans hst⟩

/-- Two runs beside each other, with what holds of the activations. -/
structure Level (D : Deferral m) (gone doing : List ActivationId) (r r' : Run σ) : Prop where
  stand : D.Stand (if D.waits then gone else []) (r.world.startsIn D.state) doing r r'
  starts : ∀ k, k ∈ r.world.startsIn D.state ↔ k ∈ gone ∨ k ∈ doing
  books : Books D.state gone doing r.life

/-- A step of the one run is followed by the other. -/
theorem Level.step (h : D.Level gone doing r r') (hl : r.life.Sound) :
    (∃ n, r.step m = none ∧ (r'.steps D.machine n).step D.machine = none ∧
      D.Level gone doing r (r'.steps D.machine n)) ∨
    ∃ r₁ n gone' doing', r.step m = some r₁ ∧
      D.Level gone' doing' r₁ (r'.steps D.machine (n + 1)) := by
  have hdoing : ∀ k ∈ doing, ∃ a, r.world.activations.get? k = some a ∧ a.state = D.state := by
    intro k hk
    obtain ⟨t, ht, hst⟩ := h.books.doing k hk
    obtain ⟨a, ha, rfl⟩ := Option.map_eq_some_iff.1 ht
    exact ⟨a, ha, hst⟩
  cases h.stand.pass hdoing with
  | halt n hn hn' hs => exact .inl ⟨n, hn, hn', hs, h.starts, h.books⟩
  | quiet n r₁ hr hs =>
    refine .inr ⟨r₁, n, gone, doing, hr, ?_, ?_, h.books.move hl.toCounted (Run.move_step hr)⟩
    · rwa [hs.starts_eq]
    · rw [hs.starts_eq]
      exact h.starts
  | start n r₁ t hr hs ht hst =>
    have hbooks := h.books.move hl.toCounted (Run.move_step hr)
    refine .inr ⟨r₁, n, gone, r.life.started :: doing, hr, ?_, fun k => ?_, hbooks.nodup,
      hbooks.gone, fun k hk => ?_⟩
    · rwa [hs.starts_eq]
    · rw [hs.starts_eq, List.mem_cons, List.mem_cons, h.starts, or_left_comm]
    · rcases List.mem_cons.1 hk with rfl | hk
      · exact ⟨t, ht, hst⟩
      · exact hbooks.doing k hk
  | finish n k rest r₁ hd hr hs hstages =>
    subst hd
    have hbooks := h.books.move hl.toCounted (Run.move_step hr)
    have hentry : .entry k ∈ r.life.stages := hstages ▸ List.mem_cons_self
    have hnodup := hl.nodup
    rw [hstages] at hnodup
    have hnot : .entry k ∉ r₁.life.stages := fun hk =>
      (List.nodup_cons.1 hnodup).1 (List.mem_filterMap.2 ⟨_, hk, rfl⟩)
    refine .inr ⟨r₁, n, k :: gone, rest, hr, ?_, fun j => ?_, ?_, fun j hj => ?_, fun j hj => ?_⟩
    · rw [hs.starts_eq]
      cases hw : D.waits <;> simpa [hw] using hs
    · rw [hs.starts_eq, h.starts, List.mem_cons, List.mem_cons, or_left_comm, or_assoc]
    · exact List.nodup_cons.2 ⟨fun hk => (h.books.gone k hk).2 hentry, h.books.nodup⟩
    · rcases List.mem_cons.1 hj with rfl | hj
      · exact ⟨Nat.lt_of_lt_of_le (hl.entries _ hentry _ rfl) (Run.move_step hr).started_le, hnot⟩
      · exact hbooks.gone j hj
    · exact hbooks.doing j (List.mem_cons_of_mem _ hj)

/-! ### Whole courses -/

/-- The two machines begin alike. -/
theorem Level.start (c : Code σ) : D.Level [] [] (.ofCode {} c) (.ofCode {} c) := by
  refine ⟨.same ⟨.refl ⟨?_, rfl⟩, rfl, .nil⟩, fun k => by simp [World.startsIn, Run.ofCode],
    .nil, nofun, nofun⟩
  cases D.waits <;> exact .nil

/-- Between deeds the two machines are ready for the same. -/
theorem Level.next (h : D.Level gone doing r r') (hr : r.Over) (d : Deed σ) :
    Option.Rel (D.Level gone []) (d.start? r.world) (d.start? r'.world) := by
  obtain rfl := h.stand.idle hr
  have hrel := Margin.start_rel h.stand.worlds trivial (fun _ => rfl) .nil d
  obtain ⟨hd, hd'⟩ | ⟨r₁, r₁', hd, hd', hrel⟩ := rel_cases hrel
  · rw [hd, hd']
    exact .none
  · rw [hd, hd']
    have hstarts := hrel.worlds.journal.2
    refine .some ⟨.same ?_, fun k => ?_, ?_⟩
    · rwa [World.startsIn, hstarts]
    · rw [World.startsIn, hstarts]
      exact h.starts k
    · rw [hr.life_start hd]
      exact h.books

theorem Level.over_iff (h : D.Level gone doing r r') : r'.Over ↔ r.Over := by
  rw [Run.Over, h.stand.ending_eq, Run.Over]

/-- A run of the one machine, and a run of the one whose effect hands back the future. -/
structure Mirror (D : Deferral m) (r r' : Run σ) : Prop where
  /-- All that there is besides the journals is the same. -/
  world : r'.world = { r.world with journal := r'.world.journal }
  ending : r'.ending? = r.ending?
  /-- The same has happened in the same order, but that a future that waits for ever has been
  reported for each activation of the state whose entry is over. -/
  journal : ∃ warned, Spliced D.state warned r.world.journal r'.world.journal ∧ warned.Nodup ∧
    ∀ k, k ∈ warned ↔
      D.waits = true ∧ k ∈ r.world.startsIn D.state ∧ r.entering k = false
  /-- If the future is resolved, no listener can tell the difference. -/
  reports : D.waits = false → ∀ least, r'.world.journal.filterMap (Event.report? least) =
    r.world.journal.filterMap (Event.report? least)

theorem Level.mirror (h : D.Level gone doing r r') : D.Mirror r r' := by
  have hworlds := h.stand.worlds
  have hspliced := hworlds.journal.1
  refine ⟨?_, h.stand.ending_eq, ⟨_, hspliced, ?_, fun k => ?_⟩, fun hw => ?_⟩
  · generalize r'.world = w' at hworlds
    obtain ⟨ht, -⟩ := hworlds
    obtain ⟨rfl, rfl⟩ := ht trivial
    rfl
  · split
    · exact h.books.nodup
    · exact .nil
  · have hentering : r.entering k = false ↔ .entry k ∉ r.life.stages := by
      rw [Run.entry_mem_stages, Bool.not_eq_true]
    rw [h.starts, hentering]
    cases D.waits with
    | false => simp
    | true =>
      simp only [if_true, true_and]
      constructor
      · exact fun hk => ⟨.inl hk, (h.books.gone k hk).2⟩
      · exact fun ⟨hk, hnot⟩ => hk.resolve_right fun hd => hnot (h.stand.entry_mem hd)
  · rw [hw] at hspliced
    exact hspliced.reports_eq

/-- **What the two machines have in common.** -/
structure Agreement (D : Deferral m) : Prop where
  /-- Whatever comes of deeds, the same deeds come to the same when the script is deferred, -/
  forth {ds : List (Deed σ)} {past : List (Run σ)} {r : Run σ} (h : Course m ds past r) :
    ∃ past' r', Course D.machine ds past' r' ∧ D.Mirror r r'
  /-- and the other way about, where a deferred script may take some steps to begin or to end. -/
  back {ds : List (Deed σ)} {past' : List (Run σ)} {r' : Run σ}
    (h : Course D.machine ds past' r') :
    ∃ past r n, Course m ds past r ∧ D.Mirror r (r'.steps D.machine n)

theorem forth (h : Course m ds past r) :
    ∃ past' r' gone doing, Course D.machine ds past' r' ∧ D.Level gone doing r r' := by
  induction h with
  | start c => exact ⟨_, _, _, _, .start c, .start c⟩
  | step h hs ih =>
    obtain ⟨past', r', gone, doing, h', hlevel⟩ := ih
    obtain ⟨n, hnone, -⟩ | ⟨r₁, n, gone', doing', hr, hlevel'⟩ := hlevel.step h.reach.sound
    · cases hs.symm.trans hnone
    obtain rfl := Option.some.inj (hs.symm.trans hr)
    obtain ⟨past'', h'', -⟩ := h'.steps (n + 1)
    exact ⟨past'', _, _, _, h'', hlevel'⟩
  | next h hr d hd ih =>
    obtain ⟨past', r', gone, doing, h', hlevel⟩ := ih
    obtain ⟨hnone, -⟩ | ⟨r₁, r₁', hd₁, hd', hlevel'⟩ := rel_cases (hlevel.next hr d)
    · cases hd.symm.trans hnone
    obtain rfl := Option.some.inj (hd.symm.trans hd₁)
    exact ⟨_, _, _, _, h'.next (hlevel.over_iff.2 hr) d hd', hlevel'⟩

theorem back (h : Course D.machine ds past r') :
    ∃ past r n gone doing, Course m ds past r ∧ D.Level gone doing r (r'.steps D.machine n) := by
  induction h with
  | start c => exact ⟨_, _, 0, _, _, .start c, .start c⟩
  | @step ds past' r' r₁' h hs ih =>
    obtain ⟨past, r, n, gone, doing, h', hlevel⟩ := ih
    cases n with
    | succ n =>
      rw [Run.steps_succ hs] at hlevel
      exact ⟨_, _, n, _, _, h', hlevel⟩
    | zero =>
      obtain ⟨n, -, hstuck, hlevel'⟩ | ⟨r₁, n, gone', doing', hr, hlevel'⟩ :=
        hlevel.step h'.reach.sound
      · cases n with
        | zero => cases hs.symm.trans hstuck
        | succ n =>
          rw [Run.steps, Run.steps_succ hs] at hlevel'
          exact ⟨_, _, n, _, _, h', hlevel'⟩
      · rw [Run.steps, Run.steps_succ hs] at hlevel'
        exact ⟨_, _, n, _, _, h'.step hr, hlevel'⟩
  | @next ds past' r' r₁' h hr d hd ih =>
    obtain ⟨past, r, n, gone, doing, h', hlevel⟩ := ih
    rw [Run.steps_of_over hr] at hlevel
    have hover := hlevel.over_iff.1 hr
    obtain ⟨-, hnone⟩ | ⟨r₁, r₂', hd₁, hd', hlevel'⟩ := rel_cases (hlevel.next hover d)
    · cases hd.symm.trans hnone
    obtain rfl := Option.some.inj (hd.symm.trans hd')
    exact ⟨_, _, 0, _, _, h'.next hover d hd₁, hlevel'⟩

end Deferral

/-- **A script may be deferred to a future**, which performs it when it is first polled. -/
theorem Deferral.agreement {m : Machine σ} (D : Deferral m) : D.Agreement where
  forth h := by
    obtain ⟨past', r', gone, doing, h', hlevel⟩ := forth (D := D) h
    exact ⟨past', r', h', hlevel.mirror⟩
  back h := by
    obtain ⟨past, r, n, gone, doing, h', hlevel⟩ := Deferral.back (D := D) h
    exact ⟨past, r, n, h', hlevel.mirror⟩

/-! ### A lamp -/

namespace Lamp

/-- A lamp that presses its own switch once it is placed, and does not ask what comes of it. -/
def swift : Machine sig where
  config := ⟨.ofPairs
    [(false, {
        transitions := .ofPairs [((), true)]
        effect := some (.setContext (1 : Nat) (.dispatch () none fun _ => .finish .done)) }),
      (true, {})]⟩
  initialState := false
  initialContext := (0 : Nat)
  spawner := none
  declared := by decide

/-- The same, left to a future that then waits for ever. -/
def deferral : Deferral swift where
  state := false
  script := .setContext (1 : Nat) (.dispatch () none fun _ => .finish .done)
  piece := .setContext (1 : Nat) (.dispatch () none fun _ => .finish .done)
  next _ := .never none
  waits := true
  effect := rfl
  performs := (Code.Script.setContext _ (.dispatch _ _ fun _ => .done)).performs _
  unattended _ := rfl

end Lamp

/-- The lamp does the same when its script is deferred, and the future is reported once. -/
theorem lamp_deferred : ∃ past r past' r',
    Course Lamp.swift [.call (.place "lamp" .fresh .ofReply)] past r ∧ r.Over ∧
    r.world.startsIn (σ := Lamp.sig) false = [0] ∧
    Course Lamp.deferral.machine [.call (.place "lamp" .fresh .ofReply)] past' r' ∧
    Lamp.deferral.Mirror r r' := by
  obtain ⟨past, h, -⟩ := (Course.start (m := Lamp.swift) (.place "lamp" .fresh .ofReply)).steps 30
  obtain ⟨past', r', h', hmirror⟩ := Lamp.deferral.agreement.forth h
  exact ⟨past, _, past', r', h, Option.isSome_iff_exists.1 (by decide +kernel), by decide +kernel,
    h', hmirror⟩

end Statechart
