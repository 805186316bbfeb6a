import Statechart.Proofs.Run.Margin
import Statechart.Proofs.Lifecycle.Sound

/-!
What becomes of the futures that effects hand back, as long as nobody runs the executor. A future
that is handed back is polled at once, and this is the only poll of it; if the poll leaves it
unfinished it is given to the spawner, if there is one, and at no other time. A future that is not
kept is let go at once, and the destructors of what it owns run before anything else does.
-/

namespace Statechart

variable {σ : Signature} {m : Machine σ} {r s : Run σ} {ds : List (Deed σ)} {past : List (Run σ)}
  {k : ActivationId}

/-- Whether an event tells of a poll, or that an unfinished future is given away. -/
def Event.booked : Event σ → Bool
  | polled _ | spawned _ | noSpawner .. => true
  | _ => false

namespace Run

/-- The activation whose effect body has just handed back a future. -/
def handsBack? (r : Run σ) : Option ActivationId :=
  match r.control, r.stack with
  | .ended (.ok (.pending _)), .body k :: _ => some k
  | _, _ => none

/-- The activation whose first poll is about to leave its future unfinished. -/
def leavesPending? (r : Run σ) : Option ActivationId :=
  match r.control with
  | .future .entry k q => if q.waits r.world then some k else none
  | _ => none

/-- The destructors of what the future owns that the next step leaves unfinished in its first
poll. -/
def leftover? (r : Run σ) : Option (Code σ) :=
  match r.control with
  | .future .entry _ q => if q.waits r.world then q.last? else none
  | _ => none

/-- The events of polls, and of unfinished futures that are given away. -/
def pollEvents (r : Run σ) : List (Event σ) := r.world.journal.filter Event.booked

/-- The activations whose futures have been polled, the latest first. -/
def polled (r : Run σ) : List ActivationId :=
  r.pollEvents.filterMap fun
    | .polled k => some k
    | _ => none

/-- The activations whose futures have been given to the spawner, the latest first. -/
def spawned (r : Run σ) : List ActivationId :=
  r.pollEvents.filterMap fun
    | .spawned k => some k
    | _ => none

/-- The activations whose futures have been dropped for want of a spawner, the latest first. -/
def unspawned (r : Run σ) : List ActivationId :=
  r.pollEvents.filterMap fun
    | .noSpawner k _ => some k
    | _ => none

end Run

/-- What is recorded when an unfinished future is given away. -/
def Machine.givesAway (m : Machine σ) (k : ActivationId) (s : σ.State) : Event σ :=
  match m.spawner with
  | none => .noSpawner k s
  | some _ => .spawned k

theorem Machine.booked_givesAway (s : σ.State) : (m.givesAway k s).booked = true := by
  unfold givesAway
  split <;> rfl

/-- Whether the unfinished futures that a spawner is given are kept. -/
def Spawner.keeps : Spawner → Bool
  | queue | pool | eager => true
  | discard | shutdown => false

/-! ### What a step does to futures -/

/-- Nothing is recorded about futures, and no effect body is started but those of which `P`
holds. -/
def Margin.still (P : ActivationId → Prop) (events : List (Event σ)) : Margin σ where
  journals j j' := j = j' ∧ j.filter Event.booked = events
  admits e := e.booked = false
  frames s s' := s = s' ∧ ∀ k, .body k ∈ s → P k
  bears f := ∀ k, f = .body k → P k
  executor := True
  admits_of {e} h := by
    cases e <;> first | rfl | cases h
  bears_of := by
    rintro f hf k rfl
    cases hf
  record := by
    rintro e j _ he ⟨rfl, hj⟩
    exact ⟨rfl, by rwa [List.filter_cons_of_neg (by simp [he])]⟩
  push := by
    rintro f s _ hf ⟨rfl, hs⟩
    refine ⟨rfl, fun k hk => ?_⟩
    rcases List.mem_cons.1 hk with h | h
    · exact hf k h.symm
    · exact hs k h
  owns h _ := by rw [h.1]
  pins h _ := by rw [h.1]

/-- A step that is neither the end of an effect body with a future nor that of a first poll with an
unfinished one. -/
structure Run.Still (r s : Run σ) : Prop where
  pollEvents : s.pollEvents = r.pollEvents
  bodies : ∀ k, .body k ∈ s.stack → .body k ∈ r.stack ∨ k = r.world.activations.size
  back : r.handsBack? = none
  pending : r.leavesPending? = none

/-- **What a step does with a future.** -/
inductive Run.Hands (m : Machine σ) : Run σ → Run σ → Prop
  | still {r s : Run σ} (h : r.Still s) : Hands m r s
  | back {w : World σ} {k : ActivationId} {f : Future σ} {stack : List (Frame σ)} :
      Hands m ⟨w, .ended (.ok (.pending f)), .body k :: stack⟩
        ⟨w.record (.polled k), .future .entry k (.ready f), stack⟩
  | pending {w : World σ} {k : ActivationId} {q : Progress σ} {stack : List (Frame σ)}
      {a : Activation σ} {s : Run σ} (hq : q.waits w = true)
      (hk : w.activations.get? k = some a)
      (hsize : s.world.activations.size = w.activations.size)
      (hj : s.pollEvents = m.givesAway k a.state :: w.journal.filter Event.booked)
      (hb : ∀ j, .body j ∈ s.stack → .body j ∈ stack) (hl : s.life.stages = stagesOf stack) :
      Hands m ⟨w, .future .entry k q, stack⟩ s

/-- **What becomes of an unfinished future that is given away**: it is gone, or a task, or its
destructors run. -/
inductive World.GivenAway (m : Machine σ) (w : World σ) (k : ActivationId) (s : σ.State)
    (last : Option (Code σ)) (stack : List (Frame σ)) : Run σ → Prop
  | gone (tasks : Roster (Task σ)) (ready : List TaskId) (more : List (Event σ))
      (hl : m.spawner.any Spawner.keeps = true ∨ last = none)
      (hm : more = [] ∨ more = [.refused k]) :
      GivenAway m w k s last stack
        ⟨w.beside (more ++ m.givesAway k s :: w.journal) tasks ready, .ended .done, stack⟩
  | drops (c : Code σ) (hl : last = some c) (hm : m.spawner.any Spawner.keeps = false) :
      GivenAway m w k s last stack
        ⟨w.record (m.givesAway k s), .code (.handle k) c, .dropping k :: stack⟩

namespace World

variable {w : World σ} {a : Activation σ} {last : Option (Code σ)} {stack : List (Frame σ)}

theorem givenAway_letsGo {w' : World σ} (st : σ.State) (hw : w' = w.record (m.givesAway k st))
    (hm : m.spawner.any Spawner.keeps = false) (h : w'.LetsGo m k stack last s) :
    w.GivenAway m k st last stack s := by
  subst hw
  cases h with
  | gone => exact .gone w.tasks w.ready [] (.inr rfl) (.inl rfl)
  | refused => exact .gone w.tasks w.ready [_] (.inr rfl) (.inr rfl)
  | drops c => exact .drops c rfl hm

theorem givenAway_spawn (hm : m.spawner ≠ some .eager) (ha : w.activations.get? k = some a)
    {q : Progress σ} (h : w.spawn m k q last stack = some s) :
    w.GivenAway m k a.state last stack s := by
  cases spawn_cases h with
  | polled hs => exact absurd hs hm
  | @queued hs =>
    have hgives : m.givesAway k a.state = .spawned k := by
      rcases hs with hs | hs <;> simp only [Machine.givesAway, hs]
    have hkeeps : m.spawner.any Spawner.keeps = true := by
      rcases hs with hs | hs <;> rw [hs] <;> rfl
    have hworld : (w.record (.spawned k)).addTask k q =
        w.beside ([] ++ m.givesAway k a.state :: w.journal) (w.tasks.push ⟨k, some q⟩)
          (w.ready ++ [w.tasks.size]) := by
      rw [hgives]
      rfl
    exact hworld ▸ .gone _ _ [] (.inl hkeeps) (.inl rfl)
  | @missing b _ hk hs h =>
    obtain rfl := Option.some.inj (ha.symm.trans hk)
    refine givenAway_letsGo _ ?_ ?_ h
    · simp only [Machine.givesAway, hs]
    · rw [hs]
      rfl
  | dropped hs h =>
    refine givenAway_letsGo _ ?_ ?_ h
    · rcases hs with hs | hs <;> simp only [Machine.givesAway, hs]
    · rcases hs with hs | hs <;> rw [hs] <;> rfl

/-- Every spawner takes what it is given. -/
theorem exists_givenAway (hm : m.spawner ≠ some .eager) (ha : w.activations.get? k = some a)
    (q : Progress σ) (last : Option (Code σ)) (stack : List (Frame σ)) :
    ∃ r, w.spawn m k q last stack = some r ∧ w.GivenAway m k a.state last stack r := by
  have hsome : (w.spawn m k q last stack).isSome = true := by
    simp only [spawn, ha, Option.bind_eq_bind, Option.bind_some]
    split <;> rfl
  obtain ⟨r, hr⟩ := Option.isSome_iff_exists.1 hsome
  exact ⟨r, hr, givenAway_spawn hm ha hr⟩

/-- A first poll that leaves the future unfinished closes the window and gives the future away. -/
theorem advance_waits {q : Progress σ} (hq : q.waits w = true)
    (h : w.advance m .entry k stack q = some s) :
    ∃ (w₁ : World σ) (q' : Progress σ), w₁.spawn m k q' q.last? stack = some s ∧
      w₁.journal = w.journal ∧ w₁.activations.size = w.activations.size ∧
      (w₁.activations.get? k).map Activation.state =
        (w.activations.get? k).map Activation.state := by
  have hclose (w : World σ) : ((w.closeWindow k).activations.get? k).map Activation.state =
      (w.activations.get? k).map Activation.state := by
    simp [closeWindow, modifyActivation, Roster.get?_modify, Function.comp_def]
  cases q with
  | stalled => exact ⟨_, _, h, rfl, rfl, hclose w⟩
  | awaiting j next last =>
    have hj : w.aborted j = false := by simpa [Progress.waits] using hq
    simp only [advance, hj] at h
    refine ⟨_, _, h, rfl, rfl, (hclose _).trans ?_⟩
    simp only [modifyActivation, Roster.get?_modify]
    split <;> simp [Function.comp_def]
  | ready f =>
    cases f with
    | yield next last => exact ⟨_, _, h, rfl, rfl, hclose w⟩
    | never last => exact ⟨_, _, h, rfl, rfl, hclose w⟩
    | resolved | resolvedWith | act | awaitAbort => cases hq

/-- **A first poll that leaves the future unfinished gives it away.** -/
theorem hands_pending {q : Progress σ} (hm : m.spawner ≠ some .eager) (hq : q.waits w = true)
    (h : w.advance m .entry k stack q = some s) :
    Run.Hands m ⟨w, .future .entry k q, stack⟩ s := by
  obtain ⟨w₁, q', hspawn, hj, hsize, hstate⟩ := advance_waits hq h
  obtain ⟨a₁, ha₁, -⟩ := Option.bind_eq_some_iff.1 hspawn
  rw [ha₁, Option.map_some, eq_comm, Option.map_eq_some_iff] at hstate
  obtain ⟨a, ha, hstate⟩ := hstate
  have hbooked : (m.givesAway k a₁.state).booked = true := Machine.booked_givesAway _
  cases givenAway_spawn hm ha₁ hspawn with
  | gone tasks ready more _ hmore =>
    refine .pending hq ha hsize ?_ (fun _ => id) rfl
    rw [← hj, hstate]
    rcases hmore with rfl | rfl <;> exact List.filter_cons_of_pos hbooked
  | drops c =>
    refine .pending hq ha hsize ?_ (fun j hb => ?_) rfl
    · rw [← hj, hstate]
      exact List.filter_cons_of_pos hbooked
    · exact (List.mem_cons.1 hb).resolve_left nofun

end World

theorem Run.hands_step (hm : m.spawner ≠ some .eager) (h : r.step m = some s) : r.Hands m s := by
  let M : Margin σ :=
    .still (fun k => .body k ∈ r.stack ∨ k = r.world.activations.size) r.pollEvents
  -- whatever goes in step with itself within this margin is still
  have still (hb : r.handsBack? = none) (hp : r.leavesPending? = none)
      (hrel : Option.Rel M.Runs (r.step m) (r.step m)) : r.Hands m s := by
    rw [h] at hrel
    cases hrel with
    | some hrel => exact .still ⟨hrel.worlds.journal.2, hrel.stack.2, hb, hp⟩
  have hw : M.Worlds r.world r.world := .refl ⟨rfl, rfl⟩
  have hs {stack : List (Frame σ)} (hsub : stack ⊆ r.stack) : M.frames stack stack :=
    ⟨rfl, fun k hk => .inl (hsub hk)⟩
  obtain ⟨w, control, stack⟩ := r
  cases control with
  | code t c => exact still rfl rfl (hw.perform (.refl m) t c (hs fun _ => id))
  | future poller k q =>
    by_cases hq : poller = .entry ∧ q.waits w = true
    · obtain ⟨rfl, hq⟩ := hq
      exact World.hands_pending hm hq h
    · refine still rfl ?_ (hw.advance q (fun hp hw => absurd ⟨hp, hw⟩ hq)
        (fun next k' hk => nomatch hk) (hs fun _ => id))
      cases poller with
      | entry => exact if_neg fun hw => hq ⟨rfl, hw⟩
      | spawner | executor => rfl
  | ended e =>
    cases stack with
    | nil => cases h
    | cons f stack =>
      have hrest : M.frames stack stack := hs (List.subset_cons_self f stack)
      by_cases hb : ∃ k f', f = .body k ∧ e = .ok (.pending f')
      · obtain ⟨k, f', rfl, rfl⟩ := hb
        obtain rfl := Option.some.inj h
        exact .back
      · refine still ?_ rfl (hw.proceed e (fun i tr p _ => ?_)
          (fun k f' hk he => absurd ⟨k, f', hk, he⟩ hb)
          (fun k _ => Margin.Worlds.forgets rfl rfl) hrest)
        · unfold handsBack?
          split
          · next f' j _ he hf =>
            exact absurd ⟨j, f', (List.cons.inj hf).1, Control.ended.inj he⟩ hb
          · rfl
        · exact hw.enter i (fun _ _ => rfl) (fun k hk => .inr (Frame.body.inj hk).symm) tr p
            (fun _ _ => rfl) hrest

/-! ### Numbers -/

theorem Move.started_le {l : Life σ} (hm : Move m r l) : r.life.started ≤ l.started := by
  cases hm <;> first | exact Nat.le_refl _ | exact Nat.le_succ _

/-- An entry that is under way has been so before, or has just been started. -/
theorem Move.entry_mem {l : Life σ} (hm : Move m r l) (hk : .entry k ∈ l.stages) :
    .entry k ∈ r.life.stages ∨ k = r.life.started := by
  have skip {f : Stage σ} {rest : List (Stage σ)} (hf : f.body? = none)
      (h : .entry k ∈ f :: rest) : .entry k ∈ rest := by
    refine (List.mem_cons.1 h).resolve_left ?_
    rintro rfl
    cases hf
  cases hm with
  | quiet | write | observe => exact .inl hk
  | place => exact .inl (skip rfl hk)
  | depart => exact .inl (skip (Departure.body?_stage _ _) hk)
  | exit => exact .inl (skip (Departure.body?_stage _ _) (skip rfl hk))
  | change hs => exact .inl (hs ▸ List.mem_cons_of_mem _ (skip rfl hk))
  | enter hs | displace hs =>
    rcases List.mem_cons.1 hk with h | h
    · exact .inr (Stage.entry.inj h)
    · exact .inl (hs ▸ List.mem_cons_of_mem _ h)
  | exited hs | left hs | cleanup hs | enterBare hs | close hs | forgo hs | keep hs | atOnce hs =>
    exact .inl (hs ▸ List.mem_cons_of_mem _ hk)

/-- The books of the futures. -/
structure Run.Handled (m : Machine σ) (past : List (Run σ)) (r : Run σ) : Prop where
  /-- A future is polled when it is handed back, -/
  polled : r.polled = past.filterMap handsBack?
  /-- and if that leaves it unfinished, it is given to the spawner, or dropped if there is none. -/
  spawned : r.spawned = if m.spawner = none then [] else past.filterMap leavesPending?
  unspawned : r.unspawned = if m.spawner = none then past.filterMap leavesPending? else []
  /-- An activation hands back a future once, since its effect body is over then. -/
  back : (past.filterMap handsBack?).Nodup
  done : ∀ k ∈ past.filterMap handsBack?, k < r.world.activations.size ∧ .body k ∉ r.stack
  /-- The first poll of a future is over once, and the entry with it. -/
  pending : (past.filterMap leavesPending?).Nodup
  gone : ∀ k ∈ past.filterMap leavesPending?,
    k < r.world.activations.size ∧ .entry k ∉ r.life.stages

namespace Run.Handled

theorem start {w : World σ} {c : Control σ} (hw : w.journal = []) : Handled m [] ⟨w, c, []⟩ := by
  have hp : pollEvents ⟨w, c, []⟩ = [] := by rw [pollEvents, hw]; rfl
  refine ⟨?_, ?_, ?_, .nil, nofun, .nil, nofun⟩
  · rw [Run.polled, hp]; rfl
  · rw [Run.spawned, hp]; simp
  · rw [Run.unspawned, hp]; simp

/-- A step that has nothing to do with futures leaves the books as they are. -/
theorem still (h : r.Handled m past) (hs : r.Still s) (hmove : Move m r s.life) :
    s.Handled m (r :: past) := by
  have hsize : r.world.activations.size ≤ s.world.activations.size := hmove.started_le
  constructor <;> simp only [List.filterMap_cons_none hs.back, List.filterMap_cons_none hs.pending]
  case polled => rw [Run.polled, hs.pollEvents]; exact h.polled
  case spawned => rw [Run.spawned, hs.pollEvents]; exact h.spawned
  case unspawned => rw [Run.unspawned, hs.pollEvents]; exact h.unspawned
  case back => exact h.back
  case pending => exact h.pending
  case done =>
    intro k hk
    obtain ⟨hlt, hnot⟩ := h.done k hk
    exact ⟨Nat.lt_of_lt_of_le hlt hsize, fun hm => (hs.bodies k hm).elim hnot (Nat.ne_of_lt hlt)⟩
  case gone =>
    intro k hk
    obtain ⟨hlt, hnot⟩ := h.gone k hk
    exact ⟨Nat.lt_of_lt_of_le hlt hsize,
      fun hm => (hmove.entry_mem hm).elim hnot (Nat.ne_of_lt hlt)⟩

variable {w : World σ} {stack : List (Frame σ)}

/-- When an effect body hands back a future, the future is polled; the body is over. -/
theorem handed {f : Future σ} (h : Handled m past ⟨w, .ended (.ok (.pending f)), .body k :: stack⟩)
    (hl : (Run.life ⟨w, .ended (.ok (.pending f)), .body k :: stack⟩).Sound) :
    Handled m (⟨w, .ended (.ok (.pending f)), .body k :: stack⟩ :: past)
      ⟨w.record (.polled k), .future .entry k (.ready f), stack⟩ := by
  have hlt : k < w.activations.size := hl.entries (.entry k) List.mem_cons_self k rfl
  have hnot : .body k ∉ stack := fun hk =>
    (List.nodup_cons.1 hl.nodup).1
      (List.mem_filterMap.2 ⟨.entry k, List.mem_filterMap.2 ⟨_, hk, rfl⟩, rfl⟩)
  obtain ⟨hpolled, hspawned, hunspawned, hback, hover, hpending, hgone⟩ := h
  refine ⟨congrArg (k :: ·) hpolled, hspawned, hunspawned, ?_, ?_, hpending, hgone⟩
  · exact List.nodup_cons.2 ⟨fun hk => (hover k hk).2 List.mem_cons_self, hback⟩
  · intro j hj
    rcases List.mem_cons.1 hj with rfl | hj
    · exact ⟨hlt, hnot⟩
    · exact ⟨(hover j hj).1, fun hm => (hover j hj).2 (List.mem_cons_of_mem _ hm)⟩

/-- When its first poll leaves a future unfinished, it is given away; the entry is over. -/
theorem left {q : Progress σ} {a : Activation σ} (h : Handled m past ⟨w, .future .entry k q, stack⟩)
    (hl : (Run.life ⟨w, .future .entry k q, stack⟩).Sound) (hq : q.waits w = true)
    (hsize : s.world.activations.size = w.activations.size)
    (hj : s.pollEvents = m.givesAway k a.state :: w.journal.filter Event.booked)
    (hb : ∀ j, .body j ∈ s.stack → .body j ∈ stack) (hstages : s.life.stages = stagesOf stack) :
    s.Handled m (⟨w, .future .entry k q, stack⟩ :: past) := by
  have hleaves : leavesPending? ⟨w, .future .entry k q, stack⟩ = some k := if_pos hq
  have hlt : k < w.activations.size := hl.entries (.entry k) List.mem_cons_self k rfl
  have hnot : .entry k ∉ stagesOf stack := fun hk =>
    (List.nodup_cons.1 hl.nodup).1 (List.mem_filterMap.2 ⟨.entry k, hk, rfl⟩)
  obtain ⟨hpolled, hspawned, hunspawned, hback, hover, hpending, hgone⟩ := h
  unfold Run.polled pollEvents at hpolled
  unfold Run.spawned pollEvents at hspawned
  unfold Run.unspawned pollEvents at hunspawned
  constructor <;> simp only [List.filterMap_cons_none (show handsBack?
    ⟨w, .future .entry k q, stack⟩ = none from rfl), List.filterMap_cons_some hleaves]
  case polled =>
    rw [Run.polled, hj, Machine.givesAway]
    cases m.spawner <;> exact hpolled
  case spawned =>
    rw [Run.spawned, hj, Machine.givesAway]
    cases hsp : m.spawner <;> simp_all
  case unspawned =>
    rw [Run.unspawned, hj, Machine.givesAway]
    cases hsp : m.spawner <;> simp_all
  case back => exact hback
  case done => exact fun j hj => ⟨hsize ▸ (hover j hj).1, fun hm => (hover j hj).2 (hb j hm)⟩
  case pending => exact List.nodup_cons.2 ⟨fun hk => (hgone k hk).2 List.mem_cons_self, hpending⟩
  case gone =>
    intro j hj
    rcases List.mem_cons.1 hj with rfl | hj
    · exact ⟨hsize ▸ hlt, hstages ▸ hnot⟩
    · refine ⟨hsize ▸ (hgone j hj).1, fun hm => (hgone j hj).2 ?_⟩
      exact List.mem_cons_of_mem _ (hstages ▸ hm)

/-- Where the executor is not run, a deed begins with the books as they are. -/
theorem next {d : Deed σ} (h : r.Handled m past) (hd : d.polls = false)
    (hstart : d.start? r.world = some s) : s.Handled m past := by
  have begun {t : Target σ} {c : Code σ} : Handled m past ⟨r.world, .code t c, []⟩ :=
    ⟨h.polled, h.spawned, h.unspawned, h.back, fun j hj => ⟨(h.done j hj).1, List.not_mem_nil⟩,
      h.pending, fun j hj => ⟨(h.gone j hj).1, List.not_mem_nil⟩⟩
  cases d with
  | call c =>
    obtain rfl := Option.some.inj hstart
    exact begun
  | handle k c =>
    obtain ⟨-, hstart⟩ := Option.ite_none_right_eq_some.1 hstart
    obtain rfl := Option.some.inj hstart
    exact begun
  | tick | poll t => cases hd

end Run.Handled

/-- **As long as nobody runs the executor, every future that is handed back is polled once, and if
that leaves it unfinished it is given to the spawner once.** -/
theorem Course.handled (h : Course m ds past r) (hm : m.spawner ≠ some .eager)
    (hd : ∀ d ∈ ds, d.polls = false) : r.Handled m past := by
  induction h with
  | start c => exact .start rfl
  | @step ds past r s h hs ih =>
    have ih := ih hd
    have hmove := Run.move_step hs
    cases Run.hands_step hm hs with
    | still hstill => exact ih.still hstill hmove
    | back => exact ih.handed h.reach.sound
    | pending hq hk hsize hj hb hl => exact ih.left h.reach.sound hq hsize hj hb hl
  | next h hr d hd' ih =>
    have ih := ih fun d' hd'' => hd d' (List.mem_append_left _ hd'')
    exact ih.next (hd d (List.mem_append_right _ List.mem_cons_self)) hd'

end Statechart
