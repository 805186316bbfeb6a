import Statechart.Proofs.Deferral.Basic

/-!
A deferred script is as good as one that is performed at once. While a script is performed the two
runs go in step, one operation after another; around it, the run with the future takes some steps
more, which nobody notices.
-/

namespace Statechart

variable {σ : Signature}

namespace Deferral

variable {m : Machine σ} {D : Deferral m} {warned starts doing : List ActivationId}
  {r r' r₁ : Run σ} {w w' : World σ} {stack stack' : List (Frame σ)} {k : ActivationId}

/-! ### One step -/

/-- **What a step comes to**, and so many steps on the other side. -/
inductive Pass (D : Deferral m) (warned starts doing : List ActivationId) (r r' : Run σ) : Prop
  | halt (n : Nat) (h : r.step m = none) (h' : (r'.steps D.machine n).step D.machine = none)
      (hs : D.Stand warned starts doing r (r'.steps D.machine n))
  | quiet (n : Nat) (r₁ : Run σ) (h : r.step m = some r₁)
      (hs : D.Stand warned starts doing r₁ (r'.steps D.machine (n + 1)))
  /-- An activation is started, and begins its script. -/
  | start (n : Nat) (r₁ : Run σ) (t : Tenure σ) (h : r.step m = some r₁)
      (hs : D.Stand warned (r.life.started :: starts) (r.life.started :: doing) r₁
        (r'.steps D.machine (n + 1)))
      (ht : r₁.life.activations r.life.started = some t) (hst : t.state = D.state)
  /-- The innermost script is over, and with it the entry. -/
  | finish (n : Nat) (k : ActivationId) (rest : List ActivationId) (r₁ : Run σ)
      (hd : doing = k :: rest) (h : r.step m = some r₁)
      (hs : D.Stand (if D.waits then k :: warned else warned) starts rest r₁
        (r'.steps D.machine (n + 1)))
      (hl : r.life.stages = .entry k :: r₁.life.stages)

/-- What goes in step on either side comes to the same. -/
theorem Stand.pass_of_rel (hs : D.Stand warned starts doing r r')
    (h : Option.Rel (D.Stand warned starts doing) (r.step m) (r'.step D.machine)) :
    D.Pass warned starts doing r r' := by
  obtain ⟨hn, hn'⟩ | ⟨r₁, r₁', hr, hr', hrel⟩ := rel_cases h
  · exact .halt 0 hn hn' hs
  · refine .quiet 0 r₁ hr ?_
    rwa [Run.steps_succ hr']

/-- The other side may take some steps before. -/
theorem Pass.later {a : Nat} (h : D.Pass warned starts doing r (r'.steps D.machine a)) :
    D.Pass warned starts doing r r' := by
  cases h with
  | halt n h h' hs =>
    rw [← Run.steps_add] at h' hs
    exact .halt _ h h' hs
  | quiet n r₁ h hs =>
    rw [← Run.steps_add] at hs
    exact .quiet (a + n) r₁ h hs
  | start n r₁ t h hs ht hst =>
    rw [← Run.steps_add] at hs
    exact .start (a + n) r₁ t h hs ht hst
  | finish n k rest r₁ hd h hs hl =>
    rw [← Run.steps_add] at hs
    exact .finish (a + n) k rest r₁ hd h hs hl

/-! ### Scripts -/

theorem worlds_congr {doing' : List ActivationId} (h : (D.margin warned starts doing).Worlds w w') :
    (D.margin warned starts doing').Worlds w w' := by
  obtain ⟨ht, hj⟩ := h
  exact .intro ht hj

section Script

variable {tr : Trigger σ.Action} {pl : Option σ.Payload} {p c : Code σ}
  {next : Except MachineError Unit → Future σ}

theorem setContext_stand (hw : (D.margin warned starts doing).Worlds w w')
    (hp : Code.Performs D.last p c next) (hs : D.Frames doing stack stack') (x : σ.Context) :
    Option.Rel (D.Stand warned starts (k :: doing))
      (w.setContext (.environment k tr pl) x p (.body k :: stack))
      (w'.setContext (.handle k) x c (.acting .entry k next :: stack')) := by
  have hscript : D.Frames (k :: doing)
      (.resume (.environment k tr pl) (fun _ => p) :: .body k :: stack)
      (.resume (.handle k) (fun _ => c) :: .acting .entry k next :: stack') :=
    .script (fun _ => hp) hs
  obtain ⟨ht, hj⟩ := hw
  refine Margin.rel_bind_same _ fun a _ => ?_
  split
  · exact .some (.script (.intro ht (Margin.note hj rfl)) hp hs)
  · split
    · exact .some (.script (.intro ht (Margin.note hj rfl)) hp hs)
    · refine Margin.rel_bind_same _ fun inst _ => .some (.same ⟨?_, rfl, hscript.same _⟩)
      exact worlds_congr (.intro ht (Margin.note hj rfl))

theorem dispatch_stand {p c : Reply → Code σ} (hw : (D.margin warned starts doing).Worlds w w')
    (hp : ∀ reply, Code.Performs D.last (p reply) (c reply) next)
    (hs : D.Frames doing stack stack') (a : σ.Action) (q : Option σ.Payload) :
    Option.Rel (D.Stand warned starts (k :: doing))
      (w.forward m (.environment k tr pl) a q p (.body k :: stack))
      (w'.forward D.machine (.handle k) a q c (.acting .entry k next :: stack')) := by
  have hscript : D.Frames (k :: doing) (.resume (.environment k tr pl) p :: .body k :: stack)
      (.resume (.handle k) c :: .acting .entry k next :: stack') := .script hp hs
  have hwide : (D.margin warned starts (k :: doing)).Worlds w w' := worlds_congr hw
  simp only [World.forward, Target.activation?, hw.activations_eq]
  refine Margin.rel_bind_same _ fun b _ => ?_
  have halive : alive w' (.acting .entry k next :: stack') b.owner =
      alive w (.body k :: stack) b.owner := hw.alive_eq hs b.owner
  rw [halive]
  split
  · exact .some (.script (hw.record rfl) (hp _) hs)
  · split
    · exact .some (.script (hw.record rfl) (hp _) hs)
    · exact rel_mono (hwide.dispatch D.kin b.owner _ a q (hscript.same _)) fun _ _ => .same

/-- **A script is performed in step**, whoever performs it. -/
theorem pass_script (hw : (D.margin warned starts doing).Worlds w w')
    (hp : Code.Performs D.last p c next) (hs : D.Frames doing stack stack') :
    D.Pass warned starts (k :: doing) ⟨w, .code (.environment k tr pl) p, .body k :: stack⟩
      ⟨w', .code (.handle k) c, .acting .entry k next :: stack'⟩ := by
  have hstand : D.Stand warned starts (k :: doing)
      ⟨w, .code (.environment k tr pl) p, .body k :: stack⟩
      ⟨w', .code (.handle k) c, .acting .entry k next :: stack'⟩ := .script hw hp hs
  induction hp with
  | done h => exact hstand.pass_of_rel (.some (.done hw h hs))
  | @turn p c next next' h hp ih =>
    -- the piece is over, and the future goes on with the next one
    refine Pass.later (a := 3) ?_
    have hsteps : Run.steps D.machine 3
        ⟨w', .code (.handle k) (.finish .done), .acting .entry k next :: stack'⟩ =
        ⟨w', .code (.handle k) c, .acting .entry k next' :: stack'⟩ := by
      rw [Run.steps_succ rfl, Run.steps_succ rfl]
      change Run.steps D.machine 1 ⟨w', .future .entry k (.ready (next (.ok ()))), stack'⟩ = _
      rw [h]
      rfl
    rw [hsteps]
    exact ih (.script hw hp hs)
  | emit n hp => exact hstand.pass_of_rel (.some (.script (hw.record rfl) hp hs))
  | @look next p c hp =>
    refine hstand.pass_of_rel (.some ?_)
    have hview : w'.view (.handle k) = (w.view (.environment k tr pl)).map View.outside := by
      rw [← World.view_handle]
      obtain ⟨-, -⟩ := hw
      rfl
    change D.Stand _ _ _ _ ⟨w', .code (.handle k) (c (w'.view (.handle k))), _⟩
    rw [hview]
    exact .script hw (hp _) hs
  | setContext x hp => exact hstand.pass_of_rel (setContext_stand hw hp hs x)
  | dispatch a q hp => exact hstand.pass_of_rel (dispatch_stand hw hp hs a q)
  | onAbort o hp =>
    refine hstand.pass_of_rel (.some ?_)
    simp only [World.onAbort, Target.activation?, hw.aborted_eq]
    obtain ⟨ht, hj⟩ := hw
    split
    · exact .script (.intro ht (Margin.note hj rfl)) hp hs
    · exact .script (.intro ht hj) hp hs
  | clearAbort hp =>
    refine hstand.pass_of_rel (.some ?_)
    obtain ⟨ht, hj⟩ := hw
    exact .script (.intro ht hj) hp hs
  | keep name hp =>
    refine hstand.pass_of_rel (.some ?_)
    obtain ⟨ht, hj⟩ := hw
    exact .script (.intro ht hj) hp hs

/-- When its script is over, the entry closes the window, and the future is given away if it waits
for ever. -/
theorem pass_done {a : Activation σ} (hw : (D.margin warned starts doing).Worlds w w')
    (hn : next (.ok ()) = D.last) (hs : D.Frames doing stack stack')
    (hk : w.activations.get? k = some a) (ha : a.state = D.state) :
    D.Pass warned starts (k :: doing) ⟨w, .ended .done, .body k :: stack⟩
      ⟨w', .ended .done, .acting .entry k next :: stack'⟩ := by
  refine .finish 1 k doing ⟨w.closeWindow k, .ended .done, stack⟩ rfl rfl ?_ rfl
  have hk' : w'.activations.get? k = some a := by rw [hw.activations_eq, hk]
  rw [Run.steps_succ rfl]
  change D.Stand _ _ _ _
    (Run.steps D.machine 1 ⟨w', .future .entry k (.ready (next (.ok ()))), stack'⟩)
  rw [hn, last]
  cases hwaits : D.waits with
  | false =>
    have hstep : Run.step D.machine ⟨w', .future .entry k (.ready .resolved), stack'⟩ =
        some ⟨w'.closeWindow k, .ended .done, stack'⟩ := by
      simp [Run.step, World.advance, World.finish, hk']
    simp only [Bool.false_eq_true, if_false, Run.steps_succ hstep]
    exact .same ⟨hw.closeWindow k, rfl, hs⟩
  | true =>
    have hstep : Run.step D.machine ⟨w', .future .entry k (.ready (.never none)), stack'⟩ =
        some ⟨(w'.closeWindow k).record (.noSpawner k D.state), .ended .done, stack'⟩ := by
      have hm : D.machine.spawner = none := D.unattended hwaits
      simp [Run.step, World.advance, World.suspend, World.spawn, World.letGo, World.forget,
        World.closeWindow,
        World.modifyActivation, Roster.get?_modify, hk', hm, ha]
    simp only [if_true, Run.steps_succ hstep]
    obtain ⟨ht, hj⟩ := hw
    exact .same ⟨.intro ht ⟨hj.1.noSpawner k, hj.2⟩, rfl, hs⟩

/-! ### Entries -/

/-- The entry into the state starts an activation on either side, and its future is polled. -/
theorem pass_enter {i : InstanceId} {inst : Instance σ} {e : Ending σ}
    (hw : (D.margin warned starts doing).Worlds w w') (hi : w.instances.get? i = some inst)
    (hst : inst.state.value = D.state) (hs : D.Frames doing stack stack') :
    D.Pass warned starts doing ⟨w, .ended e, .entering i tr pl :: stack⟩
      ⟨w', .ended e, .entering i tr pl :: stack'⟩ := by
  have hi' : w'.instances.get? i = some inst := by rw [hw.instances_eq, hi]
  have hstep : Run.step m ⟨w, .ended e, .entering i tr pl :: stack⟩ = some _ :=
    World.enter_effect hi (hst ▸ D.effect) stack
  have hstep' : Run.step D.machine ⟨w', .ended e, .entering i tr pl :: stack'⟩ = some _ :=
    World.enter_effect hi' (hst ▸ D.effect?_machine) stack'
  have hstart : Event.startIn? D.state (.started i w.activations.size inst.state.value tr pl) =
      some w.activations.size := if_pos hst
  obtain ⟨ht, hj, hstarts⟩ := hw
  obtain ⟨s, x, act⟩ := inst
  refine .start 3 _ ⟨i, s.value, false, true, none, none⟩ hstep ?_ ?_ hst
  · rw [Run.steps_succ hstep']
    refine .script ?_ D.performs hs
    -- the future is polled as soon as the body has handed it back
    cases act with
    | none =>
      refine .intro ht ⟨(hj.same _).polled _, ?_⟩
      exact (List.filterMap_cons_some hstart).trans (congrArg _ hstarts)
    | some j =>
      refine .intro ht ⟨((hj.same _).same _).polled _, ?_⟩
      exact (List.filterMap_cons_some hstart).trans (congrArg _ hstarts)
  · rw [Run.life, World.life_begin]
    cases act <;> exact if_pos rfl

end Script

/-- **Wherever the two runs stand beside each other**, a step of the one is followed by the
other. -/
theorem Stand.pass (h : D.Stand warned starts doing r r')
    (hd : ∀ k ∈ doing, ∃ a, r.world.activations.get? k = some a ∧ a.state = D.state) :
    D.Pass warned starts doing r r' := by
  have hstand := h
  cases h with
  | script hw hp hs => exact pass_script hw hp hs
  | @done _ _ _ k _ _ _ hw hn hs =>
    obtain ⟨a, hk, ha⟩ := hd k List.mem_cons_self
    exact pass_done hw hn hs hk ha
  | same h =>
    obtain ⟨w, control, stack⟩ := r
    obtain ⟨w', control', stack'⟩ := r'
    obtain ⟨hw, hc, hs⟩ := h
    obtain rfl : control = control' := hc
    cases control with
    | code t c =>
      exact hstand.pass_of_rel (rel_mono (hw.perform D.kin t c hs) fun _ _ => .same)
    | future poller k q =>
      have hpolling (e : Event σ) (he : e.polling = true) :
          (D.margin warned starts doing).admits e := by
        cases e <;> first | rfl | cases he
      refine hstand.pass_of_rel (rel_mono ?_ fun _ _ => .same)
      refine hw.advance q (fun _ _ _ _ q' hw => ?_) (fun _ => trivial) hs
      exact hw.spawn rfl hpolling k q' q.last? hs
    | ended e =>
      cases hs with
      | nil => exact .halt 0 rfl rfl hstand
      | script hp hs => exact hstand.pass_of_rel (.some (.script (worlds_congr hw) (hp _) hs))
      | @same _ stack stack' f hs =>
        by_cases hf : ∃ i tr pl inst, f = .entering i tr pl ∧ w.instances.get? i = some inst ∧
            inst.state.value = D.state
        · obtain ⟨i, tr, pl, inst, rfl, hi, hst⟩ := hf
          exact pass_enter hw hi hst hs
        · refine hstand.pass_of_rel (rel_mono ?_ fun _ _ => .same)
          refine hw.proceed e (fun i tr pl hentering => ?_) (fun _ _ _ _ => rfl)
            (fun k _ => Margin.Worlds.forgets rfl rfl) hs
          have hne (inst : Instance σ) (hi : w.instances.get? i = some inst) :
              inst.state.value ≠ D.state := fun hst => hf ⟨i, tr, pl, inst, hentering, hi, hst⟩
          exact hw.enter i (fun inst hi => D.effect?_of_ne (hne inst hi)) trivial tr pl
            (fun inst hi => if_neg (hne inst hi)) hs

end Deferral

end Statechart
