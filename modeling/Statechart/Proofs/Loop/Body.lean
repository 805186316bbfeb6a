import Statechart.Proofs.Loop.Transition

/-!
One body, compared with its run on its own. Until the body ends or is left by a transition, its
activation is live and its window is open, so that every operation is carried out.
-/

namespace Statechart

variable {σ : Signature} {m : Machine σ} {w w' : World σ} {i : InstanceId} {k : ActivationId}
  {s : σ.State} {x : σ.Context} {tr : Trigger σ.Action} {stack : List (Frame σ)}

/-- Instance `i` has no observers, and its live activation `k` may write the context. -/
structure World.Live (w : World σ) (i : InstanceId) (k : ActivationId) (s : σ.State)
    (x : σ.Context) : Prop where
  inst : w.instances.get? i = some ⟨⟨s, []⟩, ⟨x, []⟩, some k⟩
  act : ∃ a, w.activations.get? k = some a ∧ a.owner = i ∧ a.state = s ∧
    a.signal.aborted = false ∧ a.windowOpen = true

theorem World.Live.modify (h : w.Live i k s x) {f : Activation σ → Activation σ}
    (hf : ∀ a, (f a).owner = a.owner ∧ (f a).state = a.state ∧
      (f a).signal.aborted = a.signal.aborted ∧ (f a).windowOpen = a.windowOpen) :
    (w.modifyActivation k f).Live i k s x := by
  obtain ⟨a, hk, ho, hst, hab, hw⟩ := h.act
  obtain ⟨fo, fst, fab, fw⟩ := hf a
  refine ⟨h.inst, f a, ?_, fo.trans ho, fst.trans hst, fab.trans hab, fw.trans hw⟩
  rw [modifyActivation, Roster.get?_modify, if_pos rfl, hk]
  rfl

theorem alive_above {base : List (Frame σ)} (h : alive w base i = true)
    (hs : w'.slots = w.slots) (frames : List (Frame σ)) :
    alive w' (frames ++ base) i = true := by
  simp only [alive, hs, List.any_append, Bool.or_eq_true] at h ⊢
  exact h.imp id .inr

/-- A write of the live activation is accepted, and there is no observer to be told. -/
theorem World.Live.write_leads (hw : w.Live i k s x) (tr : Trigger σ.Action)
    (p : Option σ.Payload) (y : σ.Context) (next : Code σ) (stack : List (Frame σ)) :
    ∃ w', Run.Leads m ⟨w, .code (.environment k tr p) (.setContext y next), stack⟩
        ⟨w', .code (.environment k tr p) next, stack⟩ ∧ w.Aside i w' ∧
      w'.visits i = w.visits i ∧ w'.Live i k s y := by
  obtain ⟨b, hk, rfl, hst, hab, hwin⟩ := hw.act
  have hstep : Run.step m ⟨w, .code (.environment k tr p) (.setContext y next), stack⟩ = _ :=
    World.setContext_open (t := .environment k tr p) rfl hk hab hwin hw.inst y next
  refine ⟨_, .step hstep (.step rfl (.step rfl (.refl _))),
    (w.aside_record b.owner (.contextSet b.owner k y)).trans (World.aside_modifyInstance _ _ _), ?_,
    ?_, b, hk, rfl, hst, hab, hwin⟩
  · exact (w.visits_record (.contextSet b.owner k y)).trans (List.append_nil _)
  rw [World.modifyInstance, Roster.get?_modify, if_pos rfl]
  exact congrArg _ hw.inst

/-- The live activation sees its instance as it stands. -/
theorem World.Live.view_eq (hw : w.Live i k s x) (tr : Trigger σ.Action) (p : Option σ.Payload) :
    w.view (.environment k tr p) = some ⟨s, x, false, true, some (tr, p)⟩ := by
  obtain ⟨b, hk, rfl, rfl, hab, hwin⟩ := hw.act
  rw [World.view_eq rfl hk hw.inst, hab, hwin]
  rfl

/-- An observer of the live activation is put into its slot. -/
theorem World.Live.observe_leads (hw : w.Live i k s x) (tr : Trigger σ.Action)
    (p : Option σ.Payload) {o : Code σ} (ho : o.Confined) (next : Code σ)
    (stack : List (Frame σ)) :
    ∃ w', Run.Leads m ⟨w, .code (.environment k tr p) (.onAbort o next), stack⟩
        ⟨w', .code (.environment k tr p) next, stack⟩ ∧ w.Unmoved w' ∧ w'.Live i k s x := by
  obtain ⟨b, hk, -, -, hab, -⟩ := hw.act
  refine ⟨_, .step ?_ (.refl _), w.unmoved_modifyActivation k
    (f := fun a => { a with signal := a.signal.setObserver o })
    (fun a ha => (a.signal.aborted_setObserver o).trans ha) fun a _ h => ⟨fun c hc => ?_, h.2⟩,
    hw.modify (f := fun a => { a with signal := a.signal.setObserver o })
      fun a => ⟨rfl, rfl, a.signal.aborted_setObserver o, rfl⟩⟩
  · have hna : w.aborted k = false := by simp [World.aborted, hk, hab]
    simp [Run.step, World.perform, World.onAbort, Target.activation?, hna, World.goOn]
  · simp only [Activation.observer_tenure, Signal.setObserver] at hc
    split at hc
    · exact h.1 c hc
    · obtain rfl := Option.some.inj hc
      exact ho

/-- The run of the body of `k`, which is in the world `w`, comes to what its code comes to on its
own: to its end, or to the entry into the target, with the rest of the body below. -/
def Run.Follows (m : Machine σ) (r : Run σ) (w : World σ) (i : InstanceId) (k : ActivationId)
    (s : σ.State) (tr : Trigger σ.Action) (stack : List (Frame σ)) : Pause σ → Prop
  | .ends y => ∃ w' e, r.Leads m ⟨w', .ended e, stack⟩ ∧ w.Aside i w' ∧
      w'.visits i = w.visits i ∧ w'.Live i k s y ∧ Ending.Own e
  | .moves y a t q => ∃ w' e p next, r.Leads m ⟨w', .ended e, .entering i (.action a) q ::
        .pinning i :: .resume (.environment k tr p) next :: stack⟩ ∧ w.Aside i w' ∧
      w'.visits i = w.visits i ∧ w'.instances.get? i = some ⟨⟨t, []⟩, ⟨y, []⟩, none⟩ ∧
      w'.aborted k = true ∧ ∀ r, (next r).Own

theorem Run.Follows.before {r r' : Run σ} {pause : Pause σ} (hl : r.Leads m r')
    (ha : w.Aside i w') (hv : w'.visits i = w.visits i)
    (h : r'.Follows m w' i k s tr stack pause) : r.Follows m w i k s tr stack pause := by
  cases pause with
  | ends y =>
    obtain ⟨w₁, e, hl₁, ha₁, hv₁, hlive, he⟩ := h
    exact ⟨w₁, e, hl.trans hl₁, ha.trans ha₁, hv₁.trans hv, hlive, he⟩
  | moves y a t q =>
    obtain ⟨w₁, e, p, next, hl₁, ha₁, hv₁, hi, hab, hn⟩ := h
    exact ⟨w₁, e, p, next, hl.trans hl₁, ha.trans ha₁, hv₁.trans hv, hi, hab, hn⟩

/-- **A body follows its code.** -/
theorem Code.Own.follows {c : Code σ} (hc : c.Own) {p : Option σ.Payload} (hw : w.Live i k s x)
    (hs : w.Confined) (ha : alive w stack i = true) :
    Run.Follows m ⟨w, .code (.environment k tr p) c, stack⟩ w i k s tr stack
      (c.alone m s tr x p) := by
  induction hc generalizing w x p with
  | done =>
    exact ⟨w, .done, .step rfl (.refl _), (World.Unmoved.refl w).aside i, rfl, hw,
      Ending.own_done⟩
  | cleanup h _ =>
    refine ⟨w, .ok (.cleanup _), .step rfl (.refl _), (World.Unmoved.refl w).aside i, rfl, hw, ?_⟩
    rintro _ ⟨⟩
    exact .cleanup h
  | raise e =>
    exact ⟨w, .error e, .step rfl (.refl _), (World.Unmoved.refl w).aside i, rfl, hw,
      Ending.own_error e⟩
  | emit n _ ih =>
    have hu := w.unmoved_record (e := .note n) rfl
    exact (ih (w := w.record (.note n)) ⟨hw.inst, hw.act⟩ (hu.confined hs) ha).before
      (.step rfl (.refl _)) (hu.aside i) (hu.visits i)
  | @look next _ ih =>
    refine (ih (some ⟨s, x, false, true, some (tr, p)⟩) hw hs ha).before (.step ?_ (.refl _))
      ((World.Unmoved.refl w).aside i) rfl
    rw [← hw.view_eq tr p]
    rfl
  | setContext y _ ih =>
    obtain ⟨w₁, hl, hside, hv, hlive⟩ := hw.write_leads (m := m) tr p y _ stack
    exact (ih hlive (hside.confined hs) (alive_above ha hside.slots [])).before hl hside hv
  | @dispatch a q next hn ih =>
    obtain ⟨b, hk, ho, hst, hab, hwin⟩ := hw.act
    have hstep := World.forward_live (m := m) (t := .environment k tr p) rfl hk hab (ho ▸ ha) a q
      next
    rw [ho] at hstep
    rw [Code.alone]
    cases hout : m.outcome s a with
    | inr r =>
      obtain ⟨w₁, e, hd, rfl, hu, hact⟩ := World.dispatch_refused hw.inst hout (.handle k) q
        (.pinning i :: .resume (.environment k tr p) next :: stack)
      have hlive : w₁.Live i k s x :=
        ⟨by rw [hu.instances]; exact hw.inst, by rw [hact]; exact hw.act⟩
      exact (ih (some e.reply) hlive (hu.confined hs) (alive_above ha hu.slots [])).before
        (.step (hstep.trans hd) (.step rfl (.step rfl (.refl _)))) (hu.aside i) (hu.visits i)
    | inl t =>
      obtain ⟨r, hd, w', hl, hside, hi, hmoves, hover⟩ := World.dispatch_leads hw.inst hout rfl
        (by rintro _ ⟨⟩; exact Roster.lt_size hk) hs (.handle k) q
        (.pinning i :: .resume (.environment k tr p) next :: stack)
      exact ⟨w', .done, p, next, .step (hstep.trans hd) hl, hside, World.visits_of_write hmoves i,
        hi, hover k rfl, hn⟩
  | @takePayload next _ ih =>
    exact (ih p hw hs ha).before (.step rfl (.refl _)) ((World.Unmoved.refl w).aside i) rfl
  | @onAbort o next ho _ _ ih =>
    obtain ⟨w₁, hl, hu, hlive⟩ := hw.observe_leads (m := m) tr p ho.confined next stack
    exact (ih hlive (hu.confined hs) (alive_above ha hu.slots [])).before hl (hu.aside i)
      (hu.visits i)
  | @clearAbort next _ ih =>
    have hu := w.unmoved_modifyActivation k
      (f := fun a => { a with signal := a.signal.clearObserver }) (fun _ => id)
      fun a _ h => ⟨by rintro _ ⟨⟩, h.2⟩
    have hlive := hw.modify (f := fun a => { a with signal := a.signal.clearObserver })
      fun _ => ⟨rfl, rfl, rfl, rfl⟩
    exact (ih hlive (hu.confined hs) ha).before (.step rfl (.refl _)) (hu.aside i) rfl

/-! ### Around a body -/

namespace World

theorem aside_begin (w : World σ) (i : InstanceId) (s : σ.State) (tr : Trigger σ.Action)
    (p : Option σ.Payload) : w.Aside i (w.begin i s tr p) where
  slots := rfl
  instances j hj := by simp only [begin, record, modifyInstance, Roster.get?_modify, if_neg hj]
  started := Nat.le_succ _
  aborted j hj := by
    obtain ⟨a, ha, hab⟩ := aborted_iff.1 hj
    refine aborted_iff.2 ⟨a, ?_, hab⟩
    simp only [begin, record, modifyInstance, Roster.get?_push]
    rw [if_neg (Nat.ne_of_lt (Roster.lt_size ha)), ha]
  confined h j a hj := by
    simp only [begin, record, modifyInstance, Roster.get?_push] at hj
    split at hj
    · obtain rfl := Option.some.inj hj
      exact Tenure.confined_new _ _ _
    · exact h j a hj

theorem visits_begin (w : World σ) (i : InstanceId) (s : σ.State) (tr : Trigger σ.Action)
    (p : Option σ.Payload) : (w.begin i s tr p).visits i = w.visits i ++ [⟨s, tr, p⟩] := by
  rw [begin, visits_record]
  simp [Event.visit?]
  rfl

/-- The entry into a state with an effect starts a live activation. -/
theorem live_begin {act : Option ActivationId}
    (hi : w.instances.get? i = some ⟨⟨s, []⟩, ⟨x, []⟩, act⟩) (tr : Trigger σ.Action)
    (p : Option σ.Payload) : (w.begin i s tr p).Live i w.activations.size s x := by
  refine ⟨?_, { owner := i, state := s }, ?_, rfl, rfl, rfl, rfl⟩
  · simp only [begin, record, modifyInstance, Roster.get?_modify, if_true, hi, Option.map_some]
  · simp only [begin, record, modifyInstance, Roster.get?_push, if_true]

/-- The entry of a live activation comes to its end and moves nothing. -/
theorem Live.conclude_leads (hw : w.Live i k s x) {e : Ending σ} (he : e.Own)
    (stack : List (Frame σ)) :
    ∃ w' e', Run.Leads m ⟨w, .ended e, .body k :: stack⟩ ⟨w', .ended e', stack⟩ ∧ w.Unmoved w' ∧
      Ending.Own e' := by
  have hclose := w.unmoved_closeWindow k
  cases e with
  | error e =>
    exact ⟨w.closeWindow k, .error e, .step rfl (.refl _), hclose, Ending.own_error e⟩
  | ok o =>
    cases he o rfl with
    | done => exact ⟨w.closeWindow k, .done, .step rfl (.refl _), hclose, Ending.own_done⟩
    | @cleanup c hc =>
      -- the cleanup is stored with the activation itself, since this is the live one
      obtain ⟨a, hk, rfl, -, hab, -⟩ := hw.act
      have hu := hclose.trans ((w.closeWindow k).unmoved_record (e := .cleanupGiven k)
        rfl)
      have hstore := ((w.closeWindow k).record (.cleanupGiven k)).unmoved_modifyActivation k
        (f := fun b => { b with cleanup := some ⟨k, c⟩ }) (fun _ => id) fun b _ h => by
          refine ⟨h.1, ?_⟩
          rintro _ ⟨⟩
          exact ⟨rfl, hc.confined⟩
      refine ⟨_, .done, .step ?_ (.refl _), hu.trans hstore, Ending.own_done⟩
      have hk' : (w.closeWindow k).activations.get? k = some { a with windowOpen := false } := by
        rw [closeWindow, modifyActivation, Roster.get?_modify, if_pos rfl, hk]
        rfl
      have hi' : (w.closeWindow k).instances.get? a.owner =
          some ⟨⟨s, []⟩, ⟨x, []⟩, some k⟩ := hw.inst
      simp [Run.step, proceed, conclude, keepCleanup, hk', hab, hi', record]

end World

end Statechart
