import Statechart.Proofs.Activation.Handle
import Statechart.Proofs.Config.Report
import Statechart.Proofs.Run.Ownership
import Statechart.Proofs.Run.Stack
import Statechart.Proofs.Transition.Edges

/-!
The report of dangling transitions foretells what goes wrong later. An instance is placed in a
declared state, and a transition writes a declared target, so that no instance ever leaves the
declared states. An unknown target comes to light only when a dispatch looks it up; the error then
goes from caller to caller, so that it names a transition of the report as long as user code does
not make up such errors.
-/

namespace Statechart

variable {σ : Signature} {m : Machine σ} {ok : Run σ → Prop} {r r' : Run σ} {l : Life σ}
  {i : InstanceId}

/-! ### Declared states -/

/-- Every instance is in a declared state. -/
def Life.Declared (m : Machine σ) (l : Life σ) : Prop :=
  ∀ i s, l.instances i = some s → m.config.contains s.state = true

theorem Life.Declared.move (h : r.life.Declared m) (hd : r.life.Sourced m) (hm : Move m r l) :
    l.Declared m := by
  intro i s hi
  cases hm.concerns i with
  | rests _ _ _ _ hs =>
    obtain ⟨u, hu, he⟩ := hs s hi
    exact he ▸ h i u hu
  | places _ _ hdecl _ _ _ _ _ hs =>
    rw [hs s hi]
    exact hdecl
  | writes hst _ _ _ _ _ hs =>
    obtain ⟨_, _, _, hedge⟩ := hd.due i _ _ _ (hst ▸ List.mem_cons_self)
    rw [hs s hi]
    exact hedge.2
  | enters _ hu _ _ _ _ hs =>
    rw [hs s hi]
    exact h i _ hu

/-- **An instance is always in a declared state.** -/
theorem Reach.declared (h : Reach m ok r) {inst : Instance σ}
    (hi : r.world.instances.get? i = some inst) : m.config.contains inst.state.value = true := by
  have hall : r.life.Declared m :=
    h.life_induction nofun fun _ _ hr _ ih hm => ih.move hr.sourced hm
  exact hall i _ (World.life_instances hi)

/-! ### Errors that are handed on -/

/-- Whether user code may raise the error without having got it from a call. -/
def MachineError.own : MachineError → Bool
  | unknownTarget .. => false
  | _ => true

/-- The error that user code raises in the next step. -/
def Run.raised? (r : Run σ) : Option MachineError :=
  match r.control with
  | .code _ (.raise e) => some e
  | _ => none

/-- **The runs in which user code makes up no unknown target**, with the errors with which something
has ended so far: the error of an unknown target is raised only if it is one of these. -/
inductive Honest (m : Machine σ) : Run σ → List MachineError → Prop
  | start (c : Code σ) : Honest m (.ofCode {} c) []
  | step {r r' : Run σ} {es : List MachineError} (h : Honest m r es)
      (hr : ∀ e, r.raised? = some e → e.own = true ∨ e ∈ es) (hs : r.step m = some r') :
      Honest m r' (r'.control.error?.toList ++ es)
  | turn {r r' : Run σ} {es : List MachineError} (h : Honest m r es) (ht : r.Turn r') :
      Honest m r' es

/-- If the error is that of an unknown target, the report lists it. -/
def Machine.Foretells (m : Machine σ) (e : MachineError) : Prop :=
  ∀ s a t, e = .unknownTarget s a t → ⟨s, a, t⟩ ∈ m.config.validate

theorem Machine.Dangles.foretold {e : MachineError} (h : m.Dangles e) : m.Foretells e := by
  obtain ⟨s, a, t, ht, hc, rfl⟩ := h
  rintro _ _ _ ⟨⟩
  exact Config.mem_validate_iff.2 ⟨s, a, t, ht, hc, rfl⟩

theorem MachineError.foretold_of_own {e : MachineError} (h : e.own = true) : m.Foretells e := by
  rintro _ _ _ rfl
  cases h

namespace Honest

variable {es : List MachineError}

theorem reach (h : Honest m r es) : Reach m (fun _ => True) r := by
  induction h with
  | start c => exact .start c
  | step _ _ hs ih => exact ih.step trivial hs
  | turn _ ht ih => exact ih.turn ht

/-- Code that raises errors of its own only is honest. -/
theorem steps (h : Honest m r es) {n : Nat}
    (hr : ∀ j < n, (r.steps m j).raised?.all MachineError.own = true) :
    ∃ es', Honest m (r.steps m n) es' := by
  induction n generalizing r es with
  | zero => exact ⟨es, h⟩
  | succ n ih =>
    cases hs : r.step m with
    | none => exact ⟨es, by simpa [Run.steps, hs] using h⟩
    | some r' =>
      rw [Run.steps_succ hs]
      refine ih (h.step (fun e he => .inl ?_) hs) fun j hj => ?_
      · have hown := hr 0 (Nat.succ_pos n)
        rw [Run.steps, he] at hown
        exact hown
      · have hown := hr (j + 1) (Nat.succ_lt_succ hj)
        rwa [Run.steps_succ hs] at hown

/-- **What is on its way to a caller is foretold**, and so is what has ended something. -/
theorem foretold (h : Honest m r es) :
    (∀ e ∈ es, m.Foretells e) ∧ ∀ e ∈ r.errors, m.Foretells e := by
  induction h with
  | start c => exact ⟨nofun, nofun⟩
  | @step r r' es _ hr hs ih =>
    have hnext (e) (he : e ∈ r'.errors) : m.Foretells e := by
      rcases Run.errors_step hs he with hold | hd | ⟨t, hc⟩
      · exact ih.2 e hold
      · exact hd.foretold
      · rcases hr e (by rw [Run.raised?, hc]) with hown | hes
        · exact MachineError.foretold_of_own hown
        · exact ih.1 e hes
    refine ⟨fun e he => ?_, hnext⟩
    rcases List.mem_append.1 he with he | he
    · exact hnext e (List.mem_append_left _ he)
    · exact ih.1 e he
  | turn _ ht ih =>
    refine ⟨ih.1, fun e he => ?_⟩
    have hold := ((Run.upon_turn (n := 0) ht).errors e he).resolve_left id
    exact ih.2 e (List.mem_append_right _ hold)

end Honest

/-! ### Refused dispatches -/

/-- The call that code on `t` makes comes back with the error `e` after two more steps. Nothing runs
in between, and the world stays as it is. -/
structure Run.Bounces (m : Machine σ) (r : Run σ) (t : Target σ) (next : Reply → Code σ)
    (e : MachineError) : Prop where
  between : ∀ n, 0 < n → n < 3 →
    (r.steps m n).world = r.world ∧ (r.steps m n).control = .ended (.error e)
  back : r.steps m 3 = ⟨r.world, .code t (next (some (.error e))), r.stack⟩

/-- A call that ends at once, and whose frame `f` then gives way, comes back to its caller in two
steps. -/
theorem Run.steps_call {w : World σ} {x : Ending σ} {f : Frame σ} {t : Target σ}
    {next : Reply → Code σ} {stack : List (Frame σ)}
    (hcall : r.step m = some ⟨w, .ended x, f :: .resume t next :: stack⟩)
    (hframe : w.proceed m x (.resume t next :: stack) f =
      some ⟨w, .ended x, .resume t next :: stack⟩) (n : Nat) :
    r.steps m (n + 2) = Run.steps m n ⟨w, .ended x, .resume t next :: stack⟩ := by
  have hframe : step m ⟨w, .ended x, f :: .resume t next :: stack⟩ =
      some ⟨w, .ended x, .resume t next :: stack⟩ := hframe
  exact (steps_succ hcall (n + 1)).trans (steps_succ hframe n)

theorem Run.Bounces.of_call {t : Target σ} {next : Reply → Code σ} {e : MachineError} {f : Frame σ}
    (hcall : r.step m = some ⟨r.world, .ended (.error e), f :: .resume t next :: r.stack⟩)
    (hframe : r.world.proceed m (.error e) (.resume t next :: r.stack) f =
      some ⟨r.world, .ended (.error e), .resume t next :: r.stack⟩) : r.Bounces m t next e := by
  have hsteps := steps_call hcall hframe
  refine ⟨fun n hpos hn => ?_, hsteps 1⟩
  obtain rfl | rfl : n = 1 ∨ n = 2 := by omega
  · rw [steps_succ hcall]
    exact ⟨rfl, rfl⟩
  · rw [hsteps 0]
    exact ⟨rfl, rfl⟩

theorem World.dispatch_dangling {w : World σ} {inst : Instance σ}
    (hi : w.instances.get? i = some inst) {a : σ.Action} {t : σ.State}
    (ht : m.config.target? inst.state.value a = some t) (hc : m.config.contains t = false)
    (caller : Caller) (p : Option σ.Payload) (stack : List (Frame σ)) :
    w.dispatch m i caller a p stack = some ⟨w, .ended (.error (.unknownTarget
      (σ.stateName inst.state.value) (σ.actionName a) (σ.stateName t))), stack⟩ := by
  simp [dispatch, hi, ht, hc]

section Refused

variable {inst : Instance σ} (hi : r.world.instances.get? i = some inst) {a : σ.Action}
  {t : σ.State} (ht : m.config.target? inst.state.value a = some t)
  (hc : m.config.contains t = false) {tgt : Target σ} {p : Option σ.Payload}
  {next : Reply → Code σ}

include hi ht hc

theorem Run.bounces_send {slot : String} (hslot : r.world.slots.get? slot = some i)
    (hr : r.control = .code tgt (.send slot a p next)) :
    r.Bounces m tgt next (.unknownTarget (σ.stateName inst.state.value) (σ.actionName a)
      (σ.stateName t)) := by
  refine .of_call (f := .owning i) ((step_send hslot hr).trans ?_) ?_
  · exact World.dispatch_dangling hi ht hc .owner p _
  · simp only [World.proceed, World.release, owned_of_slot hslot, if_true]

theorem Run.bounces_dispatch {k : ActivationId} {b : Activation σ} (hk : tgt.activation? = some k)
    (hb : r.world.activations.get? k = some b) (ho : b.owner = i)
    (hab : b.signal.aborted = false) (hl : alive r.world r.stack i = true)
    (hr : r.control = .code tgt (.dispatch a p next)) :
    r.Bounces m tgt next (.unknownTarget (σ.stateName inst.state.value) (σ.actionName a)
      (σ.stateName t)) := by
  refine .of_call (f := .pinning i) ((step_dispatch hk hb ho hab hl hr).trans ?_) rfl
  exact World.dispatch_dangling hi ht hc (.handle k) p _

end Refused

/-! ### All of it -/

/-- **The report foretells every unknown target.** Names are assumed to tell states apart, and
actions. Then every instance is in a declared state, and every unknown target with which something
has ended is one of the report, so that there is none where the report is empty. The report lists
each transition of a declared state to an undeclared one once, and nothing else. And whoever
dispatches the action of such a transition in its state, on the instance or through a handle that
is good for it, gets the error back at once, while the world stays as it is. -/
theorem Honest.unknown_targets (hs : Function.Injective σ.stateName)
    (ha : Function.Injective σ.actionName) {es : List MachineError} (h : Honest m r es) :
    ((∀ i inst, r.world.instances.get? i = some inst →
        m.config.contains inst.state.value = true) ∧
      (∀ s a t, (.unknownTarget s a t ∈ es ∨ r.control = .ended (.error (.unknownTarget s a t))) →
        ⟨s, a, t⟩ ∈ m.config.validate) ∧
      (m.config.validate = [] → ∀ s a t, .unknownTarget s a t ∉ es ∧
        r.control ≠ .ended (.error (.unknownTarget s a t)))) ∧
    (m.config.validate.Nodup ∧ ∀ d, d ∈ m.config.validate ↔ ∃ s a t,
      m.config.contains s = true ∧ m.config.target? s a = some t ∧ m.config.contains t = false ∧
        d = ⟨σ.stateName s, σ.actionName a, σ.stateName t⟩) ∧
    ∀ s a t, ⟨σ.stateName s, σ.actionName a, σ.stateName t⟩ ∈ m.config.validate →
      ∀ i inst, r.world.instances.get? i = some inst → inst.state.value = s →
        ∀ tgt p next,
          (∀ slot, r.world.slots.get? slot = some i →
            r.control = .code tgt (.send slot a p next) →
            r.Bounces m tgt next
              (.unknownTarget (σ.stateName s) (σ.actionName a) (σ.stateName t))) ∧
          ∀ k b, tgt.activation? = some k → r.world.activations.get? k = some b → b.owner = i →
            b.signal.aborted = false → alive r.world r.stack i = true →
            r.control = .code tgt (.dispatch a p next) →
            r.Bounces m tgt next
              (.unknownTarget (σ.stateName s) (σ.actionName a) (σ.stateName t)) := by
  have hlisted (s a t) (he : .unknownTarget s a t ∈ es ∨
      r.control = .ended (.error (.unknownTarget s a t))) : ⟨s, a, t⟩ ∈ m.config.validate := by
    rcases he with he | he
    · exact h.foretold.1 _ he s a t rfl
    · refine h.foretold.2 _ (List.mem_append_left _ ?_) s a t rfl
      rw [he]
      exact List.mem_singleton_self _
  refine ⟨⟨fun i inst => h.reach.declared, hlisted, fun hnil s a t => ?_⟩,
    ⟨Config.nodup_validate hs ha, fun d => ?_⟩, fun s a t hd i inst hi hst tgt p next => ?_⟩
  · exact not_or.1 fun he => List.not_mem_nil (hnil ▸ hlisted s a t he)
  · rw [Config.mem_validate_iff]
    constructor
    · rintro ⟨s, a, t, ht, hc, rfl⟩
      exact ⟨s, a, t, Config.contains_of_target? ht, ht, hc, rfl⟩
    · rintro ⟨s, a, t, -, ht, hc, rfl⟩
      exact ⟨s, a, t, ht, hc, rfl⟩
  · subst hst
    obtain ⟨ht, hc⟩ := (Config.mem_validate_names hs ha).1 hd
    exact ⟨fun slot => Run.bounces_send hi ht hc,
      fun k b hk hb ho hab hl => Run.bounces_dispatch hi ht hc hk hb ho hab hl⟩

namespace Lamp

/-- A lamp whose second state was never declared. -/
def broken : Machine sig where
  config := ⟨.ofPairs [(false, { transitions := .ofPairs [((), true)] })]⟩
  initialState := false
  initialContext := (0 : Nat)
  spawner := none
  declared := by decide

def brokenPlaced : Run sig := placement.steps broken 7

theorem over_brokenPlaced : brokenPlaced.Over := Option.isSome_iff_exists.1 (by decide +kernel)

/-- A dispatch on this lamp. -/
def pressed : Run sig := .ofCode brokenPlaced.world (.send "lamp" () none .ofReply)

theorem stateName_injective : Function.Injective sig.stateName := by
  intro a b
  revert a b
  change ∀ a b : Bool, (if a then "on" else "off") = (if b then "on" else "off") → a = b
  decide

end Lamp

/-- The report on this lamp foretells what its only dispatch comes back with. -/
theorem lamp_unknown_target :
    Lamp.broken.config.validate = [⟨"off", "press", "on"⟩] ∧
    Lamp.pressed.Bounces Lamp.broken .bare .ofReply (.unknownTarget "off" "press" "on") ∧
    ⟨"off", "press", "on"⟩ ∈ Lamp.broken.config.validate := by
  have hname := Lamp.stateName_injective
  obtain ⟨es, hplaced⟩ : ∃ es, Honest Lamp.broken Lamp.brokenPlaced es :=
    (Honest.start _).steps (by decide +kernel)
  have hpressed : Honest Lamp.broken Lamp.pressed es :=
    hplaced.turn (Lamp.over_brokenPlaced.turn_call _)
  have hlist : Lamp.broken.config.validate = [⟨"off", "press", "on"⟩] := rfl
  obtain ⟨-, -, hbounce⟩ := hpressed.unknown_targets hname fun _ _ _ => rfl
  have hb := (hbounce false () true (hlist ▸ List.mem_singleton_self _) 0 _ rfl rfl .bare none
    .ofReply).1 "lamp" rfl rfl
  -- the error that the dispatch ends with
  obtain ⟨es', hended⟩ : ∃ es, Honest Lamp.broken (Lamp.pressed.steps Lamp.broken 1) es :=
    hpressed.steps (by decide +kernel)
  obtain ⟨⟨-, hlisted, -⟩, -⟩ := hended.unknown_targets hname fun _ _ _ => rfl
  exact ⟨hlist, hb, hlisted _ _ _ (.inr (hb.between 1 Nat.one_pos (by decide)).2)⟩

end Statechart
