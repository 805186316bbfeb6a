import Statechart.Session
import Statechart.Proofs.Resume.Lockstep
import Statechart.Proofs.Run.Journal

/-!
Dispatches on two instances that are in the same state and have the same context. However they have
come there, they answer alike. What an instance has left to be torn down moves nothing, so that
after the first action that is accepted, the two enter the same target with the same context; from
there on they go in step.
-/

namespace Statechart

variable {σ : Signature} {m : Machine σ} {w w' w₁ : World σ} {i i' : InstanceId}
  {slot slot' : String} {r r' : Run σ}

/-! ### Answers -/

/-- What is learned from one dispatch by an owner. -/
structure Answer (σ : Signature) where
  result : Except MachineError Unit
  /-- What has become of the instance meanwhile, in order. -/
  course : List (Change σ)
  /-- What the instance shows of itself then. -/
  snapshot : Option (Snapshot σ)

/-- The calls by an owner of the instance in a slot, one after the other, return with these
answers. -/
inductive Session.Answers (slot : String) :
    Session σ → List (σ.Action × Option σ.Payload) → List (Answer σ) → Prop
  | nil (s : Session σ) : Answers slot s [] []
  | cons {s s' : Session σ} {i : InstanceId} {fuel : Nat} {a : σ.Action} {p : Option σ.Payload}
      {e : Ending σ} {course : List (Change σ)} {calls : List (σ.Action × Option σ.Payload)}
      {answers : List (Answer σ)} (hi : s.world.slots.get? slot = some i)
      (hs : s.send fuel slot a p = (s', some e))
      (hc : s'.world.course i = course.reverse ++ s.world.course i)
      (h : Answers slot s' calls answers) :
      Answers slot s ((a, p) :: calls) (⟨e.reply, course, s'.peek? slot⟩ :: answers)

/-! ### Instances that answer alike -/

/-- A slot holds instance `i`, which has no observers, in the state `s` and with the context `x`.
What it has left to be torn down keeps to itself. -/
structure World.Rests (w : World σ) (slot : String) (i : InstanceId) (s : σ.State)
    (x : σ.Context) (act : Option ActivationId) : Prop where
  slot : w.slots.get? slot = some i
  inst : w.instances.get? i = some ⟨⟨s, []⟩, ⟨x, []⟩, act⟩
  active : ∀ k, act = some k → k < w.activations.size
  confined : w.Confined

/-- The instances in two slots answer alike: they rest in the same place, or are paired already. -/
inductive World.Alike : String → World σ → String → World σ → Prop
  | rest {slot slot' : String} {w w' : World σ} {i i' : InstanceId} {s : σ.State} {x : σ.Context}
      {act act' : Option ActivationId} (h : w.Rests slot i s x act)
      (h' : w'.Rests slot' i' s x act') : Alike slot w slot' w'
  | paired {w w' : World σ} {P : Pairing σ} (h : P.Worlds w w') : Alike P.slot w P.slot' w'
  | symm {slot slot' : String} {w w' : World σ} (h : Alike slot' w' slot w) :
      Alike slot w slot' w'

/-- How the call has ended, if it has. -/
def Run.reply? (r : Run σ) : Option (Except MachineError Unit) := r.ending?.map Ending.reply

/-- Two runs of the same dispatch have come to the same: to the same answer, if there is one. -/
structure Run.Agrees (slot : String) (i : InstanceId) (past : List (Change σ)) (r : Run σ)
    (slot' : String) (i' : InstanceId) (past' : List (Change σ)) (r' : Run σ) : Prop where
  reply : r.reply? = r'.reply?
  alike : r.Over → World.Alike slot r.world slot' r'.world
  course : r.Over → ∃ since, r.world.course i = since ++ past ∧ r'.world.course i' = since ++ past'

theorem Run.over_of_reply (h : r.reply? = r'.reply?) (ho : r.Over) : r'.Over := by
  obtain ⟨e, he⟩ := ho
  rw [reply?, he, reply?] at h
  obtain ⟨e', he', -⟩ := Option.map_eq_some_iff.1 h.symm
  exact ⟨e', he'⟩

theorem Run.Agrees.symm {past past' : List (Change σ)}
    (h : r.Agrees slot i past slot' i' past' r') : r'.Agrees slot' i' past' slot i past r where
  reply := h.reply.symm
  alike ho := (h.alike (over_of_reply h.reply.symm ho)).symm
  course ho := by
    obtain ⟨since, hc, hc'⟩ := h.course (over_of_reply h.reply.symm ho)
    exact ⟨since, hc', hc⟩

namespace World

/-- Instances that answer alike show the same of themselves. -/
theorem Alike.peek_eq (h : Alike slot w slot' w') : w.peek? m slot = w'.peek? m slot' := by
  induction h with
  | rest h h' => simp [peek?, h.slot, h.inst, h'.slot, h'.inst]
  | paired h =>
    simp only [peek?, h.slot, h.slot', Option.bind_eq_bind, Option.bind_some]
    rcases rel_cases h.instances with ⟨hi, hi'⟩ | ⟨_, _, hi, hi', ⟨s, x, -⟩⟩
    · rw [hi, hi']
    · rw [hi, hi']
      rfl
  | symm _ ih => exact ih.symm

/-- Both slots hold an instance. -/
theorem Alike.slots (h : Alike slot w slot' w') :
    ∃ i i', w.slots.get? slot = some i ∧ w'.slots.get? slot' = some i' := by
  induction h with
  | rest h h' => exact ⟨_, _, h.slot, h'.slot⟩
  | paired h => exact ⟨_, _, h.slot, h.slot'⟩
  | symm _ ih =>
    obtain ⟨i, i', hi, hi'⟩ := ih
    exact ⟨i', i, hi', hi⟩

/-- An action that is refused comes to its answer, and the instance stays where it is. -/
theorem Rests.refused {s : σ.State} {x : σ.Context} {act : Option ActivationId}
    (h : w.Rests slot i s x act) {a : σ.Action} {q : Except MachineError Unit}
    (ho : m.outcome s a = .inr q) (p : Option σ.Payload) :
    ∃ w₁ e, Run.Leads m (.ofCode w (.send slot a p .ofReply)) ⟨w₁, .ended e, []⟩ ∧ e.reply = q ∧
      w₁.Rests slot i s x act ∧ w₁.course i = w.course i := by
  obtain ⟨w₁, e, hd, rfl, hu, hact⟩ :=
    dispatch_refused h.inst ho .owner p [.owning i, .resume .bare .ofReply]
  have hslot : w₁.slots.get? slot = some i := hu.slots ▸ h.slot
  obtain ⟨e', hl, he⟩ := w₁.owner_leads (m := m) hslot e
  refine ⟨w₁, e', .step ?_ hl, he, ⟨hslot, ?_, ?_, hu.confined h.confined⟩,
    course_of_moves hu.moves i⟩
  · simpa [Run.step, Run.ofCode, perform, h.slot] using hd
  · rw [hu.instances]
    exact h.inst
  · rw [hact]
    exact h.active

/-- An action that is accepted leads to the entry into its target. -/
theorem Rests.accepted {s t : σ.State} {x : σ.Context} {act : Option ActivationId}
    (h : w.Rests slot i s x act) {a : σ.Action} (ho : m.outcome s a = .inl t)
    (p : Option σ.Payload) :
    ∃ w₁, Run.Leads m (.ofCode w (.send slot a p .ofReply)) ⟨w₁, .ended .done,
        [.entering i (.action a) p, .owning i, .resume .bare .ofReply]⟩ ∧
      w₁.Rests slot i t x none ∧ w₁.course i = .state t :: w.course i := by
  obtain ⟨r, hd, w₁, hl, hside, hi, hmoves, -⟩ := dispatch_leads h.inst ho rfl h.active
    h.confined .owner p [.owning i, .resume .bare .ofReply]
  refine ⟨w₁, .step ?_ hl, ⟨hside.slots ▸ h.slot, hi, by rintro _ ⟨⟩,
    hside.confined h.confined⟩, ?_⟩
  · simpa [Run.step, Run.ofCode, perform, h.slot] using hd
  · rw [course_eq, course_eq, hmoves]
    simp [Event.change?]

end World

/-- Paired runs agree. -/
theorem Pairing.Runs.agrees {P : Pairing σ} (h : P.Runs r r') :
    r.Agrees P.slot P.inst P.past P.slot' P.inst' P.past' r' where
  reply := by rw [Run.reply?, Run.reply?, h.ending_eq]
  alike _ := .paired h.worlds
  course _ := h.worlds.course

/-- What is still to be done when an owner has dispatched: his share is given back, and the answer
is handed on. -/
theorem Pairing.stacks_owner (P : Pairing σ) :
    P.Stacks [.owning P.inst, .resume .bare .ofReply] [.owning P.inst', .resume .bare .ofReply] :=
  .cons .owning (.cons (.resume .bare fun q => (Code.own_ofReply q).confined) .nil)

/-- **Two instances that are about to enter the same state with the same context agree** from there
on. -/
theorem World.Rests.agrees (hm : m.Confined) {s : σ.State} {x : σ.Context}
    (h : w.Rests slot i s x none) (h' : w'.Rests slot' i' s x none)
    {since past past' : List (Change σ)} (hc : w.course i = since ++ past)
    (hc' : w'.course i' = since ++ past') (tr : Trigger σ.Action) (p : Option σ.Payload) (n : Nat) :
    (Run.steps m n ⟨w, .ended .done,
        [.entering i tr p, .owning i, .resume .bare .ofReply]⟩).Agrees slot i past slot' i' past'
      (Run.steps m n ⟨w', .ended .done,
        [.entering i' tr p, .owning i', .resume .bare .ofReply]⟩) := by
  let P : Pairing σ :=
    ⟨i, i', slot, slot', w.activations.size, w'.activations.size, past, past'⟩
  have hw : P.Worlds w w' := by
    refine ⟨h.slot, h'.slot, ⟨0, rfl, rfl⟩, ?_, ?_, ⟨since, hc, hc'⟩⟩
    · rw [h.inst, h'.inst]
      exact .some (.intro s x .none)
    · -- none has been started so far
      rintro _ _ ⟨d, rfl, rfl⟩
      rw [(Roster.get?_eq_none_iff _ _).2 (Nat.le_add_right _ d),
        (Roster.get?_eq_none_iff _ _).2 (Nat.le_add_right _ d)]
      exact .none
  have hruns : P.Runs ⟨w, .ended .done, [.entering i tr p, .owning i, .resume .bare .ofReply]⟩
      ⟨w', .ended .done, [.entering i' tr p, .owning i', .resume .bare .ofReply]⟩ :=
    ⟨hw, .ended Ending.confined_done, .cons (.entering tr p) P.stacks_owner⟩
  exact (hruns.steps hm n).agrees

/-! ### One dispatch -/

/-- The dispatch of an action by the owner of the instance in a slot. -/
def World.sending (w : World σ) (slot : String) (a : σ.Action) (p : Option σ.Payload) : Run σ :=
  .ofCode w (.send slot a p .ofReply)

theorem World.not_over_sending (w : World σ) (slot : String) (a : σ.Action)
    (p : Option σ.Payload) : ¬ (w.sending slot a p).Over := by
  rw [Run.over_iff]
  rintro ⟨e, ⟨⟩, -⟩

/-- Runs that are not over agree on that. -/
theorem Run.Agrees.of_running {past past' : List (Change σ)} (h : ¬ r.Over) (h' : ¬ r'.Over) :
    r.Agrees slot i past slot' i' past' r' where
  reply := by
    rw [reply?, reply?, ending_of_not_over h, ending_of_not_over h']
  alike ho := absurd ho h
  course ho := absurd ho h

/-- What has become of an instance stays in its course. -/
theorem Run.course_steps (r : Run σ) (n : Nat) (i : InstanceId) :
    ∃ since, (r.steps m n).world.course i = since ++ r.world.course i := by
  obtain ⟨new, hnew⟩ := r.journal_steps (m := m) n
  refine ⟨new.filterMap (Event.change? i), ?_⟩
  rw [World.course, hnew, List.filterMap_append]
  rfl

/-- Paired instances agree on a dispatch. -/
theorem Pairing.Worlds.agrees (hm : m.Confined) {P : Pairing σ} (h : P.Worlds w w') (a : σ.Action)
    (p : Option σ.Payload) (n : Nat) :
    ((w.sending P.slot a p).steps m n).Agrees P.slot P.inst (w.course P.inst)
      P.slot' P.inst' (w'.course P.inst') ((w'.sending P.slot' a p).steps m n) := by
  have hrunning : (w.sending P.slot a p).Agrees P.slot P.inst (w.course P.inst)
      P.slot' P.inst' (w'.course P.inst') (w'.sending P.slot' a p) :=
    .of_running (w.not_over_sending P.slot a p) (w'.not_over_sending P.slot' a p)
  have hstep : (w.sending P.slot a p).step m = _ := Run.step_send h.slot rfl
  have hstep' : (w'.sending P.slot' a p).step m = _ := Run.step_send h.slot' rfl
  rcases rel_cases (h.dispatch (m := m) .owner .owner a p P.stacks_owner) with
    ⟨hd, hd'⟩ | ⟨r, r', hd, hd', hruns⟩
  · rw [Run.steps_of_none (hstep.trans hd), Run.steps_of_none (hstep'.trans hd')]
    exact hrunning
  · cases n with
    | zero => exact hrunning
    | succ n =>
      have hgrows := (w.sending P.slot a p).course_steps (m := m) (n + 1) P.inst
      rw [Run.steps_succ (hstep.trans hd)] at hgrows ⊢
      rw [Run.steps_succ (hstep'.trans hd')]
      have hruns := hruns.steps hm n
      refine ⟨hruns.agrees.reply, hruns.agrees.alike, fun _ => ?_⟩
      -- what is new is the same on either side, since the course before was
      obtain ⟨before, hb, hb'⟩ := h.course
      obtain ⟨all, hall, hall'⟩ := hruns.worlds.course
      obtain ⟨since, hsince⟩ := hgrows
      refine ⟨since, hsince, ?_⟩
      have heq : all ++ P.past = (since ++ before) ++ P.past := by
        rw [← hall, hsince, List.append_assoc, ← hb]
        rfl
      rw [hall', List.append_cancel_right heq, List.append_assoc, ← hb']

/-- **A dispatch on either instance comes to a point from which the two agree**, however many steps
are taken from there. -/
theorem World.Alike.meets (hm : m.Confined) (h : Alike slot w slot' w')
    (hi : w.slots.get? slot = some i) (hi' : w'.slots.get? slot' = some i') (a : σ.Action)
    (p : Option σ.Payload) :
    ∃ r r', (w.sending slot a p).Leads m r ∧ (w'.sending slot' a p).Leads m r' ∧
      ∀ n, (r.steps m n).Agrees slot i (w.course i) slot' i' (w'.course i') (r'.steps m n) := by
  induction h generalizing i i' with
  | @rest slot slot' w w' j j' s x act act' h h' =>
    obtain rfl : j = i := Option.some.inj (h.slot.symm.trans hi)
    obtain rfl : j' = i' := Option.some.inj (h'.slot.symm.trans hi')
    cases ho : m.outcome s a with
    | inl t =>
      obtain ⟨w₁, hl, hr, hc⟩ := h.accepted ho p
      obtain ⟨w₁', hl', hr', hc'⟩ := h'.accepted ho p
      have hc : w₁.course j = [.state t] ++ w.course j := hc
      exact ⟨_, _, hl, hl', hr.agrees hm hr' hc hc' _ p⟩
    | inr q =>
      obtain ⟨w₁, e, hl, he, hr, hc⟩ := h.refused ho p
      obtain ⟨w₁', e', hl', he', hr', hc'⟩ := h'.refused ho p
      refine ⟨_, _, hl, hl', fun n => ?_⟩
      rw [Run.steps_of_over ⟨e, rfl⟩, Run.steps_of_over ⟨e', rfl⟩]
      exact ⟨congrArg some (he.trans he'.symm), fun _ => .rest hr hr', fun _ => ⟨[], hc, hc'⟩⟩
  | @paired w w' P h =>
    obtain rfl : P.inst = i := Option.some.inj (h.slot.symm.trans hi)
    obtain rfl : P.inst' = i' := Option.some.inj (h.slot'.symm.trans hi')
    exact ⟨_, _, .refl _, .refl _, h.agrees hm a p⟩
  | symm _ ih =>
    obtain ⟨r', r, hl', hl, hagrees⟩ := ih hi' hi
    exact ⟨r, r', hl, hl', fun n => (hagrees n).symm⟩

/-- Whatever a dispatch on the one instance comes to, a dispatch on the other comes to the same. -/
theorem World.Alike.sends (hm : m.Confined) (h : Alike slot w slot' w')
    (hi : w.slots.get? slot = some i) (hi' : w'.slots.get? slot' = some i') {a : σ.Action}
    {p : Option σ.Payload} {n : Nat} (hn : ((w.sending slot a p).steps m n).Over) :
    ∃ n', ((w.sending slot a p).steps m n).Agrees slot i (w.course i) slot' i' (w'.course i')
      ((w'.sending slot' a p).steps m n') := by
  obtain ⟨r, r', hl, ⟨j, rfl⟩, hagrees⟩ := h.meets hm hi hi' a p
  obtain ⟨k, -, hk⟩ := hl.passed hn
  refine ⟨j + k, ?_⟩
  rw [Run.steps_add, ← hk]
  exact hagrees k

/-! ### Many dispatches -/

namespace Session

/-- A call by an owner is the run of its dispatch. -/
theorem send_eq_iff {s s' : Session σ} {fuel : Nat} {a : σ.Action} {p : Option σ.Payload}
    {e : Ending σ} : s.send fuel slot a p = (s', some e) ↔
      s' = { s with world := ((s.world.sending slot a p).steps s.machine fuel).world } ∧
        ((s.world.sending slot a p).steps s.machine fuel).ending? = some e := by
  rw [send, run, launch, Prod.mk.injEq]
  exact and_congr_left' eq_comm

/-- **Instances that answer alike answer all calls alike.** -/
theorem Answers.alike {s s' : Session σ} {calls : List (σ.Action × Option σ.Payload)}
    {answers : List (Answer σ)} (h : s.Answers slot calls answers) (hm : s.machine.Confined)
    (hs : s'.machine = s.machine) (ha : World.Alike slot s.world slot' s'.world) :
    s'.Answers slot' calls answers := by
  induction h generalizing s' with
  | nil s => exact .nil s'
  | @cons s s₁ i fuel a p e course calls answers hi hsend hc _ ih =>
    obtain ⟨rfl, he⟩ := send_eq_iff.1 hsend
    obtain ⟨m, w⟩ := s
    obtain ⟨m', w'⟩ := s'
    obtain rfl : m' = m := hs
    obtain ⟨-, i', -, hi'⟩ := ha.slots
    have hover : ((w.sending slot a p).steps m' fuel).Over := ⟨e, he⟩
    obtain ⟨n, hagrees⟩ := ha.sends hm hi hi' hover
    obtain ⟨since, hcourse, hcourse'⟩ := hagrees.course hover
    obtain rfl : since = course.reverse := List.append_cancel_right (hcourse.symm.trans hc)
    -- the other call returns as well, with the same result
    obtain ⟨e', he'⟩ := Run.over_of_reply hagrees.reply hover
    have hreply : e.reply = e'.reply := by
      simpa only [Run.reply?, he, he', Option.map_some, Option.some.injEq] using hagrees.reply
    have halike := hagrees.alike hover
    have hsend' : send n ⟨m', w'⟩ slot' a p =
        (⟨m', ((w'.sending slot' a p).steps m' n).world⟩, some e') := send_eq_iff.2 ⟨rfl, he'⟩
    have hpeek : peek? ⟨m', ((w.sending slot a p).steps m' fuel).world⟩ slot =
        peek? ⟨m', ((w'.sending slot' a p).steps m' n).world⟩ slot' := halike.peek_eq
    dsimp only
    rw [hreply, hpeek]
    exact .cons hi' hsend' hcourse' (ih hm rfl halike)

end Session

end Statechart
