import Statechart.Proofs.Cell.Sync
import Statechart.Proofs.Observation.Change
import Statechart.Proofs.Run.Journal
import Statechart.Proofs.Run.Path
import Statechart.Proofs.Transition.Entries

/-!
What observers know in the end, those of named cells and those of instances alike. An observer that
stays registered has been called last for the last write that was made while it was not waiting for
a call. When one observer writes before another one has been called, the other one is left behind:
the write made in between reaches it first, and the write that came before it afterwards.
-/

namespace Statechart

variable {σ : Signature} {m : Machine σ} {r r' r₀ : Run σ} {p : Spot} {id : SubscriptionId}

/-! ### What concerns an observer -/

/-- What is heard, as far as it concerns an observer at a spot. -/
def Saying.concern? (p : Spot) (id : SubscriptionId) : Saying σ → Option (Concern (Value σ))
  | .wrote q v => if q = p then some (.wrote v) else none
  | .told n => if n.spot = p ∧ n.id = id then some (.told n.value) else none

/-- What an event means to an observer at a spot. -/
def Event.concern? (p : Spot) (id : SubscriptionId) (e : Event σ) : Option (Concern (Value σ)) :=
  e.saying?.bind (Saying.concern? p id)

/-- The value with which an observer at a spot is called. -/
def Hail.value? (p : Spot) (id : SubscriptionId) (n : Hail σ) : Option (Value σ) :=
  if n.spot = p ∧ n.id = id then some n.value else none

/-- The values with which an observer at a spot is still to be called, in order. -/
def Run.owed (p : Spot) (id : SubscriptionId) (r : Run σ) : List (Value σ) :=
  (hailsOf r.stack).filterMap (Hail.value? p id)

/-- The observer is registered at the spot, once. -/
def Run.Registered (p : Spot) (id : SubscriptionId) (r : Run σ) : Prop :=
  (r.world.ids p).count id = 1

instance (r : Run σ) : Decidable (r.Registered p id) := inferInstanceAs (Decidable (_ = 1))

theorem Run.Registered.cell (h : r.Registered p id) :
    ∃ v ids, r.world.cell? p = some (v, ids) ∧ ids.count id = 1 := by
  unfold Registered World.ids at h
  cases hc : r.world.cell? p with
  | none => simp [hc] at h
  | some c => exact ⟨c.1, c.2, rfl, by simpa [hc] using h⟩

/-! ### Steps -/

/-- The calls for a write that an observer gets. -/
theorem filterMap_hails {p q : Spot} {v : Value σ} (ids : List SubscriptionId) :
    (ids.map fun id' => (⟨q, id', v⟩ : Hail σ)).filterMap (Hail.value? p id) =
      if q = p then .replicate (ids.count id) v else [] := by
  induction ids with
  | nil => simp
  | cons id' ids ih =>
    by_cases hq : q = p
    · by_cases hid : id' = id
      · simpa [Hail.value?, hq, hid, List.replicate_succ] using ih
      · simpa [Hail.value?, hq, hid] using ih
    · simp [Hail.value?, hq]

/-- A spot at which nothing but the observers changes holds what it held. -/
theorem Scene.value_put {s : Scene σ} {q : Spot} {u v : Value σ}
    {ids ids' ids'' : List SubscriptionId} (hp : s.cells p = some (v, ids))
    (hq : s.cells q = some (u, ids')) :
    ((s.put q (u, ids'')).cells p).map Prod.fst = some v := by
  by_cases hqp : q = p
  · subst hqp
    obtain ⟨rfl, -⟩ := Prod.mk.inj (Option.some.inj (hq.symm.trans hp))
    simp [put]
  · simp [put, Function.update_of_ne (Ne.symm hqp), hp]

/-- What a change of the scene means to an observer that is registered. -/
theorem Scene.Change.backlog {s s' : Scene σ} {e : Option (Entry Spot)} (h : s.Change e s')
    {v : Value σ} {ids : List SubscriptionId} (hp : s.cells p = some (v, ids))
    (hid : ids.count id = 1) : ∃ new : Option (Saying σ), s'.said = new.toList ++ s.said ∧
      Concern.Backlog (s.due.filterMap (Hail.value? p id))
        (new.toList.filterMap (Saying.concern? p id)) (s'.due.filterMap (Hail.value? p id)) ∧
      (s'.cells p).map Prod.fst =
        (Concern.writes (new.toList.filterMap (Saying.concern? p id))).getLast?.or (some v) := by
  cases h with
  | quiet => exact ⟨none, rfl, .nil _, congrArg (Option.map Prod.fst) hp⟩
  | @placed i u c hs hc =>
    refine ⟨none, rfl, .nil _, ?_⟩
    have hps : p ≠ .state i := by
      rintro rfl
      cases hs.symm.trans hp
    have hpc : p ≠ .context i := by
      rintro rfl
      cases hc.symm.trans hp
    simp [put, Function.update_of_ne hpc, Function.update_of_ne hps, hp, Concern.writes]
  | @wrote q u u' ids' hq =>
    refine ⟨some (.wrote q u'), rfl, ?_, ?_⟩
    · rw [write, List.filterMap_append, filterMap_hails]
      by_cases hqp : q = p
      · subst hqp
        obtain ⟨-, rfl⟩ := Prod.mk.inj (Option.some.inj (hq.symm.trans hp))
        simpa [hid, Saying.concern?] using Concern.Backlog.wrote (.nil (u' :: _))
      · simpa [hqp, Saying.concern?] using Concern.Backlog.nil _
    · by_cases hqp : q = p
      · subst hqp
        simp [write, put, Saying.concern?, Concern.writes, Concern.write?]
      · simp [write, put, Function.update_of_ne (Ne.symm hqp), hp, hqp, Saying.concern?,
          Concern.writes]
  | @told n due hdue =>
    refine ⟨some (.told n), rfl, ?_, ?_⟩
    · rw [hdue]
      by_cases hn : n.spot = p ∧ n.id = id
      · simpa [hn, Hail.value?, Saying.concern?] using Concern.Backlog.told (.nil _)
      · simpa [hn, Hail.value?, Saying.concern?] using Concern.Backlog.nil _
    · by_cases hn : n.spot = p ∧ n.id = id <;>
        simp [hp, hn, Saying.concern?, Concern.writes, Concern.write?]
  | @watched q u ids' hq =>
    exact ⟨none, rfl, .nil _, value_put hp hq⟩
  | missed => exact ⟨none, rfl, .nil _, congrArg (Option.map Prod.fst) hp⟩
  | @unwatched q u ids' id' hq =>
    exact ⟨none, rfl, .nil _, value_put hp hq⟩

/-! ### Paths -/

/-- What a history that leads from one run to another means to an observer: the calls to come form
a backlog, and what is held is what has been written last. -/
structure Run.Hears (p : Spot) (id : SubscriptionId) (r : Run σ) (h : List (Event σ))
    (r' : Run σ) : Prop where
  journal : r'.world.journal = h.reverse ++ r.world.journal
  backlog : Concern.Backlog (r.owed p id) (h.filterMap (Event.concern? p id)) (r'.owed p id)
  held : r'.world.held? p =
    (Concern.writes (h.filterMap (Event.concern? p id))).getLast?.or (r.world.held? p)

theorem filterMap_concern (h : List (Event σ)) : h.filterMap (Event.concern? p id) =
    (h.filterMap Event.saying?).filterMap (Saying.concern? p id) :=
  List.filterMap_filterMap.symm

namespace Run

/-- What follows is heard after what has been heard. -/
theorem Hears.trans {h h' : List (Event σ)} {r'' : Run σ} (hl : r.Hears p id h r')
    (hr : r'.Hears p id h' r'') : r.Hears p id (h ++ h') r'' where
  journal := by rw [hr.journal, hl.journal, List.reverse_append, List.append_assoc]
  backlog := by
    rw [List.filterMap_append]
    exact hl.backlog.trans hr.backlog
  held := by
    rw [hr.held, hl.held, List.filterMap_append, Concern.writes_append, List.getLast?_append,
      Option.or_assoc]

theorem hears_turn (h : r.Turn r') : ∃ h, r.Hears p id h r' := by
  have hscene := scene_turn h
  obtain ⟨new, hnew⟩ := journal_turn h
  have hsilent : new.filterMap Event.saying? = [] := by
    have hsaid := congrArg Scene.said hscene
    simp only [scene, World.scene, hnew, List.filterMap_append] at hsaid
    exact List.append_left_eq_self.1 hsaid
  have hnone : new.reverse.filterMap (Event.concern? p id) = [] := by
    rw [filterMap_concern, List.filterMap_reverse, hsilent]
    rfl
  refine ⟨new.reverse, by rw [List.reverse_reverse, hnew], ?_, ?_⟩
  · rw [hnone]
    have hdue : r'.owed p id = r.owed p id :=
      congrArg (fun s => s.due.filterMap (Hail.value? p id)) hscene
    exact hdue ▸ .nil _
  · rw [hnone]
    exact congrArg (fun s => (s.cells p).map Prod.fst) hscene

theorem hears_step (h : r.step m = some r') (hr : r.Registered p id) :
    ∃ h, r.Hears p id h r' := by
  obtain ⟨v, ids, hp, hid⟩ := hr.cell
  obtain ⟨x, hsaid, hback, hheld⟩ := (changes_step h).backlog hp hid
  obtain ⟨new, hnew⟩ := journal_step h
  have hx : new.filterMap Event.saying? = x.toList := by
    simp only [scene, World.scene, hnew, List.filterMap_append] at hsaid
    exact List.append_cancel_right hsaid
  have hconcern : new.reverse.filterMap (Event.concern? p id) =
      x.toList.filterMap (Saying.concern? p id) := by
    rw [filterMap_concern, List.filterMap_reverse, hx]
    cases x <;> rfl
  refine ⟨new.reverse, by rw [List.reverse_reverse, hnew], ?_, ?_⟩
  · rw [hconcern]
    exact hback
  · rw [hconcern]
    refine hheld.trans ?_
    rw [World.held?, hp]
    rfl

theorem Path.hears (h : r₀.Path m (Registered p id) r) : ∃ h, r₀.Hears p id h r := by
  induction h with
  | refl => exact ⟨[], rfl, .nil _, rfl⟩
  | step _ hr hs ih =>
    obtain ⟨h, hl⟩ := ih
    obtain ⟨h', hr⟩ := hears_step hs hr
    exact ⟨_, hl.trans hr⟩
  | turn _ ht ih =>
    obtain ⟨h, hl⟩ := ih
    obtain ⟨h', hr⟩ := hears_turn ht
    exact ⟨_, hl.trans hr⟩

end Run

/-! ### What observers know in the end -/

/-- **An observer that stays registered has been called last for the last write that was made while
it was not waiting for a call.** This is so for observers of cells and for observers of instances,
between any two moments at which no call of the observer is to come, such as the beginning and the
end of a write, or of a dispatch, that no observer makes. If no later write was made while it was
waiting for a call, what it has been told last is what is held. -/
theorem observers_concluded (α ν : Type) (m : Machine σ) :
    (∀ {a b : Agenda α ν} {h : List (CellEvent α ν)} {cell : String} {id : SubscriptionId},
      Agenda.Course (Agenda.Registered cell id) a h b → outstanding cell id a.tasks = [] →
        outstanding cell id b.tasks = [] →
          Concern.Concluded (concerns cell id h) ((b.world.view cell).map Prod.fst)) ∧
    ∀ {p : Spot} {id : SubscriptionId} {r₀ r : Run σ},
      r₀.Path m (Run.Registered p id) r → r₀.owed p id = [] → r.owed p id = [] →
        ∃ h : List (Event σ), r.world.journal = h.reverse ++ r₀.world.journal ∧
          Concern.Concluded (h.filterMap (Event.concern? p id)) (r.world.held? p) := by
  refine ⟨fun hc ha hb => hc.concluded ha hb, fun hpath h₀ hr => ?_⟩
  obtain ⟨h, hears⟩ := hpath.hears
  have hback := hears.backlog
  rw [h₀, hr] at hback
  refine ⟨h, hears.journal, hback.concluded fun hw => ?_⟩
  rw [hears.held, List.getLast?_eq_some_getLast hw]
  rfl

/-! ### Observers that are left behind -/

/-- The first observer of a cell writes it again when it is told of the first write. -/
def Agenda.echo : Agenda Nat Empty where
  world := { cells := .ofPairs [("c", ⟨0, []⟩)] }
  tasks := [.run (.subscribe "c" "first"
    (fun v => bif v == 1 then .set "c" 2 .done else .done)
    (.subscribe "c" "second" (fun _ => .done) (.set "c" 1 .done)))]

/-- What happens from the first write on, as long as it takes. -/
theorem Agenda.course_echo : Course (Registered "c" 1) (echo.steps 2)
    [.wrote "c" 1, .told "c" 0 1, .wrote "c" 2, .told "c" 0 2, .told "c" 1 2, .told "c" 1 1]
    (echo.steps 12) := by
  have hok : ∀ k < 10, Registered "c" 1 ((echo.steps 2).steps k) := fun k hk => by
    interval_cases k <;> rfl
  obtain ⟨h, hc⟩ := Course.steps hok
  have hh : h.reverse = [.told "c" 1 1, .told "c" 1 2, .told "c" 0 2, .wrote "c" 2,
      .told "c" 0 1, .wrote "c" 1] := List.append_cancel_right (hc.journal.symm.trans rfl)
  obtain rfl := List.reverse_eq_iff.1 hh
  exact hc

namespace Lamp

/-- The lamp with a thrifty observer, and with one more observer after it. -/
def observedTwice : Run sig :=
  (Run.ofCode observed.world
    (.watchState "lamp" "second" (fun _ => .finish .done) fun _ => .finish .done)).steps plain 5

theorem over_observedTwice : observedTwice.Over := Option.isSome_iff_exists.1 (by decide +kernel)

/-- The lamp is switched on, whereupon the first observer switches it off. -/
def saved : Run sig :=
  (Run.ofCode observedTwice.world (.send "lamp" () none .ofReply)).steps plain 60

theorem over_saved : saved.Over := Option.isSome_iff_exists.1 (by decide +kernel)

/-- The second observer stays registered meanwhile. -/
theorem path_saved : observedTwice.Path plain (Run.Registered (.state 0) 1) saved :=
  (Run.Path.refl.turn (over_observedTwice.turn_call _)).steps (by decide +kernel)

/-- The second observer of the lamp is told last that it is on. -/
theorem calls_saved {h : List (Event sig)}
    (hj : saved.world.journal = h.reverse ++ observedTwice.world.journal) :
    (Concern.calls (h.filterMap (Event.concern? (.state 0) 1))).getLast? =
      some (.state true) := by
  have hlength : h.reverse.length = 10 := by
    have hsaved : saved.world.journal.length = 12 := by decide +kernel
    have hbefore : observedTwice.world.journal.length = 2 := by decide +kernel
    rw [hj, List.length_append] at hsaved
    omega
  have htake : h.reverse = saved.world.journal.take 10 := by
    rw [hj, ← hlength, List.take_left]
  rw [List.reverse_eq_iff.1 htake]
  rfl

end Lamp

/-- The second observer of a cell knows of the outer write in the end, though the cell holds what
the first observer has written; the second observer of the lamp believes that it is on. -/
theorem echo_concluded :
    (∃ h, Agenda.Course (Agenda.Registered "c" 1) (Agenda.echo.steps 2) h (Agenda.echo.steps 12) ∧
      Concern.Concluded (concerns "c" 1 h) (some 2) ∧ callsOf "c" 1 h = [2, 1]) ∧
    ∃ h : List (Event Lamp.sig), Concern.Concluded (h.filterMap (Event.concern? (.state 0) 1))
      (some (.state false)) := by
  obtain ⟨hcells, hruns⟩ := observers_concluded Nat Empty Lamp.plain
  obtain ⟨h, -, hconcluded⟩ := hruns Lamp.path_saved rfl rfl
  exact ⟨⟨_, Agenda.course_echo, hcells Agenda.course_echo rfl rfl, rfl⟩, h, hconcluded⟩

/-- **A cell may end up with a value that one of its observers has not been told last**, and so may
the state variable of an instance. -/
theorem observers_left_behind :
    (¬ ∀ (w w' : CellWorld Nat Empty) (cell : String) (v : Nat) (next : CellCode Nat Empty)
      (h : List (CellEvent Nat Empty)) (id : SubscriptionId),
      Agenda.Course (Agenda.Registered cell id) ⟨w, [.run (.set cell v next)]⟩ h ⟨w', [.run next]⟩ →
        (callsOf cell id h).getLast? = (w'.view cell).map Prod.fst) ∧
    ¬ ∀ (m : Machine Lamp.sig) (r r' : Run Lamp.sig) (i : InstanceId) (id : SubscriptionId)
      (h : List (Event Lamp.sig)), r.Over → r'.Over →
        r.Path m (Run.Registered (.state i) id) r' →
          r'.world.journal = h.reverse ++ r.world.journal →
            (Concern.calls (h.filterMap (Event.concern? (.state i) id))).getLast? =
              r'.world.held? (.state i) := by
  constructor
  · intro hall
    have hcalls : some 1 = some 2 := hall _ _ "c" 1 .done _ 1 Agenda.course_echo
    cases hcalls
  · intro hall
    obtain ⟨h, hears⟩ := Lamp.path_saved.hears
    have hcalls := hall _ _ _ 0 1 h Lamp.over_observedTwice Lamp.over_saved
      Lamp.path_saved hears.journal
    rw [Lamp.calls_saved hears.journal] at hcalls
    have hheld : Lamp.saved.world.held? (.state 0) = some (.state false) := rfl
    cases hcalls.trans hheld

end Statechart
