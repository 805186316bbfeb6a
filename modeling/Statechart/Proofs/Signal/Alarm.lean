import Statechart.Signal
import Mathlib.Tactic.Common

/-!
What comes of a signal. Observers are set and cleared, polls wait and aborts are asked for, by
whoever holds the signal and in any order, in the middle of an abort as well: by its observer, or by
those whom it wakes. Only the first abort does anything. It runs the observer that is in the slot,
and wakes those who wait when the observer has returned.
-/

namespace Statechart

/-- What is done to a signal, and what comes of it. -/
inductive Stroke (β : Type) where
  | set (b : β)
  | cleared
  | polled (w : Waker)
  | aborted
  /-- An observer is run. -/
  | ran (b : β)
  /-- The observer has returned, or there is none. -/
  | observed
  | woken (w : Waker)

/-- What an abort has still to do. -/
inductive Chore (β : Type) where
  | run (b : β)
  /-- To go on when the observer has returned. -/
  | wait
  | wake (w : Waker)

/-- A signal, with what its aborts have still to do, in order. -/
structure Alarm (β : Type) where
  signal : Signal β := {}
  chores : List (Chore β) := []

variable {β : Type}

/-- What an abort of the signal has to do: nothing, if the signal has fired already. -/
def Signal.chores (s : Signal β) : List (Chore β) :=
  if s.aborted then [] else s.fired.toList.map .run ++ .wait :: s.woken.map .wake

namespace Stroke

variable {e : Stroke β}

/-- Whether something is done to the signal, and does not come of it. -/
def isDeed : Stroke β → Bool
  | set _ | cleared | polled _ | aborted => true
  | _ => false

def isAbort : Stroke β → Bool
  | aborted => true
  | _ => false

def isWoken : Stroke β → Bool
  | woken _ => true
  | _ => false

/-- What a deed leaves in the slot, if it has to do with the slot. -/
def seat? : Stroke β → Option (Option β)
  | set b => some (some b)
  | cleared => some none
  | _ => none

def ran? : Stroke β → Option β
  | ran b => some b
  | _ => none

theorem ran?_of_deed (h : e.isDeed = true) : e.ran? = none := by
  cases e <;> first | rfl | cases h

theorem ran?_of_woken (h : e.isWoken = true) : e.ran? = none := by
  cases e <;> first | rfl | cases h

end Stroke

/-- What happens when a chore is done. -/
def Chore.stroke : Chore β → Stroke β
  | run b => .ran b
  | wait => .observed
  | wake w => .woken w

/-- The observer that was set last, unless it has been cleared since. -/
def seated (h : List (Stroke β)) : Option β := (h.filterMap Stroke.seat?).getLast?.join

/-- The observers that have been run, in order. -/
def ranIn (h : List (Stroke β)) : List β := h.filterMap Stroke.ran?

theorem ranIn_append (h h' : List (Stroke β)) : ranIn (h ++ h') = ranIn h ++ ranIn h' :=
  List.filterMap_append

theorem ranIn_eq_nil {h : List (Stroke β)} (hh : ∀ e ∈ h, e.ran? = none) : ranIn h = [] :=
  List.filterMap_eq_nil_iff.2 hh

theorem ranIn_ran (o : Option β) : ranIn (o.toList.map .ran) = o.toList := by
  cases o <;> rfl

namespace Alarm

variable {s s' s'' : Alarm β} {h h' : List (Stroke β)} {e : Stroke β}

/-- The observer of an abort is not about to run: nothing comes between the abort and its run. -/
def Free (s : Alarm β) : Prop := ∀ b rest, s.chores ≠ .run b :: rest

/-- **What comes next of a signal.** -/
inductive Next : Alarm β → Stroke β → Alarm β → Prop
  | set {s : Alarm β} (b : β) (hs : s.Free) :
      Next s (.set b) { s with signal := s.signal.setObserver b }
  | clear {s : Alarm β} (hs : s.Free) :
      Next s .cleared { s with signal := s.signal.clearObserver }
  | poll {s : Alarm β} (w : Waker) (hs : s.Free) :
      Next s (.polled w) { s with signal := s.signal.register w }
  | abort {s : Alarm β} (hs : s.Free) :
      Next s .aborted ⟨s.signal.fire, s.signal.chores ++ s.chores⟩
  | chore {g : Signal β} {c : Chore β} {rest : List (Chore β)} :
      Next ⟨g, c :: rest⟩ c.stroke ⟨g, rest⟩

/-- What comes of a signal in the course of time. -/
inductive Course (s : Alarm β) : List (Stroke β) → Alarm β → Prop
  | refl : Course s [] s
  | snoc {h : List (Stroke β)} {s' s'' : Alarm β} {e : Stroke β} (hc : Course s h s')
      (hn : Next s' e s'') : Course s (h ++ [e]) s''

theorem Course.trans (hc : Course s h s') (hc' : Course s' h' s'') : Course s (h ++ h') s'' := by
  induction hc' with
  | refl => simpa using hc
  | snoc _ hn ih => simpa using ih.snoc hn

/-! ### Before and after the first abort -/

/-- A signal that has not fired: the slot holds the observer that was set last, and none has been
run. -/
structure Waiting (h : List (Stroke β)) (s : Alarm β) : Prop where
  deeds : ∀ e ∈ h, e.isDeed = true ∧ e.isAbort = false
  aborted : s.signal.aborted = false
  seated : s.signal.observer = seated h
  chores : s.chores = []

/-- **What has happened since the first abort**, and what it has still to do, where `o` was in the
slot: the observer is run at once, and when it has returned, those who waited are woken. -/
inductive Stage (o : Option β) : List (Stroke β) → List (Chore β) → Prop
  | firing {b : β} {ws : List Waker} (ho : o = some b) :
      Stage o [] (.run b :: .wait :: ws.map .wake)
  | observing {during : List (Stroke β)} {ws : List Waker}
      (hd : ∀ e ∈ during, e.isDeed = true) :
      Stage o (o.toList.map .ran ++ during) (.wait :: ws.map .wake)
  | rousing {during rest : List (Stroke β)} {ws : List Waker}
      (hd : ∀ e ∈ during, e.isDeed = true)
      (hr : ∀ e ∈ rest, e.isDeed = true ∨ e.isWoken = true) :
      Stage o (o.toList.map .ran ++ during ++ .observed :: rest) (ws.map .wake)

/-- The observer that is about to run. -/
def due (s : Alarm β) : List β := s.chores.filterMap fun c => c.stroke.ran?

/-- A signal that has fired: it stays so, and its slot stays empty. -/
structure Fired (before after : List (Stroke β)) (s : Alarm β) : Prop where
  deeds : ∀ e ∈ before, e.isDeed = true ∧ e.isAbort = false
  aborted : s.signal.aborted = true
  vacant : s.signal.observer = none
  stage : Stage (Statechart.seated before) after s.chores
  /-- The observer that was in the slot is the only one ever run, and it is run once. -/
  ran : ranIn (before ++ .aborted :: after) ++ s.due = (Statechart.seated before).toList

/-- What is told of the history of a signal. -/
def Told (h : List (Stroke β)) (s : Alarm β) : Prop :=
  s.Waiting h ∨ ∃ before after, h = before ++ .aborted :: after ∧ s.Fired before after

theorem seated_snoc (h : List (Stroke β)) (e : Stroke β) :
    Statechart.seated (h ++ [e]) = (e.seat?).getD (Statechart.seated h) := by
  cases e <;> simp [Statechart.seated, Stroke.seat?]

theorem forall_mem_snoc {p : Stroke β → Prop} (hh : ∀ x ∈ h, p x) (he : p e) :
    ∀ x ∈ h ++ [e], p x :=
  List.forall_mem_append.2 ⟨hh, List.forall_mem_singleton.2 he⟩

namespace Stage

variable {o : Option β} {after : List (Stroke β)} {c : Chore β} {cs cs' : List (Chore β)}

/-- The observer has just been run, if there is one. -/
theorem begun (o : Option β) (ws : List Waker) :
    Stage o (o.toList.map .ran) (.wait :: ws.map .wake) := by
  have h : Stage o (o.toList.map .ran ++ []) (.wait :: ws.map .wake) := .observing (by simp)
  rwa [List.append_nil] at h

/-- What is done to a signal that has fired does not bring an abort forward. -/
theorem deed (hs : Stage o after cs) (hfree : ∀ b rest, cs ≠ .run b :: rest)
    (he : e.isDeed = true) : Stage o (after ++ [e]) cs := by
  cases hs with
  | firing => exact absurd rfl (hfree _ _)
  | observing hd =>
    rw [List.append_assoc]
    exact .observing (forall_mem_snoc hd he)
  | rousing hd hr =>
    rw [List.append_assoc, List.cons_append]
    exact .rousing hd (forall_mem_snoc hr (.inl he))

theorem chore (hs : Stage o after cs) (hc : cs = c :: cs') :
    Stage o (after ++ [c.stroke]) cs' := by
  cases hs with
  | firing ho =>
    obtain ⟨rfl, rfl⟩ := List.cons.inj hc
    subst ho
    exact begun (some _) _
  | observing hd =>
    obtain ⟨rfl, rfl⟩ := List.cons.inj hc
    exact .rousing hd (by simp)
  | @rousing during rest ws hd hr =>
    cases ws with
    | nil => cases hc
    | cons w ws =>
      obtain ⟨rfl, rfl⟩ := List.cons.inj hc
      rw [List.append_assoc, List.cons_append]
      exact .rousing hd (forall_mem_snoc hr (.inr rfl))

/-- The observer that was in the slot is run once, unless it is about to run. -/
theorem ran (hs : Stage o after cs) :
    ranIn after ++ cs.filterMap (fun c => c.stroke.ran?) = o.toList := by
  have hwakes (ws : List Waker) :
      (ws.map .wake).filterMap (fun c : Chore β => c.stroke.ran?) = [] := by
    simp [Chore.stroke, Stroke.ran?]
  cases hs with
  | @firing b ws ho =>
    subst ho
    exact congrArg (b :: ·) (hwakes ws)
  | @observing during ws hd =>
    rw [ranIn_append, ranIn_ran, ranIn_eq_nil fun e he => Stroke.ran?_of_deed (hd e he),
      List.append_nil]
    exact (congrArg (o.toList ++ ·) (hwakes ws)).trans (List.append_nil _)
  | @rousing during rest ws hd hr =>
    have hrest : ranIn (.observed :: rest) = [] := ranIn_eq_nil fun e he => by
      rcases List.mem_cons.1 he with rfl | he
      · rfl
      · exact (hr e he).elim Stroke.ran?_of_deed Stroke.ran?_of_woken
    rw [ranIn_append, ranIn_append, ranIn_ran, hrest, hwakes,
      ranIn_eq_nil fun e he => Stroke.ran?_of_deed (hd e he)]
    simp

end Stage

theorem Fired.of_stage {before after : List (Stroke β)}
    (hd : ∀ e ∈ before, e.isDeed = true ∧ e.isAbort = false) (ha : s.signal.aborted = true)
    (hv : s.signal.observer = none) (hs : Stage (Statechart.seated before) after s.chores) :
    s.Fired before after where
  deeds := hd
  aborted := ha
  vacant := hv
  stage := hs
  ran := by
    have hnone : ranIn before = [] := ranIn_eq_nil fun e he => Stroke.ran?_of_deed (hd e he).1
    rw [ranIn_append, hnone]
    exact hs.ran

/-- A signal that has not fired waits on, or fires. -/
theorem Waiting.told (hw : s.Waiting h) (hn : Next s e s') : s'.Told (h ++ [e]) := by
  obtain ⟨hdeeds, hab, hseat, hchores⟩ := hw
  have hflag : ¬ s.signal.aborted = true := by simp [hab]
  have still {g : Signal β} (he : e.isDeed = true ∧ e.isAbort = false) (hg : g.aborted = false)
      (ho : g.observer = Statechart.seated (h ++ [e])) : Told (h ++ [e]) { s with signal := g } :=
    .inl ⟨forall_mem_snoc hdeeds he, hg, ho, hchores⟩
  cases hn with
  | set b =>
    refine still ⟨rfl, rfl⟩ ((s.signal.aborted_setObserver b).trans hab) ?_
    rw [seated_snoc, Signal.setObserver, if_neg hflag]
    rfl
  | clear =>
    refine still ⟨rfl, rfl⟩ hab ?_
    rw [seated_snoc]
    rfl
  | poll w =>
    refine still ⟨rfl, rfl⟩ ((s.signal.aborted_register w).trans hab) ?_
    rw [seated_snoc, Signal.observer_register]
    exact hseat
  | abort =>
    refine .inr ⟨h, [], rfl, .of_stage hdeeds (Signal.aborted_fire _) ?_ ?_⟩
    · rw [Signal.fire, if_neg hflag]
    · rw [hchores, List.append_nil, Signal.chores, if_neg hflag, Signal.fired, if_neg hflag, hseat]
      cases ho : Statechart.seated h with
      | none => exact .begun none _
      | some b => exact .firing rfl
  | chore => cases hchores

/-- Once a signal has fired, it stays so, and its slot stays empty. -/
theorem Fired.next {before after : List (Stroke β)} (hf : s.Fired before after) (hn : Next s e s') :
    s'.Fired before (after ++ [e]) := by
  obtain ⟨hdeeds, hab, hvacant, hstage, -⟩ := hf
  cases hn with
  | set b hs =>
    have hset : s.signal.setObserver b = s.signal := if_pos hab
    exact .of_stage hdeeds (by rwa [hset]) (by rwa [hset]) (hstage.deed hs rfl)
  | clear hs => exact .of_stage hdeeds hab rfl (hstage.deed hs rfl)
  | poll w hs =>
    exact .of_stage hdeeds ((s.signal.aborted_register w).trans hab)
      ((s.signal.observer_register w).trans hvacant) (hstage.deed hs rfl)
  | abort hs =>
    have hfire : s.signal.fire = s.signal := if_pos hab
    have hnone : s.signal.chores = [] := if_pos hab
    refine .of_stage hdeeds (by rwa [hfire]) (by rwa [hfire]) ?_
    rw [hnone]
    exact hstage.deed hs rfl
  | chore => exact .of_stage hdeeds hab hvacant (hstage.chore rfl)

/-- **What is told of every history of a signal.** -/
theorem Course.told (hc : Course {} h s) : s.Told h := by
  induction hc with
  | refl => exact .inl ⟨by simp, rfl, rfl, rfl⟩
  | snoc _ hn ih =>
    rcases ih with hw | ⟨before, after, rfl, hf⟩
    · exact hw.told hn
    · exact .inr ⟨before, after ++ [_], by simp, hf.next hn⟩

end Alarm

end Statechart
