import Statechart.Proofs.Cell.Register
import Statechart.Proofs.Run.Reach

/-!
What observers of instances have to do with: the state variables and contexts with the ids under
which they are observed, the writes and calls in the journal, and the calls that are still to come.
Everything else of a run is left out. A scene changes in few ways; they are listed here, and every
step is shown to be one of them elsewhere.
-/

namespace Statechart

variable {σ : Signature}

/-! ### What is looked at -/

/-- Where observers of an instance are registered: at its state variable, or at its context. -/
inductive Spot where
  | state (i : InstanceId)
  | context (i : InstanceId)
  deriving DecidableEq

/-- What is held at a spot. -/
inductive Value (σ : Signature) where
  | state (s : σ.State)
  | context (c : σ.Context)

/-- The call of an observer with a value. -/
structure Hail (σ : Signature) where
  spot : Spot
  id : SubscriptionId
  value : Value σ

def Notice.hail : Notice σ → Hail σ
  | .state i id s => ⟨.state i, id, .state s⟩
  | .context i id c => ⟨.context i, id, .context c⟩

/-- What is heard of observed values: that one has been written, or that an observer is called. -/
inductive Saying (σ : Signature) where
  | wrote (p : Spot) (v : Value σ)
  | told (n : Hail σ)

def Event.saying? : Event σ → Option (Saying σ)
  | .wrote i _ s _ _ => some (.wrote (.state i) (.state s))
  | .contextSet i _ c => some (.wrote (.context i) (.context c))
  | .toldState i id s => some (.told ⟨.state i, id, .state s⟩)
  | .toldContext i id c => some (.told ⟨.context i, id, .context c⟩)
  | _ => none

theorem Notice.saying?_event (n : Notice σ) : n.event.saying? = some (.told n.hail) := by
  cases n <;> rfl

/-- The calls that a frame is still to make. -/
def Frame.hails : Frame σ → List (Hail σ)
  | .notifying calls => calls.map fun c => c.1.hail
  | _ => []

def hailsOf (stack : List (Frame σ)) : List (Hail σ) := stack.flatMap Frame.hails

theorem hailsOf_notifying (calls : List (Notice σ × Code σ)) (stack : List (Frame σ)) :
    hailsOf (.notifying calls :: stack) = calls.map (fun c => c.1.hail) ++ hailsOf stack := rfl

/-- What is held at a spot, and the ids under which it is observed, in order. -/
def World.cell? (w : World σ) : Spot → Option (Value σ × List SubscriptionId)
  | .state i => (w.instances.get? i).map fun inst =>
      (.state inst.state.value, inst.state.observers.map Prod.fst)
  | .context i => (w.instances.get? i).map fun inst =>
      (.context inst.context.value, inst.context.observers.map Prod.fst)

/-- What is held at a spot. -/
def World.held? (w : World σ) (p : Spot) : Option (Value σ) := (w.cell? p).map Prod.fst

/-- The ids under which a spot is observed, in order. -/
def World.ids (w : World σ) (p : Spot) : List SubscriptionId := ((w.cell? p).map Prod.snd).getD []

/-- What is observed at one moment. -/
@[ext]
structure Scene (σ : Signature) where
  cells : Spot → Option (Value σ × List SubscriptionId)
  /-- The id of the next subscription. -/
  next : SubscriptionId
  /-- The calls that are still to be made, in order. -/
  due : List (Hail σ)
  /-- What has been heard, the latest first. -/
  said : List (Saying σ)

/-- What is observed in a world in which the calls `due` are still to be made. -/
def World.scene (w : World σ) (due : List (Hail σ)) : Scene σ :=
  ⟨w.cell?, w.nextSubscription, due, w.journal.filterMap Event.saying?⟩

def Run.scene (r : Run σ) : Scene σ := r.world.scene (hailsOf r.stack)

/-! ### Changes of a scene -/

namespace Scene

def put (s : Scene σ) (p : Spot) (c : Value σ × List SubscriptionId) : Scene σ :=
  { s with cells := Function.update s.cells p (some c) }

/-- What a write leaves at a spot that is observed under `ids`. -/
def write (s : Scene σ) (p : Spot) (v : Value σ) (ids : List SubscriptionId) : Scene σ :=
  { s.put p (v, ids) with
    due := ids.map (fun id => ⟨p, id, v⟩) ++ s.due
    said := .wrote p v :: s.said }

/-- **How a scene changes**, with what the change means for the ids. -/
inductive Change : Scene σ → Option (Entry Spot) → Scene σ → Prop
  | quiet {s : Scene σ} : Change s none s
  | placed {s : Scene σ} {i : InstanceId} {v : σ.State} {c : σ.Context}
      (hs : s.cells (.state i) = none) (hc : s.cells (.context i) = none) :
      Change s none ((s.put (.state i) (.state v, [])).put (.context i) (.context c, []))
  | wrote {s : Scene σ} {p : Spot} {u v : Value σ} {ids : List SubscriptionId}
      (h : s.cells p = some (u, ids)) : Change s none (s.write p v ids)
  | told {s : Scene σ} {n : Hail σ} {due : List (Hail σ)} (h : s.due = n :: due) :
      Change s none { s with due, said := .told n :: s.said }
  | watched {s : Scene σ} {p : Spot} {v : Value σ} {ids : List SubscriptionId}
      (h : s.cells p = some (v, ids)) :
      Change s (some (.subscribed p s.next))
        { s.put p (v, ids ++ [s.next]) with next := s.next + 1 }
  /-- Nobody can subscribe to what is not there, but an id is given all the same. -/
  | missed {s : Scene σ} {p : Spot} (h : s.cells p = none) :
      Change s (some (.subscribed p s.next)) { s with next := s.next + 1 }
  | unwatched {s : Scene σ} {p : Spot} {v : Value σ} {ids : List SubscriptionId}
      {id : SubscriptionId} (h : s.cells p = some (v, ids)) (hid : id ∈ ids) :
      Change s (some (.removed p id)) (s.put p (v, ids.filter fun id' => id' ≠ id))

theorem Change.congr {s s' s'' : Scene σ} {e : Option (Entry Spot)} (h : s.Change e s')
    (hs : s'' = s') : s.Change e s'' := hs ▸ h

end Scene

/-! ### The scene of a changed world -/

namespace World

variable {w : World σ} {i : InstanceId} {inst : Instance σ} {due : List (Hail σ)}

theorem scene_silent {e : Event σ} (h : e.saying? = none) :
    (w.record e).scene due = w.scene due := by
  unfold scene record
  rw [List.filterMap_cons_none h]
  rfl

theorem scene_saying {e : Event σ} {x : Saying σ} (h : e.saying? = some x) :
    (w.record e).scene due = { w.scene due with said := x :: (w.scene due).said } := by
  unfold scene record
  rw [List.filterMap_cons_some h]
  rfl

/-- A change of an instance that leaves its cells alone does not show. -/
theorem scene_modifyInstance_same {f : Instance σ → Instance σ}
    (hs : ∀ inst, (f inst).state = inst.state) (hc : ∀ inst, (f inst).context = inst.context) :
    (w.modifyInstance i f).scene due = w.scene due := by
  have hcell : (w.modifyInstance i f).cell? = w.cell? := by
    funext p
    cases p <;>
    · simp only [cell?, modifyInstance, Roster.get?_modify]
      split
      · next h =>
        subst h
        rw [Option.map_map]
        congr 1
        funext inst
        simp only [Function.comp_def, hs, hc]
      · rfl
  unfold scene
  rw [hcell]
  rfl

theorem cell?_modifyState (hi : w.instances.get? i = some inst)
    (g : Cell σ.State (σ.State → Code σ) → Cell σ.State (σ.State → Code σ)) :
    (w.modifyInstance i fun inst => { inst with state := g inst.state }).cell? =
      Function.update w.cell? (.state i)
        (some (.state (g inst.state).value, (g inst.state).observers.map Prod.fst)) := by
  funext p
  cases p with
  | state j | context j =>
    by_cases h : j = i
    · subst h
      simp [cell?, modifyInstance, Roster.get?_modify, hi]
    · simp [cell?, modifyInstance, Roster.get?_modify, h]

theorem cell?_modifyContext (hi : w.instances.get? i = some inst)
    (g : Cell σ.Context (σ.Context → Code σ) → Cell σ.Context (σ.Context → Code σ)) :
    (w.modifyInstance i fun inst => { inst with context := g inst.context }).cell? =
      Function.update w.cell? (.context i)
        (some (.context (g inst.context).value, (g inst.context).observers.map Prod.fst)) := by
  funext p
  cases p with
  | state j | context j =>
    by_cases h : j = i
    · subst h
      simp [cell?, modifyInstance, Roster.get?_modify, hi]
    · simp [cell?, modifyInstance, Roster.get?_modify, h]

/-- There is nothing to change in an instance that is not there. -/
theorem cell?_modifyAbsent (hi : w.instances.get? i = none) (f : Instance σ → Instance σ) :
    (w.modifyInstance i f).cell? = w.cell? := by
  funext p
  cases p <;>
  · simp only [cell?, modifyInstance, Roster.get?_modify]
    split
    · next h =>
      subst h
      rw [hi]
      rfl
    · rfl

theorem scene_fireWaker (x : Waker) : (w.fireWaker x).scene due = w.scene due := by
  cases x with
  | idle => rfl
  | task t =>
    change (w.wake t).scene due = _
    unfold wake
    split <;> rfl

theorem scene_wakers (xs : List Waker) : (xs.foldl fireWaker w).scene due = w.scene due := by
  induction xs generalizing w with
  | nil => rfl
  | cons x xs ih => rw [List.foldl_cons, ih, scene_fireWaker]

theorem cell?_push (s : σ.State) (c : σ.Context) :
    cell? { w with instances := w.instances.push ⟨⟨s, []⟩, ⟨c, []⟩, none⟩ } =
      Function.update (Function.update w.cell? (.state w.instances.size) (some (.state s, [])))
        (.context w.instances.size) (some (.context c, [])) := by
  funext p
  cases p with
  | state j | context j =>
    by_cases h : j = w.instances.size <;> simp [cell?, Roster.get?_push, Function.update, h]

end World

end Statechart
