import Statechart.Cell
import Mathlib.Data.List.Perm.Basic
import Mathlib.Logic.Function.Basic
import Mathlib.Tactic.IntervalCases

/-!
Whom a write of a cell reaches. Observers may read, write, subscribe and unsubscribe in the middle
of the calls for a write, so that the calls for several writes nest; still, what has happened by
the time a write returns is, for every write in it, the calls of those who were registered when it
was made, one each and in their order.
-/

namespace Statechart

variable {α ν : Type}

/-! ### What is seen of cells -/

/-- What the cells hold, and the ids under which they are observed, in order. -/
abbrev CellView (α : Type) : Type := String → Option (α × List SubscriptionId)

def CellWorld.view (w : CellWorld α ν) : CellView α := fun cell =>
  (w.cells.get? cell).map fun c => (c.value, c.observers.map Prod.fst)

namespace CellView

/-- The ids under which a cell is observed. -/
def ids (s : CellView α) (cell : String) : List SubscriptionId := ((s cell).map Prod.snd).getD []

/-- What an event leaves. -/
def after (s : CellView α) : CellEvent α ν → CellView α
  | .note _ | .told .. => s
  | .wrote cell v => Function.update s cell ((s cell).map fun c => (v, c.2))
  | .subscribed cell id => Function.update s cell ((s cell).map fun c => (c.1, c.2 ++ [id]))
  | .removed cell id =>
    Function.update s cell ((s cell).map fun c => (c.1, c.2.filter fun id' => id' ≠ id))

/-- What a history leaves. -/
def past (s : CellView α) (h : List (CellEvent α ν)) : CellView α := h.foldl after s

@[simp] theorem past_nil (s : CellView α) : s.past ([] : List (CellEvent α ν)) = s := rfl

@[simp] theorem past_cons (s : CellView α) (e : CellEvent α ν) (h : List (CellEvent α ν)) :
    s.past (e :: h) = (s.after e).past h := rfl

theorem past_append (s : CellView α) (h h' : List (CellEvent α ν)) :
    s.past (h ++ h') = (s.past h).past h' := List.foldl_append ..

end CellView

/-! ### Histories in which every write is delivered -/

/-- Neither a write nor a call. -/
def CellEvent.Quiet : CellEvent α ν → Prop
  | .wrote .. | .told .. => False
  | _ => True

mutual

/-- **A history in which every write is followed by its calls**, those of the observers that the
cell has at that moment. -/
inductive Delivered : CellView α → List (CellEvent α ν) → Prop
  | nil (s : CellView α) : Delivered s []
  | quiet {s : CellView α} {e : CellEvent α ν} {h : List (CellEvent α ν)} (he : e.Quiet)
      (hh : Delivered (s.after e) h) : Delivered s (e :: h)
  | wrote {s : CellView α} {cell : String} {v : α} {calls h : List (CellEvent α ν)}
      (hc : Calls cell v (s.ids cell) (s.after (.wrote cell v : CellEvent α ν)) calls)
      (hh : Delivered ((s.after (.wrote cell v : CellEvent α ν)).past calls) h) :
      Delivered s (.wrote cell v :: (calls ++ h))

/-- **The calls for one write**, one for each of `ids` in order and all with the value written. In
the course of each, every write that it makes is delivered. -/
inductive Calls : String → α → List SubscriptionId → CellView α → List (CellEvent α ν) → Prop
  | nil (cell : String) (v : α) (s : CellView α) : Calls cell v [] s []
  | told {cell : String} {v : α} {id : SubscriptionId} {ids : List SubscriptionId}
      {s : CellView α} {during rest : List (CellEvent α ν)} (hd : Delivered s during)
      (hr : Calls cell v ids (s.past during) rest) :
      Calls cell v (id :: ids) s (.told cell id v :: (during ++ rest))

end

theorem Delivered.quiet? {s : CellView α} {e : Option (CellEvent α ν)} {h : List (CellEvent α ν)}
    (he : ∀ e' ∈ e, e'.Quiet) (hh : Delivered (s.past e.toList) h) :
    Delivered s (e.toList ++ h) := by
  cases e with
  | none => exact hh
  | some e => exact .quiet (he e rfl) hh

/-! ### Writes and calls of a history -/

/-- The values written to a cell, in order. -/
def writesTo (cell : String) (h : List (CellEvent α ν)) : List α :=
  h.filterMap fun
    | .wrote cell' v => if cell' = cell then some v else none
    | _ => none

/-- The values with which an observer of a cell is called, in order. -/
def callsOf (cell : String) (id : SubscriptionId) (h : List (CellEvent α ν)) : List α :=
  h.filterMap fun
    | .told cell' id' v => if cell' = cell ∧ id' = id then some v else none
    | _ => none

/-- The values written to a cell while an observer is registered, in order, each as often as the
observer is. -/
def owedTo (cell : String) (id : SubscriptionId) : CellView α → List (CellEvent α ν) → List α
  | _, [] => []
  | s, .wrote cell' v :: h =>
    (if cell' = cell then .replicate ((s.ids cell').count id) v else []) ++
      owedTo cell id (s.after (.wrote cell' v : CellEvent α ν)) h
  | s, e :: h => owedTo cell id (s.after e) h

/-- The values with which an observer of a cell is still to be called, in order. -/
def outstanding (cell : String) (id : SubscriptionId) (ts : List (CellTask α ν)) : List α :=
  ts.filterMap fun
    | .tell cell' id' v _ => if cell' = cell ∧ id' = id then some v else none
    | _ => none

/-! ### Courses of agendas -/

namespace Agenda

variable {a a' b c : Agenda α ν} {w : CellWorld α ν} {h h' : List (CellEvent α ν)}
  {ok : Agenda α ν → Prop} {cell : String} {id : SubscriptionId} {v : α}

/-- The calls of observers with a value. -/
def tells (cell : String) (v : α) (observers : List (SubscriptionId × (α → CellCode α ν))) :
    List (CellTask α ν) :=
  observers.map fun o => .tell cell o.1 v o.2

@[simp] theorem tells_nil : tells cell v ([] : List (SubscriptionId × (α → CellCode α ν))) = [] :=
  rfl

@[simp] theorem tells_cons (o : SubscriptionId × (α → CellCode α ν))
    (observers : List (SubscriptionId × (α → CellCode α ν))) :
    tells cell v (o :: observers) = .tell cell o.1 v o.2 :: tells cell v observers := rfl

/-- What comes next: a step; or the code at hand is other code, for what observers do may depend on
more than what they are told. -/
inductive Next : Agenda α ν → Agenda α ν → Prop
  | step {a a' : Agenda α ν} (h : a.step = some a') : Next a a'
  | turn {w : CellWorld α ν} {rest : List (CellTask α ν)} (code code' : CellCode α ν) :
      Next ⟨w, .run code :: rest⟩ ⟨w, .run code' :: rest⟩

/-- From one agenda to another, through agendas that `ok` admits, with the history of the way. -/
inductive Course (ok : Agenda α ν → Prop) :
    Agenda α ν → List (CellEvent α ν) → Agenda α ν → Prop
  | refl (a : Agenda α ν) : Course ok a [] a
  | head {a b c : Agenda α ν} {e : Option (CellEvent α ν)} {h : List (CellEvent α ν)} (hok : ok a)
      (hn : Next a b) (hj : b.world.journal = e.toList ++ a.world.journal) (hc : Course ok b h c) :
      Course ok a (e.toList ++ h) c

/-- More is to be done than `rest`. -/
def Above (rest : List (CellTask α ν)) (a : Agenda α ν) : Prop := ∃ t ts, a.tasks = t :: ts ++ rest

/-- The observer is the first one of the cell, and is registered once. -/
def Foremost (cell : String) (id : SubscriptionId) (a : Agenda α ν) : Prop :=
  ∃ ids, a.world.view.ids cell = id :: ids ∧ id ∉ ids

/-- **What comes next of an agenda**, with the event of it if there is one. -/
inductive Deed : Agenda α ν → Option (CellEvent α ν) → Agenda α ν → Prop
  | quiet {w w' : CellWorld α ν} {e : Option (CellEvent α ν)} {rest : List (CellTask α ν)}
      (code code' : CellCode α ν) (he : ∀ e' ∈ e, e'.Quiet)
      (hs : w'.view = w.view.past e.toList) :
      Deed ⟨w, .run code :: rest⟩ e ⟨w', .run code' :: rest⟩
  | ended {w : CellWorld α ν} {rest : List (CellTask α ν)} :
      Deed ⟨w, .run .done :: rest⟩ none ⟨w, rest⟩
  | wrote {w w' : CellWorld α ν} {cell : String} {v : α} {c : Cell α (α → CellCode α ν)}
      {rest : List (CellTask α ν)} (code next : CellCode α ν)
      (hc : w.cells.get? cell = some c)
      (hs : w'.view = w.view.after (.wrote cell v : CellEvent α ν)) :
      Deed ⟨w, .run code :: rest⟩ (some (.wrote cell v))
        ⟨w', tells cell v c.observers ++ .run next :: rest⟩
  | told {w w' : CellWorld α ν} {cell : String} {id : SubscriptionId} {v : α}
      {rest : List (CellTask α ν)} (observer : α → CellCode α ν)
      (hs : w'.view = w.view) :
      Deed ⟨w, .tell cell id v observer :: rest⟩ (some (.told cell id v))
        ⟨w', .run (observer v) :: rest⟩

theorem view_put (w : CellWorld α ν) (cell : String) (c : Cell α (α → CellCode α ν)) :
    (w.put cell c).view =
      Function.update w.view cell (some (c.value, c.observers.map Prod.fst)) := by
  funext cell'
  by_cases h : cell = cell'
  · subst h
    simp [CellWorld.view, CellWorld.put]
  · simp [CellWorld.view, CellWorld.put, Table.get?_insert, h, Function.update_of_ne (Ne.symm h)]

theorem view_of_get {w : CellWorld α ν} {c : Cell α (α → CellCode α ν)}
    (h : w.cells.get? cell = some c) :
    w.view cell = some (c.value, c.observers.map Prod.fst) := by
  simp [CellWorld.view, h]

theorem ids_of_get {w : CellWorld α ν} {c : Cell α (α → CellCode α ν)}
    (h : w.cells.get? cell = some c) : w.view.ids cell = c.observers.map Prod.fst := by
  simp [CellView.ids, view_of_get h]

theorem view_write {w : CellWorld α ν} {c : Cell α (α → CellCode α ν)}
    (h : w.cells.get? cell = some c) :
    ((w.put cell (c.write v)).record (.wrote cell v)).view =
      w.view.after (.wrote cell v : CellEvent α ν) :=
  (view_put w cell (c.write v)).trans (by simp [CellView.after, view_of_get h, Cell.write])

/-- What code does first, with its event. -/
theorem deed_perform (w : CellWorld α ν) (rest : List (CellTask α ν)) (code : CellCode α ν) :
    ∃ e, Deed ⟨w, .run code :: rest⟩ e (w.perform rest code) ∧
      (w.perform rest code).world.journal = e.toList ++ w.journal := by
  have still : ∀ code', ∃ e, Deed ⟨w, .run code :: rest⟩ e ⟨w, .run code' :: rest⟩ ∧
      w.journal = e.toList ++ w.journal := fun code' => ⟨none, .quiet _ _ (by simp) rfl, rfl⟩
  cases code with
  | done => exact ⟨none, .ended, rfl⟩
  | emit n next => exact ⟨some (.note n), .quiet _ _ (by simp [CellEvent.Quiet]) rfl, rfl⟩
  | look cell next => exact still _
  | named name next => exact still _
  | set cell v next =>
    cases hc : w.cells.get? cell with
    | none => simpa only [CellWorld.perform, hc] using still next
    | some c =>
      simp only [CellWorld.perform, hc]
      exact ⟨some (.wrote cell v), .wrote _ _ hc (view_write hc), rfl⟩
  | subscribe cell name observer next =>
    cases hc : w.cells.get? cell with
    | none => simpa only [CellWorld.perform, hc] using still next
    | some c =>
      simp only [CellWorld.perform, hc]
      refine ⟨some (.subscribed cell w.nextSubscription),
        .quiet _ _ (by simp [CellEvent.Quiet]) ?_, rfl⟩
      exact (view_put w cell (c.subscribe w.nextSubscription observer)).trans
        (by simp [CellView.after, view_of_get hc, Cell.subscribe])
  | unsubscribe cell name next =>
    cases hc : w.cells.get? cell with
    | none => simpa only [CellWorld.perform, hc] using still (next none)
    | some c =>
      cases hn : w.names.get? name with
      | none => simpa only [CellWorld.perform, hc, hn] using still (next none)
      | some id =>
        simp only [CellWorld.perform, hc, hn]
        split
        · refine ⟨some (.removed cell id), .quiet _ _ (by simp [CellEvent.Quiet]) ?_, rfl⟩
          exact (view_put w cell (c.unsubscribe id)).trans
            (by simp [CellView.after, view_of_get hc, Cell.unsubscribe, List.filter_map,
              Function.comp_def])
        · exact still _

theorem Next.exists_deed (hn : Next a b) :
    ∃ e, Deed a e b ∧ b.world.journal = e.toList ++ a.world.journal := by
  cases hn with
  | turn code code' => exact ⟨none, .quiet _ _ (by simp) rfl, rfl⟩
  | step h =>
    obtain ⟨w, ts⟩ := a
    match ts, h with
    | .run code :: rest, h =>
      cases h
      exact deed_perform w rest code
    | .tell cell id v observer :: rest, h =>
      cases h
      exact ⟨some (.told cell id v), .told observer rfl, rfl⟩

theorem Next.deed {e : Option (CellEvent α ν)} (hn : Next a b)
    (hj : b.world.journal = e.toList ++ a.world.journal) : Deed a e b := by
  obtain ⟨e', hd, hj'⟩ := hn.exists_deed
  obtain rfl : e' = e := by
    have := List.append_cancel_right (hj'.symm.trans hj)
    cases e <;> cases e' <;> simp_all
  exact hd

theorem Deed.view {e : Option (CellEvent α ν)} (h : Deed a e b) :
    b.world.view = a.world.view.past e.toList := by
  cases h with
  | quiet _ _ _ hs => exact hs
  | ended => rfl
  | wrote _ _ _ hs => exact hs
  | told _ hs => exact hs

/-! ### What has happened when something returns -/

/-- A history in which tasks are done one after the other. -/
inductive Does : List (CellTask α ν) → CellView α → List (CellEvent α ν) → Prop
  | nil (s : CellView α) : Does [] s []
  | run {ts : List (CellTask α ν)} {s : CellView α} {d h : List (CellEvent α ν)}
      (code : CellCode α ν) (hd : Delivered s d) (hr : Does ts (s.past d) h) :
      Does (.run code :: ts) s (d ++ h)
  | tell {ts : List (CellTask α ν)} {s : CellView α} {d h : List (CellEvent α ν)} {cell : String}
      {id : SubscriptionId} {v : α} (observer : α → CellCode α ν) (hd : Delivered s d)
      (hr : Does ts (s.past d) h) :
      Does (.tell cell id v observer :: ts) s (.told cell id v :: (d ++ h))

/-- The calls for a write are made before anything else. -/
theorem Does.calls {observers : List (SubscriptionId × (α → CellCode α ν))}
    {ts : List (CellTask α ν)} {s : CellView α} (hd : Does (tells cell v observers ++ ts) s h) :
    ∃ calls h', h = calls ++ h' ∧ Calls cell v (observers.map Prod.fst) s calls ∧
      Does ts (s.past calls) h' := by
  induction observers generalizing s h with
  | nil => exact ⟨[], h, rfl, .nil .., hd⟩
  | cons o observers ih =>
    cases hd with
    | tell _ hd hr =>
      obtain ⟨calls, h', rfl, hc, hr⟩ := ih hr
      refine ⟨_, h', ?_, .told hd hc, ?_⟩
      · simp
      · simpa [CellView.past_append, CellView.after] using hr

/-- **Once a part of the agenda is done, its tasks have been done one after the other.** -/
theorem Course.does {rest : List (CellTask α ν)} (hc : Course (Above rest) a h ⟨w, rest⟩)
    (ts : List (CellTask α ν)) (hts : a.tasks = ts ++ rest) : Does ts a.world.view h := by
  generalize hb : (⟨w, rest⟩ : Agenda α ν) = b at hc
  induction hc generalizing ts with
  | refl a =>
    subst hb
    obtain rfl : ts = [] := by simpa using hts.symm
    exact .nil _
  | @head a b c e h hok hn hj hc ih =>
    obtain ⟨t, ts', ht⟩ := hok
    obtain rfl : ts = t :: ts' := List.append_cancel_right (hts.symm.trans ht)
    replace ih := fun ts (hts : b.tasks = ts ++ rest) => ih ts hts hb
    have hs := (hn.deed hj).view
    cases hn.deed hj with
    | quiet code code' he =>
      obtain ⟨rfl, rfl⟩ : t = .run code ∧ _ = ts' ++ rest := by simpa [eq_comm] using hts
      have := ih (.run code' :: ts') rfl
      rw [hs] at this
      cases this with
      | run _ hd hr =>
        rw [← List.append_assoc]
        exact .run code (.quiet? he hd) (by rwa [CellView.past_append])
    | ended =>
      obtain ⟨rfl, rfl⟩ : t = .run .done ∧ _ = ts' ++ rest := by simpa [eq_comm] using hts
      exact .run .done (.nil _) (ih ts' rfl)
    | @wrote _ _ cell v c _ code next hget =>
      obtain ⟨rfl, rfl⟩ : t = .run code ∧ _ = ts' ++ rest := by simpa [eq_comm] using hts
      have := ih (tells cell v c.observers ++ .run next :: ts') (by simp)
      rw [hs] at this
      obtain ⟨calls, h', rfl, hcalls, hrest⟩ := this.calls
      cases hrest with
      | run _ hd hr =>
        rw [← ids_of_get hget] at hcalls
        have := Does.run code (.wrote hcalls hd) (by simpa [CellView.past_append] using hr)
        simpa using this
    | @told _ _ cell id v _ observer =>
      obtain ⟨rfl, rfl⟩ : t = .tell cell id v observer ∧ _ = ts' ++ rest := by
        simpa [eq_comm] using hts
      have := ih (.run (observer v) :: ts') rfl
      rw [hs] at this
      cases this with
      | @run _ _ d h _ hd hr =>
        exact Does.tell observer (d := d) hd hr

theorem Course.view (hc : Course ok a h b) : b.world.view = a.world.view.past h := by
  induction hc with
  | refl => rfl
  | head _ hn hj _ ih => rw [CellView.past_append, ← (hn.deed hj).view, ih]

/-! ### The balance of writes and calls -/

@[simp] theorem outstanding_nil : outstanding cell id ([] : List (CellTask α ν)) = [] := rfl

@[simp] theorem outstanding_run (code : CellCode α ν) (ts : List (CellTask α ν)) :
    outstanding cell id (.run code :: ts) = outstanding cell id ts := rfl

theorem outstanding_tell (cell' : String) (id' : SubscriptionId) (observer : α → CellCode α ν)
    (ts : List (CellTask α ν)) :
    outstanding cell id (.tell cell' id' v observer :: ts) =
      callsOf cell id [(.told cell' id' v : CellEvent α ν)] ++ outstanding cell id ts := by
  by_cases hc : cell' = cell ∧ id' = id <;> simp [outstanding, callsOf, hc]

@[simp] theorem outstanding_append (ts ts' : List (CellTask α ν)) :
    outstanding cell id (ts ++ ts') = outstanding cell id ts ++ outstanding cell id ts' :=
  List.filterMap_append ..

theorem callsOf_append : callsOf cell id (h ++ h') = callsOf cell id h ++ callsOf cell id h' :=
  List.filterMap_append ..

theorem writesTo_append : writesTo cell (h ++ h') = writesTo cell h ++ writesTo cell h' :=
  List.filterMap_append ..

theorem owedTo_append (s : CellView α) :
    owedTo cell id s (h ++ h') = owedTo cell id s h ++ owedTo cell id (s.past h) h' := by
  induction h generalizing s with
  | nil => rfl
  | cons e h ih => cases e <;> simp [owedTo, ih]

theorem outstanding_tells (cell' : String)
    (observers : List (SubscriptionId × (α → CellCode α ν))) :
    outstanding cell id (tells cell' v observers) =
      if cell' = cell then .replicate ((observers.map Prod.fst).count id) v else [] := by
  induction observers with
  | nil => simp
  | cons o observers ih =>
    rw [tells_cons, outstanding_tell, ih]
    by_cases hc : cell' = cell <;> by_cases hi : o.1 = id <;>
      simp [callsOf, hc, hi, List.replicate_succ]

theorem callsOf_quiet {e : Option (CellEvent α ν)} (he : ∀ e' ∈ e, e'.Quiet) :
    callsOf cell id e.toList = [] := by
  match e, he with
  | none, _ => rfl
  | some (.told ..), he => exact (he _ rfl).elim
  | some (.note _), _ | some (.wrote ..), _ | some (.subscribed ..), _ | some (.removed ..), _ =>
    rfl

theorem writesTo_quiet {e : Option (CellEvent α ν)} (he : ∀ e' ∈ e, e'.Quiet) :
    writesTo cell e.toList = [] := by
  match e, he with
  | none, _ => rfl
  | some (.wrote ..), he => exact (he _ rfl).elim
  | some (.note _), _ | some (.told ..), _ | some (.subscribed ..), _ | some (.removed ..), _ =>
    rfl

theorem owedTo_quiet {e : Option (CellEvent α ν)} (s : CellView α) (he : ∀ e' ∈ e, e'.Quiet) :
    owedTo cell id s e.toList = [] := by
  match e, he with
  | none, _ => rfl
  | some (.wrote ..), he => exact (he _ rfl).elim
  | some (.note _), _ | some (.told ..), _ | some (.subscribed ..), _ | some (.removed ..), _ =>
    rfl

theorem Deed.balance {e : Option (CellEvent α ν)} (hd : Deed a e b) :
    (outstanding cell id a.tasks ++ owedTo cell id a.world.view e.toList).Perm
      (callsOf cell id e.toList ++ outstanding cell id b.tasks) := by
  cases hd with
  | quiet _ _ he => simp [owedTo_quiet _ he, callsOf_quiet he]
  | ended => simp [owedTo, callsOf]
  | wrote _ _ hget =>
    have hnone : ∀ cell' v', callsOf cell id [(.wrote cell' v' : CellEvent α ν)] = [] :=
      fun _ _ => rfl
    simpa only [Option.toList_some, owedTo, ids_of_get hget, hnone, outstanding_append,
      outstanding_run, outstanding_tells, List.append_nil, List.nil_append]
      using List.perm_append_comm
  | told observer => simp [owedTo, outstanding_tell]

/-- **What is owed is called or still outstanding**, wherever a course has come. -/
theorem Course.balance (hc : Course ok a h b) :
    (outstanding cell id a.tasks ++ owedTo cell id a.world.view h).Perm
      (callsOf cell id h ++ outstanding cell id b.tasks) := by
  induction hc with
  | refl => simp [owedTo, callsOf]
  | @head a b c e h _ hn hj _ ih =>
    have hd := hn.deed hj
    rw [owedTo_append, callsOf_append, ← hd.view, List.append_assoc, ← List.append_assoc]
    refine (hd.balance.append_right _).trans ?_
    rw [List.append_assoc]
    exact ih.append_left _

/-! ### The first observer -/

theorem outstanding_tail {ts : List (CellTask α ν)} (h : outstanding cell id ts = []) :
    outstanding cell id ts.tail = [] := by
  cases ts with
  | nil => rfl
  | cons t ts =>
    rw [← List.singleton_append, outstanding_append, List.append_eq_nil_iff] at h
    exact h.2

theorem foremost_observers {c : Cell α (α → CellCode α ν)} {ids : List SubscriptionId}
    (hc : w.cells.get? cell = some c) (hf : w.view.ids cell = id :: ids) :
    ∃ o os, c.observers = o :: os ∧ o.1 = id ∧ os.map Prod.fst = ids := by
  rw [ids_of_get hc, List.map_eq_cons_iff] at hf
  obtain ⟨o, os, h, hid, hids⟩ := hf
  exact ⟨o, os, h, hid, hids⟩

/-- While an observer is the first one, it is called next if at all. -/
theorem Deed.foremost {e : Option (CellEvent α ν)} (hd : Deed a e b) (hf : Foremost cell id a)
    (ha : outstanding cell id a.tasks.tail = []) :
    outstanding cell id a.tasks ++ writesTo cell e.toList =
      callsOf cell id e.toList ++ outstanding cell id b.tasks ∧
        outstanding cell id b.tasks.tail = [] := by
  cases hd with
  | quiet _ _ he => exact ⟨by simp [writesTo_quiet he, callsOf_quiet he], ha⟩
  | ended => exact ⟨by simp [writesTo, callsOf], outstanding_tail ha⟩
  | @wrote w w' cell' v c rest code next hget =>
    obtain ⟨ids, hid, hnot⟩ := hf
    have ha : outstanding cell id rest = [] := ha
    by_cases hcell : cell' = cell
    · subst hcell
      obtain ⟨o, os, ho, rfl, rfl⟩ := foremost_observers hget hid
      have hos : outstanding cell' o.1 (tells cell' v os) = [] := by
        rw [outstanding_tells, if_pos rfl, List.count_eq_zero_of_not_mem hnot,
          List.replicate_zero]
      constructor
      · simp [ho, outstanding_tell, hos, ha, writesTo, callsOf]
      · simp [ho, hos, ha]
    · have hnone : outstanding cell id (tells cell' v c.observers ++ .run next :: rest) = [] := by
        simp [outstanding_tells, hcell, ha]
      exact ⟨by simp [hnone, ha, writesTo, callsOf, hcell], outstanding_tail hnone⟩
  | told observer =>
    exact ⟨by simp [outstanding_tell, writesTo], ha⟩

theorem Course.foremost (hc : Course (Foremost cell id) a h b)
    (ha : outstanding cell id a.tasks.tail = []) :
    outstanding cell id a.tasks ++ writesTo cell h =
      callsOf cell id h ++ outstanding cell id b.tasks := by
  induction hc with
  | refl => simp [writesTo, callsOf]
  | head hok hn hj _ ih =>
    obtain ⟨heq, hb⟩ := (hn.deed hj).foremost hok ha
    rw [writesTo_append, callsOf_append, ← List.append_assoc, heq, List.append_assoc, ih hb,
      List.append_assoc]

/-- What follows an agenda that is about to call an observer begins with the call. -/
theorem Course.head_told {observer : α → CellCode α ν} {ts : List (CellTask α ν)}
    {e : CellEvent α ν} (hc : Course ok a (e :: h) b)
    (ha : a.tasks = .tell cell id v observer :: ts) : e = .told cell id v := by
  generalize hh : e :: h = l at hc
  cases hc with
  | refl => cases hh
  | head _ hn hj _ =>
    cases hn.deed hj with
    | told => simp_all
    | _ => cases ha

/-- While an observer is the first one, a write calls it before anything else happens. -/
theorem Course.at_once {e : CellEvent α ν}
    (hc : Course (Foremost cell id) a (h ++ .wrote cell v :: e :: h') b) :
    e = .told cell id v := by
  generalize hl : h ++ .wrote cell v :: e :: h' = l at hc
  induction hc generalizing h with
  | refl => simp at hl
  | @head a b c e' l hok hn hj hc ih =>
    match h, e', hl with
    | h, none, hl => exact ih hl
    | e₁ :: h, some e', hl => exact ih (List.cons.inj hl).2
    | [], some e', hl =>
      obtain ⟨rfl, rfl⟩ := List.cons.inj hl
      cases hn.deed hj with
      | quiet _ _ he => exact (he _ rfl).elim
      | wrote _ _ hget =>
        obtain ⟨ids, hid, -⟩ := hok
        obtain ⟨o, os, ho, rfl, -⟩ := foremost_observers hget hid
        exact hc.head_told (by rw [ho]; rfl)

/-! ### What is seen of a write -/

/-- The value of a cell stays as long as nothing is written to it. -/
theorem value_past {s : CellView α} {ids : List SubscriptionId} (hs : s cell = some (v, ids))
    (hw : writesTo cell h = []) : ∃ ids, s.past h cell = some (v, ids) := by
  induction h generalizing s ids with
  | nil => exact ⟨_, hs⟩
  | cons e h ih =>
    rw [← List.singleton_append, writesTo_append, List.append_eq_nil_iff] at hw
    suffices he : ∃ ids, s.after e cell = some (v, ids) from ih he.choose_spec hw.2
    cases e with
    | note _ => exact ⟨_, hs⟩
    | told _ _ _ => exact ⟨_, hs⟩
    | wrote cell' _ =>
      have hne : cell ≠ cell' := by rintro rfl; simp [writesTo] at hw
      exact ⟨ids, by rw [CellView.after, Function.update_of_ne hne, hs]⟩
    | subscribed cell' _ =>
      by_cases hc : cell = cell'
      · subst hc
        exact ⟨_, by rw [CellView.after, Function.update_self, hs]; rfl⟩
      · exact ⟨ids, by rw [CellView.after, Function.update_of_ne hc, hs]⟩
    | removed cell' _ =>
      by_cases hc : cell = cell'
      · subst hc
        exact ⟨_, by rw [CellView.after, Function.update_self, hs]; rfl⟩
      · exact ⟨ids, by rw [CellView.after, Function.update_of_ne hc, hs]⟩

theorem Course.visible (hc : Course ok a (h ++ .wrote cell v :: h') b)
    (hh : writesTo cell h' = []) : ∃ ids, b.world.view cell = some (v, ids) := by
  generalize hl : h ++ .wrote cell v :: h' = l at hc
  induction hc generalizing h with
  | refl => simp at hl
  | @head a b c e l hok hn hj hc ih =>
    match h, e, hl with
    | h, none, hl => exact ih hl
    | e₁ :: h, some e, hl => exact ih (List.cons.inj hl).2
    | [], some e, hl =>
      obtain ⟨rfl, rfl⟩ := List.cons.inj hl
      rw [hc.view]
      have hd := hn.deed hj
      cases hd with
      | quiet _ _ he => exact (he _ rfl).elim
      | @wrote w w' _ _ c _ _ _ hget hs =>
        have hview : w'.view cell = some (v, c.observers.map Prod.fst) := by
          rw [hs, CellView.after, Function.update_self, view_of_get hget]
          rfl
        exact value_past hview hh

/-! ### Delivery -/

/-- **What observers of cells can rely on**, from an agenda on. -/
structure Delivers (a : Agenda α ν) : Prop where
  /-- A look at a cell shows what was written last. -/
  visible : ∀ {cell : String} {v : α} {h h' : List (CellEvent α ν)} {w : CellWorld α ν}
    {next : Option (α × Nat) → CellCode α ν} {rest : List (CellTask α ν)},
    Course (fun _ => True) a (h ++ .wrote cell v :: h') ⟨w, .run (.look cell next) :: rest⟩ →
      writesTo cell h' = [] → ∃ observers, w.perform rest (.look cell next) =
        ⟨w, .run (next (some (v, observers))) :: rest⟩
  /-- A write sets about calling the observers of the cell. When it returns, they have been called
  for it, one after the other and with what was written, and every write made meanwhile has been
  delivered as well. -/
  returns : ∀ {cell : String} {v : α} {next : CellCode α ν} {rest : List (CellTask α ν)}
    {c : Cell α (α → CellCode α ν)} {w : CellWorld α ν} {b : Agenda α ν} {h : List (CellEvent α ν)},
    a.tasks = .run (.set cell v next) :: rest → a.world.cells.get? cell = some c →
      a.step = some b → Course (Above (.run next :: rest)) b h ⟨w, .run next :: rest⟩ →
        b.world.journal = .wrote cell v :: a.world.journal ∧
          b.tasks = tells cell v c.observers ++ .run next :: rest ∧
            Calls cell v (c.observers.map Prod.fst) b.world.view h
  /-- When code is over, every write made in the course of it has been delivered. -/
  delivered : ∀ {code : CellCode α ν} {rest : List (CellTask α ν)} {w : CellWorld α ν}
    {h : List (CellEvent α ν)}, a.tasks = .run code :: rest → Course (Above rest) a h ⟨w, rest⟩ →
      Delivered a.world.view h
  /-- At any moment, an observer has been called with what was written while it was registered,
  apart from the calls that are still to come. -/
  balance : ∀ {cell : String} {id : SubscriptionId} {h : List (CellEvent α ν)} {b : Agenda α ν},
    Course (fun _ => True) a h b →
      (outstanding cell id a.tasks ++ owedTo cell id a.world.view h).Perm
        (callsOf cell id h ++ outstanding cell id b.tasks)
  /-- As long as an observer is the first one, a write calls it at once, -/
  at_once : ∀ {cell : String} {id : SubscriptionId} {v : α} {e : CellEvent α ν}
    {h h' : List (CellEvent α ν)} {b : Agenda α ν},
    Course (Foremost cell id) a (h ++ .wrote cell v :: e :: h') b → e = .told cell id v
  /-- and it is called with what is written in the order of the writes, unless calls for earlier
  writes were outstanding. -/
  in_order : ∀ {cell : String} {id : SubscriptionId} {h : List (CellEvent α ν)} {b : Agenda α ν},
    Course (Foremost cell id) a h b → outstanding cell id a.tasks = [] →
      writesTo cell h = callsOf cell id h ++ outstanding cell id b.tasks

/-- **A write reaches those who are registered when it is made**: each of them once, in order and
with what was written, whatever the observers do. -/
theorem delivers (a : Agenda α ν) : a.Delivers where
  visible := by
    intro cell v h h' w next rest hc hh'
    obtain ⟨ids, hs⟩ := hc.visible hh'
    obtain ⟨c, hget, hc⟩ := Option.map_eq_some_iff.1 hs
    obtain rfl : c.value = v := congrArg Prod.fst hc
    exact ⟨c.observers.length, by rw [CellWorld.perform, hget]; rfl⟩
  returns := by
    intro cell v next rest c w b h ha hget hb hc
    obtain ⟨w₀, ts⟩ := a
    subst ha
    simp only [step, CellWorld.perform, hget, Option.some.injEq] at hb
    subst hb
    have hdoes := hc.does (tells cell v c.observers) rfl
    rw [← List.append_nil (tells cell v c.observers)] at hdoes
    obtain ⟨calls, h', rfl, hcalls, hnil⟩ := hdoes.calls
    cases hnil
    exact ⟨rfl, rfl, by simpa using hcalls⟩
  delivered := by
    intro code rest w h ha hc
    have hdoes := hc.does [.run code] ha
    cases hdoes with
    | run _ hd hr =>
      cases hr
      simpa using hd
  balance hc := hc.balance
  at_once hc := hc.at_once
  in_order hc ha := by simpa [ha] using hc.foremost (outstanding_tail ha)

/-! ### Runs -/

theorem Course.journal (hc : Course ok a h b) : b.world.journal = h.reverse ++ a.world.journal := by
  induction hc with
  | refl => rfl
  | @head a b c e h _ _ hj _ ih =>
    rw [ih, hj, List.reverse_append, List.append_assoc]
    cases e <;> rfl

theorem Course.steps {n : Nat} (hok : ∀ k < n, ok (a.steps k)) :
    ∃ h, Course ok a h (a.steps n) := by
  induction n generalizing a with
  | zero => exact ⟨[], .refl a⟩
  | succ n ih =>
    cases hs : a.step with
    | none => exact ⟨[], by simpa [Agenda.steps, hs] using (Course.refl a : Course ok a [] a)⟩
    | some b =>
      have hb : ∀ k, a.steps (k + 1) = b.steps k := fun k => by simp [Agenda.steps, hs]
      obtain ⟨h, hc⟩ := ih fun k hk => hb k ▸ hok (k + 1) (Nat.succ_lt_succ hk)
      obtain ⟨e, -, hj⟩ := (Next.step hs).exists_deed
      exact ⟨_, .head (hok 0 n.succ_pos) (.step hs) hj (hb n ▸ hc)⟩

/-- The first observer makes room for the second one and writes, in the middle of a write. -/
def crossing : Agenda Nat Empty where
  world := { cells := .ofPairs [("c", ⟨0, []⟩)] }
  tasks := [.run (.subscribe "c" "first"
    (fun _ => .unsubscribe "c" "first" fun _ => .set "c" 2 .done)
    (.subscribe "c" "second" (fun _ => .done) (.set "c" 1 .done)))]

/-- All calls in the course of the first write of `crossing` have been made when it returns: to the
second observer the one for the inner write first. -/
theorem crossing_delivers : ∃ h w, Course (Above []) crossing h ⟨w, []⟩ ∧
    Delivered crossing.world.view h ∧ callsOf "c" 0 h = [1] ∧ callsOf "c" 1 h = [2, 1] := by
  have habove : ∀ k < 12, Above [] (crossing.steps k) := fun k hk => by
    interval_cases k <;> exact ⟨_, _, (List.append_nil _).symm⟩
  obtain ⟨h, hc⟩ := Course.steps habove
  have hh : h.reverse = (crossing.steps 12).world.journal := by
    simpa [crossing] using hc.journal.symm
  obtain rfl := List.reverse_eq_iff.1 hh
  exact ⟨_, _, hc, (delivers crossing).delivered rfl hc, rfl, rfl⟩

/-- An observer that becomes the first one in the middle of the calls for a write is called for it
after it has been called for the writes that follow. -/
theorem crossing_out_of_order :
    ¬ ∀ (w : CellWorld Nat Empty) (code : CellCode Nat Empty) (a b : Agenda Nat Empty)
      (h₀ h : List (CellEvent Nat Empty)) (cell : String) (id : SubscriptionId),
      Course (fun _ => True) ⟨w, [.run code]⟩ h₀ a → Course (Foremost cell id) a h b →
        b.tasks = [] → callsOf cell id h = writesTo cell h := by
  intro hall
  have hfirst : ∀ k < 7, Foremost "c" 1 ((crossing.steps 5).steps k) := fun k hk => by
    interval_cases k <;> exact ⟨[], rfl, by simp⟩
  obtain ⟨h₀, hc₀⟩ : ∃ h, Course (fun _ => True) crossing h (crossing.steps 5) :=
    Course.steps fun _ _ => trivial
  obtain ⟨h, hc⟩ := Course.steps hfirst
  have hh : h.reverse = [.told "c" 1 1, .told "c" 1 2, .wrote "c" 2] :=
    List.append_cancel_right (hc.journal.symm.trans rfl)
  obtain rfl := List.reverse_eq_iff.1 hh
  have hcalls : [2, 1] = [2] := hall _ _ _ _ h₀ _ "c" 1 hc₀ hc rfl
  cases hcalls

end Agenda

end Statechart
