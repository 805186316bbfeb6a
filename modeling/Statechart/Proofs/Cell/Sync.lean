import Statechart.Proofs.Cell.Backlog
import Statechart.Proofs.Cell.Delivery

/-!
Observers of named cells that stay registered. As the agenda puts the calls for a write in front of
everything else, the calls of one observer that are still to come form a backlog.
-/

namespace Statechart

variable {α ν : Type} {cell : String} {id : SubscriptionId}

/-- What an event means to an observer of a cell. -/
def CellEvent.concern? (cell : String) (id : SubscriptionId) : CellEvent α ν → Option (Concern α)
  | .wrote cell' v => if cell' = cell then some (.wrote v) else none
  | .told cell' id' v => if cell' = cell ∧ id' = id then some (.told v) else none
  | _ => none

/-- What a history means to an observer of a cell. -/
def concerns (cell : String) (id : SubscriptionId) (h : List (CellEvent α ν)) :
    List (Concern α) :=
  h.filterMap (·.concern? cell id)

theorem concerns_append (h h' : List (CellEvent α ν)) :
    concerns cell id (h ++ h') = concerns cell id h ++ concerns cell id h' :=
  List.filterMap_append

theorem writes_concerns (h : List (CellEvent α ν)) :
    Concern.writes (concerns cell id h) = writesTo cell h := by
  rw [Concern.writes, concerns, List.filterMap_filterMap, writesTo]
  congr 1
  funext e
  cases e with
  | wrote cell' v => by_cases hc : cell' = cell <;> simp [CellEvent.concern?, Concern.write?, hc]
  | told cell' id' v =>
    by_cases hc : cell' = cell ∧ id' = id <;> simp [CellEvent.concern?, Concern.write?, hc]
  | _ => rfl

theorem concerns_quiet {e : Option (CellEvent α ν)} (he : ∀ e' ∈ e, e'.Quiet) :
    concerns cell id e.toList = [] := by
  match e, he with
  | none, _ => rfl
  | some (.wrote ..), he | some (.told ..), he => exact (he _ rfl).elim
  | some (.note _), _ | some (.subscribed ..), _ | some (.removed ..), _ => rfl

/-- The last of the writes of a cell. -/
theorem exists_last_write {h : List (CellEvent α ν)} (hw : writesTo cell h ≠ []) :
    ∃ h₁ v h₂, h = h₁ ++ .wrote cell v :: h₂ ∧ writesTo cell h₂ = [] := by
  induction h with
  | nil => exact absurd rfl hw
  | cons e h ih =>
    by_cases hh : writesTo cell h = []
    · rw [← List.singleton_append, Agenda.writesTo_append, hh, List.append_nil] at hw
      cases e with
      | wrote cell' v =>
        obtain rfl : cell' = cell := by
          by_contra hc
          simp [writesTo, hc] at hw
        exact ⟨[], v, h, rfl, hh⟩
      | _ => exact absurd rfl hw
    · obtain ⟨h₁, v, h₂, rfl, hlast⟩ := ih hh
      exact ⟨e :: h₁, v, h₂, rfl, hlast⟩

namespace Agenda

variable {a b : Agenda α ν} {h : List (CellEvent α ν)}

/-- The observer is registered with the cell, once. -/
def Registered (cell : String) (id : SubscriptionId) (a : Agenda α ν) : Prop :=
  (a.world.view.ids cell).count id = 1

theorem Deed.backlog {e : Option (CellEvent α ν)} (hd : Deed a e b) (hr : Registered cell id a) :
    Concern.Backlog (outstanding cell id a.tasks) (concerns cell id e.toList)
      (outstanding cell id b.tasks) := by
  cases hd with
  | quiet _ _ he =>
    rw [concerns_quiet he, outstanding_run, outstanding_run]
    exact .nil _
  | ended => exact .nil _
  | @wrote w _ cell' v c rest code next hget =>
    rw [outstanding_run, outstanding_append, outstanding_tells, outstanding_run]
    by_cases hc : cell' = cell
    · subst hc
      have hcount : (c.observers.map Prod.fst).count id = 1 := ids_of_get hget ▸ hr
      rw [if_pos rfl, hcount]
      simpa [concerns, CellEvent.concern?] using Concern.Backlog.wrote (.nil (v :: _))
    · rw [if_neg hc]
      simpa [concerns, CellEvent.concern?, hc] using Concern.Backlog.nil _
  | @told w _ cell' id' v rest observer =>
    rw [outstanding_tell, outstanding_run]
    by_cases hc : cell' = cell ∧ id' = id
    · simpa [concerns, CellEvent.concern?, callsOf, hc] using Concern.Backlog.told (.nil _)
    · simpa [concerns, CellEvent.concern?, callsOf, hc] using Concern.Backlog.nil _

theorem Course.backlog (hc : Course (Registered cell id) a h b) :
    Concern.Backlog (outstanding cell id a.tasks) (concerns cell id h)
      (outstanding cell id b.tasks) := by
  induction hc with
  | refl => exact .nil _
  | head hok hn hj _ ih =>
    rw [concerns_append]
    exact ((hn.deed hj).backlog hok).trans ih

/-- **An observer that stays registered knows in the end what was written last while it was not
waiting for a call**, of all that is written between two moments at which no call of it is to come,
such as the beginning and the end of a write that no observer makes. -/
theorem Course.concluded (hc : Course (Registered cell id) a h b)
    (ha : outstanding cell id a.tasks = []) (hb : outstanding cell id b.tasks = []) :
    Concern.Concluded (concerns cell id h) ((b.world.view cell).map Prod.fst) := by
  have hback := hc.backlog
  rw [ha, hb] at hback
  refine hback.concluded fun hw => ?_
  rw [writes_concerns] at hw ⊢
  obtain ⟨h₁, v, h₂, rfl, hlast⟩ := exists_last_write hw
  obtain ⟨ids, hv⟩ := hc.visible hlast
  rw [hv, writesTo_append, ← List.singleton_append, writesTo_append, hlast]
  simp [writesTo]

end Agenda

end Statechart
