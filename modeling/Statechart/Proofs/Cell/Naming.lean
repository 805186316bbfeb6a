import Statechart.Proofs.Cell.Delivery
import Statechart.Proofs.Cell.Register

/-!
The ids under which observers of named cells are registered. What code on the cells does to them is
read off the events of subscriptions and removals.
-/

namespace Statechart

variable {α ν : Type}

/-- What an event means for the ids. -/
def CellEvent.mention? : CellEvent α ν → Option (Entry String)
  | .subscribed cell id => some (.subscribed cell id)
  | .removed cell id => some (.removed cell id)
  | _ => none

def CellWorld.register (w : CellWorld α ν) : Register String := ⟨w.nextSubscription, w.view.ids⟩

namespace Agenda

variable {a b : Agenda α ν}

theorem ids_put (w : CellWorld α ν) (cell : String) (c : Cell α (α → CellCode α ν)) :
    (w.put cell c).view.ids = Function.update w.view.ids cell (c.observers.map Prod.fst) := by
  funext cell'
  unfold CellView.ids
  rw [view_put]
  by_cases h : cell' = cell
  · subst h
    simp
  · simp [Function.update_of_ne h]

/-- What code does first, and what that means for the ids. -/
theorem becomes_perform (w : CellWorld α ν) (rest : List (CellTask α ν)) (code : CellCode α ν) :
    ∃ e : Option (CellEvent α ν), (w.perform rest code).world.journal = e.toList ++ w.journal ∧
      w.register.Becomes (e.bind CellEvent.mention?) (w.perform rest code).world.register := by
  have still : ∀ code' : CellCode α ν, ∃ e : Option (CellEvent α ν),
      (⟨w, .run code' :: rest⟩ : Agenda α ν).world.journal = e.toList ++ w.journal ∧
        w.register.Becomes (e.bind CellEvent.mention?) w.register := fun _ => ⟨none, rfl, rfl⟩
  cases code with
  | done => exact ⟨none, rfl, rfl⟩
  | emit n next => exact ⟨some (.note n), rfl, rfl⟩
  | look cell next => exact still _
  | named name next => exact still _
  | set cell v next =>
    cases hc : w.cells.get? cell with
    | none => simpa only [CellWorld.perform, hc] using still next
    | some c =>
      simp only [CellWorld.perform, hc]
      refine ⟨some (.wrote cell v), rfl, ?_⟩
      have hids : (w.put cell (c.write v)).view.ids = w.view.ids :=
        (ids_put ..).trans (Function.update_eq_self_iff.2 (ids_of_get hc).symm)
      exact congrArg (Register.mk w.nextSubscription) hids
  | subscribe cell name observer next =>
    cases hc : w.cells.get? cell with
    | none => simpa only [CellWorld.perform, hc] using still next
    | some c =>
      simp only [CellWorld.perform, hc]
      refine ⟨some (.subscribed cell w.nextSubscription), rfl, rfl, ?_⟩
      have hids : (w.put cell (c.subscribe w.nextSubscription observer)).view.ids =
          Function.update w.view.ids cell (w.view.ids cell ++ [w.nextSubscription]) := by
        rw [ids_put, ids_of_get hc]
        simp [Cell.subscribe]
      exact congrArg (Register.mk (w.nextSubscription + 1)) hids
  | unsubscribe cell name next =>
    cases hc : w.cells.get? cell with
    | none => simpa only [CellWorld.perform, hc] using still (next none)
    | some c =>
      cases hn : w.names.get? name with
      | none => simpa only [CellWorld.perform, hc, hn] using still (next none)
      | some id =>
        simp only [CellWorld.perform, hc, hn]
        split
        · next ho =>
          refine ⟨some (.removed cell id), rfl, ?_, ?_⟩
          · change id ∈ w.view.ids cell
            rwa [ids_of_get hc, ← Cell.observes_iff]
          · have hids : (w.put cell (c.unsubscribe id)).view.ids =
                Function.update w.view.ids cell
                  ((w.view.ids cell).filter fun id' => id' ≠ id) := by
              rw [ids_put, ids_of_get hc]
              simp [Cell.unsubscribe, List.filter_map, Function.comp_def]
            exact congrArg (Register.mk w.nextSubscription) hids
        · exact still _

theorem Next.becomes {e : Option (CellEvent α ν)} (hn : Next a b)
    (hj : b.world.journal = e.toList ++ a.world.journal) :
    a.world.register.Becomes (e.bind CellEvent.mention?) b.world.register := by
  obtain ⟨e', hj', hb⟩ : ∃ e' : Option (CellEvent α ν),
      b.world.journal = e'.toList ++ a.world.journal ∧
        a.world.register.Becomes (e'.bind CellEvent.mention?) b.world.register := by
    cases hn with
    | turn code code' => exact ⟨none, rfl, rfl⟩
    | step h =>
      obtain ⟨w, ts⟩ := a
      match ts, h with
      | .run code :: rest, h =>
        cases h
        exact becomes_perform w rest code
      | .tell cell id v observer :: rest, h =>
        cases h
        exact ⟨some (.told cell id v), rfl, rfl⟩
  obtain rfl : e' = e := by
    have := List.append_cancel_right (hj'.symm.trans hj)
    cases e <;> cases e' <;> simp_all
  exact hb

end Agenda

end Statechart
