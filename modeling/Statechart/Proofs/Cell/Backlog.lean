import Mathlib.Data.List.Basic

/-!
What an observer of a cell was called with last. A write puts a call of the observer on top of those
that are still to come, so that the last call of all is for the earliest of the writes that had to
wait for each other: the last one made while no call was to come. If another observer writes before
this one has been called, the cell ends up with a value that the observer has seen already.
-/

namespace Statechart

/-- What concerns one observer of a cell: a write of the cell, or a call of the observer. -/
inductive Concern (α : Type) where
  | wrote (v : α)
  | told (v : α)

namespace Concern

variable {α : Type} {due due' due'' : List α} {h h' : List (Concern α)} {v : α}

def write? : Concern α → Option α
  | wrote v => some v
  | told _ => none

def call? : Concern α → Option α
  | wrote _ => none
  | told v => some v

/-- The values that are written, in order. -/
def writes (h : List (Concern α)) : List α := h.filterMap write?

/-- The values with which the observer is called, in order. -/
def calls (h : List (Concern α)) : List α := h.filterMap call?

@[simp] theorem writes_wrote : writes (.wrote v :: h) = v :: writes h := rfl

@[simp] theorem writes_told : writes (.told v :: h) = writes h := rfl

@[simp] theorem calls_wrote : calls (.wrote v :: h) = calls h := rfl

@[simp] theorem calls_told : calls (.told v :: h) = v :: calls h := rfl

theorem writes_append : writes (h ++ h') = writes h ++ writes h' := List.filterMap_append

theorem calls_append : calls (h ++ h') = calls h ++ calls h' := List.filterMap_append

/-- The values that are written while no call is to come, in order; at first there are `n` calls to
come. -/
def settled : Nat → List (Concern α) → List α
  | _, [] => []
  | 0, .wrote v :: h => v :: settled 1 h
  | n + 1, .wrote _ :: h => settled (n + 2) h
  | n, .told _ :: h => settled (n - 1) h

/-- The calls to come before and after a history in which a write has its call put before the
others. -/
inductive Backlog : List α → List (Concern α) → List α → Prop
  | nil (due : List α) : Backlog due [] due
  | wrote {due due' : List α} {v : α} {h : List (Concern α)} (hb : Backlog (v :: due) h due') :
    Backlog due (.wrote v :: h) due'
  | told {due due' : List α} {v : α} {h : List (Concern α)} (hb : Backlog due h due') :
    Backlog (v :: due) (.told v :: h) due'

theorem settled_of_writes {n : Nat} (hw : writes h = []) : settled n h = [] := by
  induction h generalizing n with
  | nil => rfl
  | cons c h ih =>
    cases c with
    | wrote v => cases hw
    | told v => simpa [settled] using ih hw

namespace Backlog

theorem trans (hb : Backlog due h due') (hb' : Backlog due' h' due'') :
    Backlog due (h ++ h') due'' := by
  induction hb with
  | nil => exact hb'
  | wrote _ ih => exact .wrote (ih hb')
  | told _ ih => exact .told (ih hb')

theorem split (hb : Backlog due (h ++ h') due'') :
    ∃ due', Backlog due h due' ∧ Backlog due' h' due'' := by
  induction h generalizing due with
  | nil => exact ⟨due, .nil due, hb⟩
  | cons c h ih =>
    cases hb with
    | wrote hb =>
      obtain ⟨due', hb, hb'⟩ := ih hb
      exact ⟨due', .wrote hb, hb'⟩
    | told hb =>
      obtain ⟨due', hb, hb'⟩ := ih hb
      exact ⟨due', .told hb, hb'⟩

/-- A call is to come for every write for which there has been none. -/
theorem length (hb : Backlog due h due') :
    due.length + (writes h).length = (calls h).length + due'.length := by
  induction hb with
  | nil => simp [writes, calls]
  | wrote _ ih =>
    simp only [writes_wrote, calls_wrote, List.length_cons] at ih ⊢
    omega
  | told _ ih =>
    simp only [writes_told, calls_told, List.length_cons] at ih ⊢
    omega

/-- **The last call of all is for the last write made while no call was to come**, or else for what
was to come last at first. -/
theorem last (hb : Backlog due h []) :
    (calls h).getLast? = (settled due.length h).getLast?.or due.getLast? := by
  generalize hn : ([] : List α) = due' at hb
  induction hb with
  | nil => subst hn; rfl
  | @wrote due _ v h _ ih =>
    rw [calls_wrote, ih hn]
    cases due with
    | nil =>
      change _ = Option.or (v :: settled 1 h).getLast? none
      cases hs : (settled 1 h).getLast? <;> simp [List.getLast?_cons, hs]
    | cons u due => simp [settled, List.getLast?_cons_cons]
  | @told due _ v h _ ih =>
    change _ = Option.or (settled due.length h).getLast? _
    rw [calls_told, List.getLast?_cons, ih hn, List.getLast?_cons]
    cases (settled due.length h).getLast? <;> cases due.getLast? <;> rfl

/-- The last write is the one that is called for last, if no call was to come when it was made. -/
theorem last_of_settled {h₁ h₂ : List (Concern α)} (hb : Backlog [] (h₁ ++ .wrote v :: h₂) [])
    (hlast : writes h₂ = []) (hdue : (calls h₁).length = (writes h₁).length) :
    (calls (h₁ ++ .wrote v :: h₂)).getLast? = some v := by
  obtain ⟨due, hb₁, hb₂⟩ := hb.split
  obtain rfl : due = [] := by
    have hlength := hb₁.length
    rw [List.length_nil] at hlength
    exact List.eq_nil_of_length_eq_zero (by omega)
  cases hb₂ with
  | wrote hb₂ =>
    have hv : (calls h₂).getLast? = some v := by
      rw [hb₂.last, settled_of_writes hlast]
      rfl
    rw [calls_append, calls_wrote, List.getLast?_append, hv]
    rfl

end Backlog

/-- **What an observer knows in the end**, when no call of it is to come, as there was none at
first; the cell holds `value` then. -/
structure Concluded (h : List (Concern α)) (value : Option α) : Prop where
  /-- It has been called once for every write. -/
  called : (calls h).length = (writes h).length
  /-- The last call was for the last write made while no call was to come. -/
  last : (calls h).getLast? = (settled 0 h).getLast?
  /-- This is what the cell holds, unless a later write was made while a call was to come. -/
  in_sync : ∀ {h₁ : List (Concern α)} {v : α} {h₂ : List (Concern α)},
    h = h₁ ++ .wrote v :: h₂ → writes h₂ = [] → (calls h₁).length = (writes h₁).length →
      (calls h).getLast? = some v ∧ value = some v

theorem Backlog.concluded {value : Option α} (hb : Backlog [] h [])
    (hv : writes h ≠ [] → value = (writes h).getLast?) : Concluded h value where
  called := by simpa using hb.length.symm
  last := by simpa using hb.last
  in_sync := by
    rintro h₁ v h₂ rfl hlast hdue
    refine ⟨hb.last_of_settled hlast hdue, ?_⟩
    rw [writes_append, writes_wrote, hlast] at hv
    simpa using hv (by simp)

end Concern

end Statechart
