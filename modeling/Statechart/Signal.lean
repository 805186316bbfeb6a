/-!
Abort signals: a flag that is raised once, a slot for one observer, and the wakers of the tasks
that wait for the flag.
-/

namespace Statechart

/-- The number of a task of the executor. -/
abbrev TaskId := Nat

/-- What a poll leaves behind in order to be repeated: nothing, or the task to queue again. -/
inductive Waker where
  | idle
  | task (t : TaskId)
  deriving DecidableEq

/-- The signal of one activation. -/
structure Signal (β : Type) where
  /-- Whether the state that owns the activation has been exited. -/
  aborted : Bool := false
  observer : Option β := none
  /-- The wakers of the polls that wait for the signal, each once. -/
  wakers : List Waker := []

namespace Signal

variable {β : Type}

/-- The signal with the observer `b` in the slot, in place of any other. A signal that has fired
takes no observer. -/
def setObserver (s : Signal β) (b : β) : Signal β :=
  if s.aborted then s else { s with observer := some b }

def clearObserver (s : Signal β) : Signal β := { s with observer := none }

/-- The signal with the waker `w` among those who wait. -/
def register (s : Signal β) (w : Waker) : Signal β :=
  if s.aborted || s.wakers.contains w then s else { s with wakers := s.wakers ++ [w] }

/-- The signal once it has fired. -/
def fire (s : Signal β) : Signal β :=
  if s.aborted then s else { aborted := true }

/-- The observer that firing the signal runs. -/
def fired (s : Signal β) : Option β := if s.aborted then none else s.observer

/-- The wakers that firing the signal wakes, after the observer. -/
def woken (s : Signal β) : List Waker := if s.aborted then [] else s.wakers

@[simp] theorem aborted_fire (s : Signal β) : s.fire.aborted = true := by
  unfold fire; split <;> simp_all

@[simp] theorem aborted_setObserver (s : Signal β) (b : β) :
    (s.setObserver b).aborted = s.aborted := by
  unfold setObserver; split <;> rfl

@[simp] theorem observer_register (s : Signal β) (w : Waker) :
    (s.register w).observer = s.observer := by
  unfold register; split <;> rfl

@[simp] theorem aborted_register (s : Signal β) (w : Waker) :
    (s.register w).aborted = s.aborted := by
  unfold register; split <;> rfl

end Signal

end Statechart
