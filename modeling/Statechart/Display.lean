import Statechart.Machine
import Statechart.World

/-!
Display forms of machines, instances, signals, and of the environments and handles that user code
works on.
-/

namespace Statechart

variable {σ : Signature}

/-- The display form of a cell. -/
def Cell.text {α β : Type} (valueText : α → String) (c : Cell α β) : String :=
  Text.record "ObservableCell"
    [("value", valueText c.value), ("observers", toString c.observers.length)]

def Machine.text (m : Machine σ) : String :=
  let names := (m.config.states.entries.map fun e => σ.stateName e.1).mergeSort (· ≤ ·)
  Text.record "Machine"
    [("states", Text.bracketed (names.map Text.quoted)),
     ("initial_state", σ.stateText m.initialState),
     ("final_states", toString m.finals.length),
     ("spawner", Text.flag m.spawner.isSome)]

def Snapshot.text (contextText : σ.Context → String) (s : Snapshot σ) : String :=
  Text.record "Interpreter"
    [("state", σ.stateText s.state),
     ("context", contextText s.context),
     ("is_final", Text.flag s.isFinal)]

namespace View

def signalText (v : View σ) : String :=
  Text.record "AbortSignal" [("aborted", Text.flag v.aborted)]

/-- The display form of a wait for the abort signal. -/
def waitText (v : View σ) : String := Text.record "Aborted" [("signal", v.signalText)]

def handleText (v : View σ) : String :=
  Text.record "EffectHandle"
    [("state", σ.stateText v.state), ("signal", v.signalText), ("open", Text.flag v.windowOpen)]

/-- The display form of an environment, or of the handle if the code runs on one. -/
def text (v : View σ) : String :=
  match v.entry with
  | none => v.handleText
  | some (trigger, payload) =>
    Text.record "EffectEnv"
      [("trigger", trigger.text σ.actionText),
       ("payload", Text.flag payload.isSome),
       ("handle", v.handleText)]

end View

end Statechart
