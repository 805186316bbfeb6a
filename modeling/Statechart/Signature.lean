import Statechart.Text

/-!
What a machine is built over: the identifiers of its states and actions, each with a name and a
display form, and the types of context, payload and note that its effects work with.
-/

namespace Statechart

/-- The identifiers of states and actions. -/
structure Alphabet where
  State : Type
  Action : Type
  [decEqState : DecidableEq State]
  [decEqAction : DecidableEq Action]
  /-- The name under which a state appears in logs and errors. -/
  stateName : State → String
  /-- The name under which an action appears in logs and errors. -/
  actionName : Action → String
  stateText : State → String
  actionText : Action → String

attribute [instance] Alphabet.decEqState Alphabet.decEqAction

/-- An alphabet together with the data that effects read and write. -/
structure Signature extends Alphabet where
  /-- The data that an instance carries from state to state. -/
  Context : Type
  /-- The data that travels with one dispatch. -/
  Payload : Type
  /-- What effects write down while they run. -/
  Note : Type

/-- What caused a state to be entered: the placement of the instance, or an action. -/
inductive Trigger (α : Type) where
  | initial
  | action (a : α)
  deriving DecidableEq

namespace Trigger

variable {α : Type}

/-- The action that caused the entry. -/
def action? : Trigger α → Option α
  | initial => none
  | action a => some a

/-- Whether the entry was a placement. -/
def isInitial : Trigger α → Bool
  | initial => true
  | action _ => false

/-- The name used in logs. -/
def name (actionName : α → String) : Trigger α → String
  | initial => "@initial"
  | action a => actionName a

def text (actionText : α → String) : Trigger α → String
  | initial => "Initial"
  | action a => Text.wrapped "Action" (actionText a)

end Trigger

end Statechart
