/-!
The errors of the library by cause, and their wording.
-/

namespace Statechart

/-- Why an instance could not be placed or an action not be carried out. -/
inductive MachineError where
  /-- The transition of `action` from `state` leads to `target`, which is not declared. -/
  | unknownTarget (state action target : String)
  /-- An instance was to be placed in a state that is not declared. -/
  | unknownState (state : String)
  /-- An effect gave up. -/
  | effectFailed (state message : String)
  deriving DecidableEq

/-- Why a machine could not be built. -/
inductive BuildError where
  | missingInitialState
  | unknownInitialState (state : String)
  | duplicateState (state : String)
  deriving DecidableEq

/-- Why a checkpoint could not be written, read or resumed. -/
inductive CheckpointError where
  | serializationFailed (message : String)
  /-- The text or the bytes are no checkpoint. -/
  | deserializationFailed
  | unsupportedVersion (found supported : UInt32)
  /-- The instance could not be placed. -/
  | resume (error : MachineError)
  deriving DecidableEq

/-- A transition that leads to a state which is not declared, by names. -/
structure DanglingTarget where
  source : String
  action : String
  target : String
  deriving DecidableEq

/-- The wording of a machine error. -/
def MachineError.message : MachineError → String
  | unknownTarget state action target =>
    "State '" ++ target ++ "' does not exist in the state machine (action '" ++ action ++
      "' from '" ++ state ++ "')"
  | unknownState state => "Cannot place an instance in undeclared state '" ++ state ++ "'"
  | effectFailed state message => "Effect for state '" ++ state ++ "' failed: " ++ message

def BuildError.message : BuildError → String
  | missingInitialState => "Initial state not specified. Call .initial(state) before .build()"
  | unknownInitialState state =>
    "Initial state '" ++ state ++ "' is not declared. Add it with .state(..)"
  | duplicateState state => "State '" ++ state ++ "' is declared more than once"

def CheckpointError.message : CheckpointError → String
  | serializationFailed message => "Serialization failed: " ++ message
  | deserializationFailed => "Deserialization failed: "
  | unsupportedVersion found supported =>
    "Unsupported checkpoint version " ++ toString found.toNat ++ ", supported: " ++
      toString supported.toNat
  | resume error => error.message

def DanglingTarget.message (d : DanglingTarget) : String :=
  "Transition '" ++ d.action ++ "' from state '" ++ d.source ++ "' targets undeclared state '" ++
    d.target ++ "'"

end Statechart
