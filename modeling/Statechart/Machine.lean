import Statechart.Config

/-!
Machines, and the builder that makes them from a sequence of declarations.
-/

namespace Statechart

variable {σ : Signature}

/-- What becomes of a future that its first poll leaves unfinished. -/
inductive Spawner where
  /-- It becomes a task that is ready at once. -/
  | queue
  /-- It becomes a task of a pool that does not count its polls. -/
  | pool
  /-- It is polled once more on the spot, and becomes a task if that leaves it unfinished too. -/
  | eager
  | discard
  /-- It is refused, since the executor is gone. -/
  | shutdown
  deriving DecidableEq

/-- A machine: its configuration, and the values that its instances start from. -/
structure Machine (σ : Signature) where
  config : Config σ
  initialState : σ.State
  initialContext : σ.Context
  spawner : Option Spawner
  declared : config.contains initialState = true

/-- The states in which an instance of the machine accepts nothing. -/
def Machine.finals (m : Machine σ) : List σ.State := m.config.finals

def Machine.isFinal (m : Machine σ) (s : σ.State) : Bool := m.finals.contains s

/-- The parts of a machine, as far as they have been declared. -/
structure Builder (σ : Signature) where
  config : Config σ := {}
  /-- The states that were declared again, in order. -/
  duplicates : List σ.State := []
  initial : Option σ.State := none
  context : σ.Context
  spawner : Option Spawner := none

namespace Builder

/-- A builder whose machine starts from `context`. -/
def withContext (context : σ.Context) : Builder σ := { context }

/-- Declares a state; the first declaration of a state counts. -/
def state (b : Builder σ) (s : σ.State) (d : StateDef σ) : Builder σ :=
  match b.config.insert s d with
  | .ok config => { b with config }
  | .error (s, _) => { b with duplicates := b.duplicates ++ [s] }

/-- Declares a state, whose definition is made from an empty one. -/
def stateWith (b : Builder σ) (s : σ.State) (define : StateDef σ → StateDef σ) : Builder σ :=
  b.state s (define {})

def initialState (b : Builder σ) (s : σ.State) : Builder σ := { b with initial := some s }

def initialContext (b : Builder σ) (context : σ.Context) : Builder σ := { b with context }

def spawnWith (b : Builder σ) (spawner : Spawner) : Builder σ := { b with spawner := some spawner }

/-- The machine, unless a part is missing or inconsistent. Targets are not looked at. -/
def build (b : Builder σ) : Except BuildError (Machine σ) :=
  match b.initial with
  | none => .error .missingInitialState
  | some s =>
    match b.duplicates with
    | d :: _ => .error (.duplicateState (σ.stateName d))
    | [] =>
      if h : b.config.contains s = true then
        .ok ⟨b.config, s, b.context, b.spawner, h⟩
      else .error (.unknownInitialState (σ.stateName s))

inductive Call (σ : Signature) where
  | state (s : σ.State) (d : StateDef σ)
  | stateWith (s : σ.State) (define : StateDef σ → StateDef σ)
  | initialState (s : σ.State)
  | initialContext (context : σ.Context)
  | spawnWith (spawner : Spawner)

def apply (b : Builder σ) : Call σ → Builder σ
  | .state s d => b.state s d
  | .stateWith s define => b.stateWith s define
  | .initialState s => b.initialState s
  | .initialContext context => b.initialContext context
  | .spawnWith spawner => b.spawnWith spawner

/-- The machine of a sequence of calls on a builder that starts with `context`. -/
def run (context : σ.Context) (calls : List (Call σ)) : Except BuildError (Machine σ) :=
  (calls.foldl apply (withContext context)).build

end Builder

end Statechart
