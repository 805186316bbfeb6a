import Statechart.Table
import Statechart.Code

/-!
Configurations: what each declared state does with an action, and what runs while it is active.
Also the states without a way out, and the transitions that lead nowhere.
-/

namespace Statechart

variable {σ : Signature}

/-- The definition of one state. -/
structure StateDef (σ : Signature) where
  /-- Where each accepted action leads. -/
  transitions : Table σ.Action σ.State := .empty
  /-- What runs on every entry. -/
  effect : Option (Code σ) := none

namespace StateDef

/-- The definition with a transition for `action`, in place of an earlier one. -/
def on (d : StateDef σ) (action : σ.Action) (target : σ.State) : StateDef σ :=
  { d with transitions := d.transitions.insert action target }

/-- The definition with `code` as its effect, in place of an earlier one. -/
def withEffect (d : StateDef σ) (code : Code σ) : StateDef σ := { d with effect := some code }

inductive Clause (σ : Signature) where
  | on (action : σ.Action) (target : σ.State)
  | effect (code : Code σ)

def apply (d : StateDef σ) : Clause σ → StateDef σ
  | .on action target => d.on action target
  | .effect code => d.withEffect code

/-- The definition that the clauses make of `d`, one after another. -/
def extend (d : StateDef σ) (clauses : List (Clause σ)) : StateDef σ := clauses.foldl apply d

def ofTransitions (pairs : List (σ.Action × σ.State)) : StateDef σ :=
  { transitions := .ofPairs pairs }

/-- Where `action` leads, if it is accepted. -/
def target? (d : StateDef σ) (action : σ.Action) : Option σ.State := d.transitions.get? action

def hasEffect (d : StateDef σ) : Bool := d.effect.isSome

def isFinal (d : StateDef σ) : Bool := d.transitions.isEmpty

/-- The display form; the transitions stand in the order of their first declaration. -/
def text (d : StateDef σ) : String :=
  Text.record "StateDef"
    [("transitions",
        Text.mapped (d.transitions.entries.map fun e => (σ.actionText e.1, σ.stateText e.2))),
     ("effect", Text.flag d.hasEffect)]

end StateDef

/-- The definitions of the declared states. -/
structure Config (σ : Signature) where
  states : Table σ.State (StateDef σ) := .empty

namespace Config

def empty : Config σ := {}

def get? (c : Config σ) (s : σ.State) : Option (StateDef σ) := c.states.get? s

def contains (c : Config σ) (s : σ.State) : Bool := c.states.contains s

/-- Declares a state; a state that is declared already hands the definition back. -/
def insert (c : Config σ) (s : σ.State) (d : StateDef σ) :
    Except (σ.State × StateDef σ) (Config σ) :=
  if c.contains s then .error (s, d) else .ok ⟨c.states.insert s d⟩

/-- Where `action` leads from `s`. -/
def target? (c : Config σ) (s : σ.State) (action : σ.Action) : Option σ.State :=
  (c.get? s).bind fun d => d.target? action

def effect? (c : Config σ) (s : σ.State) : Option (Code σ) := (c.get? s).bind StateDef.effect

def size (c : Config σ) : Nat := c.states.size

/-- The declared states without a transition. -/
def finals (c : Config σ) : List σ.State :=
  (c.states.entries.filter fun e => e.2.isFinal).map Prod.fst

/-- Every transition of a declared state to one that is not declared. -/
def dangling (c : Config σ) : List (σ.State × σ.Action × σ.State) :=
  c.states.entries.flatMap fun e =>
    (e.2.transitions.entries.filter fun p => !c.contains p.2).map fun p => (e.1, p.1, p.2)

/-- The report of all dangling transitions, by names; it is empty for a consistent configuration. -/
def validate (c : Config σ) : List DanglingTarget :=
  c.dangling.map fun d => ⟨σ.stateName d.1, σ.actionName d.2.1, σ.stateName d.2.2⟩

end Config

/-- Whether two lists of distinct states are the same set. -/
def sameStates {α : Type} [DecidableEq α] (l m : List α) : Bool :=
  l.all (m.contains ·) && m.all (l.contains ·)

end Statechart
