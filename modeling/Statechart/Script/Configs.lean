import Statechart.Member
import Statechart.Config
import Statechart.Script.Command

/-!
Scripts over one configuration of texts: declaring states, asking for them, classifying and
validating.
-/

namespace Statechart.Script

/-- The order of texts by code points. -/
def sorted (l : List String) : List String := l.mergeSort (· ≤ ·)

/-- Pairs in the order of their first parts. -/
def sortedPairs {α : Type} (l : List (String × α)) : List (String × α) :=
  l.mergeSort fun a b => a.1 ≤ b.1

/-- Whether one transition stands before another: by source, action and target. -/
def danglingLe (a b : DanglingTarget) : Bool :=
  if a.source ≠ b.source then a.source ≤ b.source
  else if a.action ≠ b.action then a.action ≤ b.action
  else a.target ≤ b.target

/-- Reports in the order of source, action and target. -/
def sortedReport (l : List DanglingTarget) : List DanglingTarget := l.mergeSort danglingLe

/-- A definition as it is shown. -/
structure ShownDef where
  /-- The transitions in the order of their actions. -/
  on : List (String × String)
  hasEffect : Bool
  isFinal : Bool
  /-- The display form; with more than one transition there is none. -/
  text : Option String

/-- The signature of configurations of texts. -/
abbrev plain : Signature := signature .text

def shownDef (d : StateDef plain) : ShownDef where
  on := sortedPairs d.transitions.entries
  hasEffect := d.hasEffect
  isFinal := d.isFinal
  text := if d.transitions.size < 2 then some d.text else none

/-- A step of a script over a configuration. -/
inductive ConfigStep where
  | reset
  | insert (state : String) (d : StateDef plain)
  | get (state : String)
  | contains (state : String)
  | target (state action : String)
  | size
  | states
  | classify
  | isFinal (state : String)
  | saveFinals (name : String)
  | sameFinals (name : String)
  | validate

inductive ConfigAnswer where
  | nothing
  | rejected (state : String) (d : ShownDef)
  | shown (d : ShownDef)
  | flag (b : Bool)
  | text (s : String)
  | size (n : Nat)
  | states (l : List (String × ShownDef))
  | finals (l : List String)
  | report (l : List DanglingTarget)

/-- A configuration, and the final states that have been remembered. -/
structure ConfigSession where
  config : Config plain := {}
  finals : Table String (List String) := .empty

def ConfigSession.perform (s : ConfigSession) : ConfigStep → ConfigSession × ConfigAnswer
  | .reset => ({ s with config := {} }, .nothing)
  | .insert state d =>
    match s.config.insert state d with
    | .ok config => ({ s with config }, .nothing)
    | .error (state, d) => (s, .rejected state (shownDef d))
  | .get state => (s, ((s.config.get? state).map fun d => .shown (shownDef d)).getD .nothing)
  | .contains state => (s, .flag (s.config.contains state))
  | .target state action => (s, ((s.config.target? state action).map .text).getD .nothing)
  | .size => (s, .size s.config.size)
  | .states =>
    (s, .states (sortedPairs (s.config.states.entries.map fun e => (e.1, shownDef e.2))))
  | .classify => (s, .finals (sorted s.config.finals))
  | .isFinal state => (s, .flag (s.config.finals.contains state))
  | .saveFinals name => ({ s with finals := s.finals.insert name s.config.finals }, .nothing)
  | .sameFinals name =>
    (s, ((s.finals.get? name).map fun l => .flag (sameStates l s.config.finals)).getD .nothing)
  | .validate => (s, .report (sortedReport s.config.validate))

end Statechart.Script
