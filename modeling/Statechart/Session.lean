import Statechart.Checkpoint
import Statechart.Run

/-!
Sessions: a machine and the world of its instances, which live in named slots. From outside, a
session is worked on by whole runs, each of which takes at most as many steps as its fuel allows.
-/

namespace Statechart

variable {σ : Signature}

/-- A machine with the world of its instances. -/
structure Session (σ : Signature) where
  machine : Machine σ
  world : World σ := {}

/-- A session after a run, and how the run has ended, if it had the fuel for that. -/
abbrev Launched (σ : Signature) := Session σ × Option (Ending σ)

namespace Session

def launch (fuel : Nat) (s : Session σ) (r : Run σ) : Launched σ :=
  let r := r.steps s.machine fuel
  ({ s with world := r.world }, r.ending?)

/-- Runs code that works on nothing. -/
def run (fuel : Nat) (s : Session σ) (c : Code σ) : Launched σ := s.launch fuel (.ofCode s.world c)

/-- Places an instance in a slot, in the initial state with the initial context. -/
def instantiate (fuel : Nat) (s : Session σ) (slot : String) : Launched σ :=
  s.run fuel (.place slot .fresh Code.ofReply)

/-- Places an instance with persisted values, the machine's own where they are missing. -/
def recover (fuel : Nat) (s : Session σ) (slot : String) (state : Option σ.State)
    (context : Option σ.Context) : Launched σ :=
  s.run fuel (.place slot (.recovered state context) Code.ofReply)

/-- Places an instance with the values of a checkpoint whose version is known. -/
def resume (fuel : Nat) (s : Session σ) (slot : String) (c : Checkpoint σ.State σ.Context) :
    Session σ × Except CheckpointError (Option (Ending σ)) :=
  match c.checkVersion with
  | .error e => (s, .error e)
  | .ok c =>
    match s.run fuel (.place slot (.resumed c.state c.context) Code.ofReply) with
    | (s, some (.error e)) => (s, .error (.resume e))
    | (s, r) => (s, .ok r)

def send (fuel : Nat) (s : Session σ) (slot : String) (a : σ.Action) (p : Option σ.Payload) :
    Launched σ :=
  s.run fuel (.send slot a p Code.ofReply)

def drop (fuel : Nat) (s : Session σ) (slot : String) : Launched σ :=
  s.run fuel (.drop slot fun _ => .finish .done)

/-- Runs code on the handle kept under a name, if there is one. -/
def onHandle? (fuel : Nat) (s : Session σ) (name : String) (c : Code σ) : Option (Launched σ) :=
  (s.world.handles.get? name).map fun k => s.launch fuel (.onHandle s.world k c)

/-- What the instance in a slot shows of itself. -/
def peek? (s : Session σ) (slot : String) : Option (Snapshot σ) := s.world.peek? s.machine slot

/-- The checkpoint of the instance in a slot, stamped with an id and the time. -/
def checkpoint? (s : Session σ) (slot id : String) (timestamp : Timestamp) :
    Option (Checkpoint σ.State σ.Context) :=
  (s.peek? slot).map fun o => ⟨Checkpoint.supported, id, timestamp, o.state, o.context⟩

def poll? (fuel : Nat) (s : Session σ) : Option (Session σ) :=
  (Run.ofPoll? s.world).map fun r => (s.launch fuel r).1

/-- Polls ready tasks until there is none, at most `polls` of them, and counts the polls. -/
def pollAll (fuel : Nat) : Nat → Session σ → Session σ × Nat
  | 0, s => (s, 0)
  | polls + 1, s =>
    match s.poll? fuel with
    | none => (s, 0)
    | some s =>
      let (s, n) := pollAll fuel polls s
      (s, n + 1)

def withoutJournal (s : Session σ) : Session σ := { s with world := { s.world with journal := [] } }

/-- What a listener from level `least` on got to see of the events in the journal. -/
def reports (s : Session σ) (least : Option Level) : List (Report σ) :=
  s.world.history.filterMap (Event.report? least)

end Session

end Statechart
