import Statechart.Session
import Statechart.Script.Configs
import Statechart.Script.Meaning

/-!
Scripts of steps that work on a session from outside. Every step answers with a result and with what
a listener got to see of it.
-/

namespace Statechart.Script

variable {ι : Alphabet}

/-- The written forms of checkpoints. -/
inductive Form where
  | json
  | binary

inductive Step (ι : Alphabet) where
  | slot (operation : SlotOp ι)
  | recover (slot : String) (state : Option ι.State) (context : Option Ctx)
  /-- Takes a checkpoint of an instance and keeps it under a name. -/
  | checkpoint (slot name : String)
  /-- Resumes a kept checkpoint, after writing and reading it if a form is given. -/
  | resume (slot name : String) (form : Option Form)
  /-- Resumes a checkpoint of this version, state and context. -/
  | resumeRaw (slot : String) (version : UInt32) (state : ι.State) (context : Ctx)
  | resumeJson (slot text : String)
  | resumeBinary (slot : String) (bytes : Binary.Bytes)
  | handle (name : String) (commands : List (Command ι))
  /-- Polls ready tasks until there is none. -/
  | run
  | poll
  | describe
  | describeOf (slot : String)
  | isFinal (state : ι.State)
  | displayMachine
  | displayInstance (slot : String)
  /-- Lets go of the machine; the instances keep it. -/
  | forget

/-- The description of a state: its name, its transitions in order, whether it has an effect, and
whether it is final. -/
structure StateDescription where
  name : String
  on : List (String × String)
  hasEffect : Bool
  isFinal : Bool

/-- The description of a machine, with everything in order. -/
structure Description where
  states : List StateDescription
  finals : List String
  initial : String
  context : Ctx
  report : List DanglingTarget

def describe (m : Machine (signature ι)) : Description where
  states := (m.config.states.entries.map fun e => (
      { name := ι.stateName e.1
        on := sortedPairs (e.2.transitions.entries.map fun p =>
          (ι.actionName p.1, ι.stateName p.2))
        hasEffect := e.2.hasEffect
        isFinal := e.2.isFinal } : StateDescription)).mergeSort fun a b => a.name ≤ b.name
  finals := sorted (m.finals.map ι.stateName)
  initial := ι.stateName m.initialState
  context := m.initialContext
  report := sortedReport m.config.validate

inductive Result (ι : Alphabet) where
  | slot (a : SlotAnswer ι)
  | failed (e : CheckpointError)
  | flag (b : Bool)
  | count (n : Nat)
  | text (s : String)
  | checkpoint (c : Checkpoint ι.State Ctx)
  | described (d : Description)

/-- A session with the checkpoints that have been kept. -/
structure Desk (ι : Alphabet) where
  states : Codec ι.State
  session : Session (signature ι)
  checkpoints : Table String (Checkpoint ι.State Ctx) := .empty

namespace Desk

/-- The result of a run that answers for a slot. -/
def resultOf : Option (Ending (signature ι)) → Result ι
  | none => .slot .absent
  | some r => .slot (answerOf (some r.reply))

/-- The desk after a run, with the result of the run. -/
def after (d : Desk ι) (l : Launched (signature ι)) : Desk ι × Result ι :=
  ({ d with session := l.1 }, resultOf l.2)

/-- The id with which checkpoints are stamped. -/
def stamp : String := "00000000-0000-4000-8000-000000000000"

/-- Resumes a checkpoint in a slot, if it could be read. -/
def resume (fuel : Nat) (d : Desk ι) (slot : String)
    (c : Except CheckpointError (Checkpoint ι.State Ctx)) : Desk ι × Result ι :=
  match c with
  | .error e => (d, .failed e)
  | .ok c =>
    match d.session.resume fuel slot c with
    | (session, .error e) => ({ d with session }, .failed e)
    | (session, .ok r) => ({ d with session }, resultOf r)

/-- A checkpoint after it has been written and read. -/
def throughForm (d : Desk ι) (c : Checkpoint ι.State Ctx) :
    Option Form → Except CheckpointError (Checkpoint ι.State Ctx)
  | none => .ok c
  | some .json => (c.toJson d.states Ctx.codec).bind (Checkpoint.ofJson d.states Ctx.codec)
  | some .binary => (c.toBinary d.states Ctx.codec).bind (Checkpoint.ofBinary d.states Ctx.codec)

/-- Performs an operation on a slot. Its last event is the note of its answer, which is the result
instead. -/
def slotStep (fuel : Nat) (d : Desk ι) (operation : SlotOp ι) : Desk ι × Result ι :=
  let session := (d.session.run fuel (operation.code (.finish .done))).1
  match session.world.journal with
  | .note (.slot _ _ a) :: journal =>
    ({ d with session := { session with world := { session.world with journal } } }, .slot a)
  | _ => ({ d with session }, .slot .absent)

/-- Performs a step; each run in it takes at most `fuel` steps. -/
def perform (fuel : Nat) (d : Desk ι) : Step ι → Desk ι × Result ι
  | .slot operation => d.slotStep fuel operation
  | .recover slot state context => d.after (d.session.recover fuel slot state context)
  | .checkpoint slot name =>
    match d.session.checkpoint? slot stamp .epoch with
    | none => (d, .slot .absent)
    | some c => ({ d with checkpoints := d.checkpoints.insert name c }, .checkpoint c)
  | .resume slot name form =>
    match d.checkpoints.get? name with
    | none => (d, .slot .absent)
    | some c => d.resume fuel slot (d.throughForm c form)
  | .resumeRaw slot version state context =>
    d.resume fuel slot (.ok ⟨version, stamp, .epoch, state, context⟩)
  | .resumeJson slot text => d.resume fuel slot (Checkpoint.ofJson d.states Ctx.codec text)
  | .resumeBinary slot bytes => d.resume fuel slot (Checkpoint.ofBinary d.states Ctx.codec bytes)
  | .handle name commands =>
    match d.session.onHandle? fuel name (codeOf commands ending) with
    | none => (d, .slot .absent)
    | some l => d.after l
  | .run =>
    let (session, n) := d.session.pollAll fuel fuel
    ({ d with session }, .count (if session.machine.spawner = some .pool then 0 else n))
  | .poll =>
    match d.session.poll? fuel with
    | none => (d, .flag false)
    | some session => ({ d with session }, .flag true)
  | .describe => (d, .described (describe d.session.machine))
  | .describeOf slot =>
    match d.session.peek? slot with
    | none => (d, .slot .absent)
    | some _ => (d, .described (describe d.session.machine))
  | .isFinal state => (d, .flag (d.session.machine.isFinal state))
  | .displayMachine => (d, .text d.session.machine.text)
  | .displayInstance slot =>
    match d.session.peek? slot with
    | none => (d, .slot .absent)
    | some o => (d, .text (o.text Ctx.text))
  | .forget => (d, .slot .done)

/-- What a step has shown: its result, the reports of a listener, and every instance after it. -/
structure StepReport (ι : Alphabet) where
  result : Result ι
  reports : List (Report (signature ι))
  slots : List (String × Snapshot (signature ι))

/-- Performs a step while a listener from level `least` on listens. The journal holds the events of
the step alone. -/
def observe (fuel : Nat) (least : Option Level) (d : Desk ι) (step : Step ι) :
    Desk ι × StepReport ι :=
  let (d, result) := { d with session := d.session.withoutJournal }.perform fuel step
  (d, { result
        reports := d.session.reports least
        slots := d.session.world.slots.keys.filterMap fun name =>
          (d.session.peek? name).map fun o => (name, o) })

def observeAll (fuel : Nat) (least : Option Level) : Desk ι → List (Step ι) → List (StepReport ι)
  | _, [] => []
  | d, step :: rest =>
    let (d, report) := d.observe fuel least step
    report :: observeAll fuel least d rest

end Desk

end Statechart.Script
