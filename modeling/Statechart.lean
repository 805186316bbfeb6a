import Statechart.Binary
import Statechart.Calendar
import Statechart.Cell
import Statechart.Checkpoint
import Statechart.Code
import Statechart.Config
import Statechart.Display
import Statechart.Error
import Statechart.Event
import Statechart.Json
import Statechart.Json.Fault
import Statechart.Json.Reader
import Statechart.Json.Text
import Statechart.Machine
import Statechart.Member
import Statechart.Proofs.Lifecycle.Basic
import Statechart.Proofs.Run.Reach
import Statechart.Proofs.Run.Inversion
import Statechart.Roster
import Statechart.Run
import Statechart.Run.Basic
import Statechart.Run.Lifecycle
import Statechart.Run.Operation
import Statechart.Run.Polling
import Statechart.Script.Cells
import Statechart.Script.Command
import Statechart.Script.Configs
import Statechart.Script.Context
import Statechart.Script.Desk
import Statechart.Script.Meaning
import Statechart.Session
import Statechart.Signal
import Statechart.Signature
import Statechart.Table
import Statechart.Text
import Statechart.Timestamp
import Statechart.Timestamp.Reader
import Statechart.World
import Statechart.Proofs.Lifecycle.Move
import Statechart.Proofs.Lifecycle.Counted
import Statechart.Proofs.Lifecycle.Sound
import Statechart.Proofs.Lifecycle.Intact
import Statechart.Proofs.Activation.Expiry
import Statechart.Proofs.Activation.Discipline
import Statechart.Proofs.Activation.Window
import Statechart.Proofs.Loop.Plain
import Statechart.Proofs.Loop.Confined
import Statechart.Proofs.Loop.Script
import Statechart.Proofs.Loop.Residue
import Statechart.Proofs.Loop.Transition
import Statechart.Proofs.Loop.Body
import Statechart.Proofs.Loop.Agreement
import Statechart.Proofs.Lifecycle.Balance
import Statechart.Proofs.Activation.Cleanup
import Statechart.Proofs.Run.Ownership
import Statechart.Proofs.Run.Path
import Statechart.Proofs.Run.Journal
import Statechart.Proofs.Run.Stack
import Statechart.Proofs.Config.Report
import Statechart.Proofs.Activation.Release
import Statechart.Proofs.Activation.Rejection
import Statechart.Proofs.Transition.Course
import Statechart.Proofs.Transition.Edges
import Statechart.Proofs.Transition.Entries
import Statechart.Proofs.Transition.Declared
import Statechart.Proofs.Transition.Final
import Statechart.Proofs.Transition.Passage
import Statechart.Proofs.Codec.Calendar
import Statechart.Proofs.Codec.Timestamp
import Statechart.Proofs.Codec.Binary
import Statechart.Proofs.Codec.Json
import Statechart.Proofs.Checkpoint.Binary
import Statechart.Proofs.Checkpoint.Json
import Statechart.Proofs.Executor.Wakers
import Statechart.Proofs.Executor.Waiting
import Statechart.Proofs.Executor.Summons
import Statechart.Proofs.Executor.Wakeup
import Statechart.Proofs.Resume.Pairing
import Statechart.Proofs.Resume.Lockstep
import Statechart.Proofs.Resume.Answers
import Statechart.Proofs.Resume.Entry
import Statechart.Proofs.Resume.Checkpoint
import Statechart.Proofs.Cell.Delivery
import Statechart.Proofs.Run.Deed
import Statechart.Proofs.Run.Margin
import Statechart.Proofs.Executor.Polls
import Statechart.Proofs.Executor.Independence
import Statechart.Proofs.Deferral.Basic
import Statechart.Proofs.Deferral.Lockstep
import Statechart.Proofs.Deferral.Agreement
import Statechart.Proofs.Isolation.Log
import Statechart.Proofs.Isolation.Basic
import Statechart.Proofs.Isolation.Worlds
import Statechart.Proofs.Isolation.Lockstep
import Statechart.Proofs.Isolation.Alone
import Statechart.Proofs.Config.Declaration
import Statechart.Proofs.Config.Reordering
import Statechart.Proofs.Config.Meaning
import Statechart.Proofs.Cell.Backlog
import Statechart.Proofs.Cell.Sync
import Statechart.Proofs.Cell.Register
import Statechart.Proofs.Cell.Naming
import Statechart.Proofs.Observation.Scene
import Statechart.Proofs.Observation.Change
import Statechart.Proofs.Observation.Sync
import Statechart.Proofs.Observation.Naming
import Statechart.Proofs.Observation.Process
import Statechart.Proofs.Signal.Alarm
import Statechart.Proofs.Signal.Toll
import Statechart.Proofs.Signal.History
