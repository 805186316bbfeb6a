import Statechart.Cell
import Statechart.Display

/-!
Scripts over named cells of integers. An observer is a script too, which writes down what it is told
and what each of its commands answers.
-/

namespace Statechart.Script

inductive CellAnswer where
  | done
  | value (n : Int64)
  | flag (b : Bool)
  | absent
  | text (s : String)

/-- What scripts over cells write down. -/
inductive CellNote where
  | saw (name : String) (value : Int64)
  | did (name command : String) (answer : CellAnswer)
  /-- A command that stands for itself has returned. -/
  | answered (answer : CellAnswer)

inductive CellCommand where
  | get (cell : String)
  | set (cell : String) (value : Int64)
  /-- Writes `k` more than the value at hand, if that is below the limit. -/
  | bump (cell : String) (k limit : Int64)
  | subscribe (cell name : String) (commands : List CellCommand)
  | unsubscribe (cell name : String)
  | sameId (name other : String)
  | display (cell : String)

namespace CellCommand

def name : CellCommand → String
  | get _ => "get"
  | set _ _ => "set"
  | bump _ _ _ => "bump"
  | subscribe _ _ _ => "subscribe"
  | unsubscribe _ _ => "unsubscribe"
  | sameId _ _ => "same_id"
  | display _ => "debug"

/-- Code on cells of integers. -/
abbrev Body := CellCode Int64 CellNote

/-- The display form of what a look at a cell has shown. -/
def shown (o : Int64 × Nat) : String :=
  Text.record "ObservableCell" [("value", toString o.1.toInt), ("observers", toString o.2)]

/-- The code of `bump` for a value at hand. -/
def bumped (cell : String) (v k limit : Int64) (next : CellAnswer → Body) : Body :=
  if v < limit then .set cell (v + k) (next (.flag true)) else next (.flag false)

mutual

/-- The code of a command. The value at hand is the one that the observer has been told, or without
an observer that of the cell. -/
def code (seen : Option Int64) : CellCommand → (CellAnswer → Body) → Body
  | get cell, next => .look cell fun o => next ((o.map fun o => .value o.1).getD .absent)
  | set cell value, next => .set cell value (next .done)
  | bump cell k limit, next =>
    match seen with
    | some v => bumped cell v k limit next
    | none => .look cell fun o => (o.map fun o => bumped cell o.1 k limit next).getD (next .absent)
  | subscribe cell name commands, next =>
    .subscribe cell name (fun v => .emit (.saw name v) (codeOf name v commands)) (next .done)
  | unsubscribe cell name, next =>
    .unsubscribe cell name fun o => next ((o.map CellAnswer.flag).getD .absent)
  | sameId name other, next =>
    .named name fun a => .named other fun b => next (.flag (a = b))
  | display cell, next => .look cell fun o => next ((o.map fun o => .text (shown o)).getD .absent)

/-- The code of the commands of an observer that has been told `v`. -/
def codeOf (name : String) (v : Int64) : List CellCommand → Body
  | [] => .done
  | c :: rest =>
    c.code (some v) fun answer => .emit (.did name c.name answer) (codeOf name v rest)

end

end CellCommand

/-- What one command on cells has shown. -/
structure CellReport where
  answer : CellAnswer
  notes : List CellNote
  cells : List (String × Int64)

/-- Cells of integers with their observers. -/
abbrev Cells := CellWorld Int64 CellNote

namespace Cells

def ofPairs (l : List (String × Int64)) : Cells :=
  { cells := .ofPairs (l.map fun e => (e.1, ⟨e.2, []⟩)) }

def notes (journal : List (CellEvent Int64 CellNote)) : List CellNote :=
  journal.reverse.filterMap fun
    | .note n => some n
    | _ => none

/-- Performs a command, in at most `fuel` steps. The answer is the last note. -/
def perform (fuel : Nat) (w : Cells) (c : CellCommand) : Cells × CellReport :=
  let code := c.code none fun answer => .emit (.answered answer) .done
  let w' := (Agenda.steps fuel ⟨{ w with journal := [] }, [.run code]⟩).world
  let values := w'.cells.entries.map fun e => (e.1, e.2.value)
  match w'.journal with
  | .note (.answered answer) :: rest => (w', ⟨answer, notes rest, values⟩)
  | journal => (w', ⟨.absent, notes journal, values⟩)

end Cells

end Statechart.Script
