import Statechart.Code
import Statechart.Script.Context

/-!
The language of scripts: the commands that stand in effect bodies, cleanups, futures and observers,
and the notes that they write.
-/

namespace Statechart.Script

variable {ι : Alphabet}

inductive SlotAnswer (ι : Alphabet) where
  /-- The slot is empty, or there is no subscription of that name. -/
  | absent
  | done
  | failed (e : MachineError)
  | found (b : Bool)
  | shown (state : ι.State) (context : Ctx) (isFinal : Bool)

inductive Note (ι : Alphabet) where
  | log (text : String)
  /-- The state, the context, whether the signal has fired, whether the context may be written,
  and for an effect body the trigger and the payload. -/
  | see (state : ι.State) (context : Ctx) (aborted canSetContext : Bool)
      (entry : Option (Trigger ι.Action × Option String))
  /-- The display forms of what the script runs on, and of a wait for its signal. -/
  | display (target wait : String)
  | take (payload : Option String)
  | returned (action : ι.Action) (error : Option MachineError)
  /-- No handle is kept under this name. -/
  | noHandle (name : String)
  | outcome (text : String) (isPending : Bool)
  | slot (operation slot : String) (answer : SlotAnswer ι)
  | sawState (name : String) (state : ι.State)
  | sawContext (name : String) (context : Ctx)

/-- The signature over which scripts are written. -/
abbrev signature (ι : Alphabet) : Signature := { ι with
  Context := Ctx
  Payload := String
  Note := Note ι }

/-- A condition on what a script sees. -/
inductive Cond (ι : Alphabet) where
  | less (k : Int64)
  | equals (k : Int64)
  | aborted
  | canSetContext
  /-- The entry was a placement. -/
  | initial
  | action (a : ι.Action)
  | payload
  | inState (slot : String) (s : ι.State)
  | not (c : Cond ι)

inductive Watched where
  | state
  | context

mutual

inductive Command (ι : Alphabet) : Type where
  | log (text : String)
  | see
  | display
  | set (context : Ctx)
  | add (k : Int64)
  | item (text : String)
  | take
  /-- Takes the payload and makes it the tag. -/
  | takeTag
  /-- Dispatches; a `strict` dispatch raises the error that it returns. -/
  | dispatch (action : ι.Action) (payload : Option String) (strict : Bool)
  | fail (state message : String)
  | onAbort (observer : List (Command ι))
  | clearAbort
  | save (name : String)
  | within (name : String) (commands : List (Command ι))
  | branch (cond : Cond ι) (yes no : List (Command ι))
  | slot (operation : SlotOp ι)

inductive SlotOp (ι : Alphabet) : Type where
  | create (slot : String)
  | send (slot : String) (action : ι.Action) (payload : Option String)
  | drop (slot : String)
  | inspect (slot : String)
  | observe (slot name : String) (watched : Watched) (commands : List (Command ι))
  | unobserve (slot name : String)

end

inductive Stage (ι : Alphabet) where
  | act (command : Command ι)
  | yield
  | never
  | awaitAbort (name : Option String)

inductive Finish (ι : Alphabet) where
  | done
  | cleanup (commands : List (Command ι))
  | async (stages : List (Stage ι)) (cleanup : Option (List (Command ι)))
  | fail (state message : String)
  | branch (cond : Cond ι) (yes no : Finish ι)

structure Effect (ι : Alphabet) where
  body : List (Command ι) := []
  finish : Finish ι := .done
  /-- Whether the outcome is written down before it is handed back. -/
  shown : Bool := false

end Statechart.Script
