import Statechart.Display
import Statechart.Script.Command

/-!
What scripts do: every command is the code of its operations. A command hands on how it ended, so
that an error stops the script that it stands in.
-/

namespace Statechart.Script

variable {ι : Alphabet}

/-- What follows a command, by how the command ended. -/
abbrev Next (ι : Alphabet) := Except MachineError Unit → Code (signature ι)

/-- The end of a script whose outcome is not asked for. -/
def ending : Next ι
  | .ok _ => .finish .done
  | .error e => .raise e

/-- Looks at the activation; a script that works on nothing skips what looks. -/
def looking (k : Next ι) (f : View (signature ι) → Code (signature ι)) : Code (signature ι) :=
  .look fun
    | none => k (.ok ())
    | some v => f v

/-- Replaces the context by what `f` makes of it. -/
def changing (f : Ctx → Ctx) (k : Next ι) : Code (signature ι) :=
  looking k fun v => .setContext (f v.context) (k (.ok ()))

def errorOf : Except MachineError Unit → Option MachineError
  | .ok _ => none
  | .error e => some e

/-- The answer of a call on a slot. -/
def answerOf : Reply → SlotAnswer ι
  | none => .absent
  | some (.ok _) => .done
  | some (.error e) => .failed e

def Cond.code (c : Cond ι) (k : Bool → Code (signature ι)) : Code (signature ι) :=
  match c with
  | less n => .look fun v => k (v.any fun v => v.context.n < n)
  | equals n => .look fun v => k (v.any fun v => v.context.n = n)
  | aborted => .look fun v => k (v.any View.aborted)
  | canSetContext => .look fun v => k (v.any View.canSetContext)
  | initial => .look fun v => k ((v.bind View.entry).any fun e => e.1.isInitial)
  | action a => .look fun v => k ((v.bind View.entry).any fun e => e.1 = .action a)
  | payload => .look fun v => k ((v.bind View.entry).any fun e => e.2.isSome)
  | inState slot s => .peek slot fun o => k (o.any fun o => o.state = s)
  | not c => c.code fun b => k (!b)

mutual

def Command.code : Command ι → Next ι → Code (signature ι)
  | .log text, k => .emit (.log text) (k (.ok ()))
  | .see, k =>
    looking k fun v =>
      .emit (.see v.state v.context v.aborted v.canSetContext v.entry) (k (.ok ()))
  | .display, k => looking k fun v => .emit (.display v.text v.waitText) (k (.ok ()))
  | .set context, k => .setContext context (k (.ok ()))
  | .add n, k => changing (fun c => { c with n := c.n + n }) k
  | .item text, k => changing (fun c => { c with items := c.items ++ [text] }) k
  | .take, k => .takePayload fun p => .emit (.take p) (k (.ok ()))
  | .takeTag, k => .takePayload fun p => changing (fun c => { c with tag := p }) k
  | .dispatch a p strict, k =>
    .dispatch a p fun
      | none => k (.ok ())
      | some r => .emit (.returned a (errorOf r)) (k (if strict then r else .ok ()))
  | .fail state message, k => k (.error (.effectFailed state message))
  | .onAbort observer, k => .onAbort (codeOf observer ending) (k (.ok ()))
  | .clearAbort, k => .clearAbort (k (.ok ()))
  | .save name, k => .keep name (k (.ok ()))
  | .within name commands, k =>
    .within name (codeOf commands ending) fun
      | none => .emit (.noHandle name) (k (.ok ()))
      | some r => k r
  | .branch cond yes no, k => cond.code fun b => if b then codeOf yes k else codeOf no k
  | .slot operation, k => operation.code (k (.ok ()))

def SlotOp.code : SlotOp ι → Code (signature ι) → Code (signature ι)
  | .create slot, k =>
    .holding slot (.place slot .fresh Code.ofReply) fun r =>
      .emit (.slot "new" slot (answerOf r)) k
  | .send slot a p, k => .send slot a p fun r => .emit (.slot "inst" slot (answerOf r)) k
  | .drop slot, k =>
    .drop slot fun b => .emit (.slot "drop" slot (if b then .done else .absent)) k
  | .inspect slot, k =>
    .peek slot fun
      | none => .emit (.slot "state" slot .absent) k
      | some o => .emit (.slot "state" slot (.shown o.state o.context o.isFinal)) k
  | .observe slot name .state commands, k =>
    .watchState slot name
      (fun s => .emit (.sawState name s) (codeOf commands ending))
      fun b => .emit (.slot "observe" slot (if b then .done else .absent)) k
  | .observe slot name .context commands, k =>
    .watchContext slot name
      (fun c => .emit (.sawContext name c) (codeOf commands ending))
      fun b => .emit (.slot "observe" slot (if b then .done else .absent)) k
  | .unobserve slot name, k =>
    .unwatch slot name fun
      | none => .emit (.slot "unsubscribe" slot .absent) k
      | some b => .emit (.slot "unsubscribe" slot (.found b)) k

/-- The code of a list of commands, which an error cuts short. -/
def codeOf : List (Command ι) → Next ι → Code (signature ι)
  | [], k => k (.ok ())
  | c :: rest, k =>
    c.code fun
      | .ok _ => codeOf rest k
      | .error e => k (.error e)

end

/-- The future of a list of stages, which an error cuts short. It may ask for a cleanup, and owns
nothing that has a destructor. -/
def futureOf (cleanup : Option (List (Command ι))) : List (Stage ι) → Future (signature ι)
  | [] => ended
  | .act command :: rest =>
    .act (command.code ending) fun
      | .ok _ => futureOf cleanup rest
      | .error _ => ended
  | .yield :: rest => .yield (futureOf cleanup rest) none
  | .never :: _ => .never none
  | .awaitAbort name :: rest => .awaitAbort name (futureOf cleanup rest) none
where
  ended : Future (signature ι) :=
    match cleanup with
    | none => .resolved
    | some commands => .resolvedWith (codeOf commands ending)

def outcomeText {σ : Signature} : Outcome σ → String
  | .done => "Done"
  | .cleanup _ => "Cleanup(..)"
  | .pending _ => "Pending(..)"

def isPending {σ : Signature} : Outcome σ → Bool
  | .pending _ => true
  | _ => false

/-- Hands back an outcome, after writing it down if it is to be shown. -/
def handBack (shown : Bool) (o : Outcome (signature ι)) : Code (signature ι) :=
  if shown then .emit (.outcome (outcomeText o) (isPending o)) (.finish o) else .finish o

/-- The code of the end of an effect body. -/
def Finish.code (shown : Bool) : Finish ι → Code (signature ι)
  | done => handBack shown .done
  | cleanup commands => handBack shown (.cleanup (codeOf commands ending))
  | async stages commands => handBack shown (.pending (futureOf commands stages))
  | fail state message => .raise (.effectFailed state message)
  | branch cond yes no => cond.code fun b => if b then yes.code shown else no.code shown

def Effect.code (e : Effect ι) : Code (signature ι) :=
  codeOf e.body fun
    | .ok _ => e.finish.code e.shown
    | .error err => .raise err

end Statechart.Script
