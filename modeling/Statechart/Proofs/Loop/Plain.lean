import Statechart.Proofs.Run.Reach

/-!
The plain loop. It enters a state, runs the commands of the body on their own up to the first
accepted dispatch, and goes on with the target; what the body would have done after that is
forgotten. The laws of this folder compare it with the machine, which keeps the rest of every body
on its stack and runs it later.
-/

namespace Statechart

variable {σ : Signature}

/-- An entry into a state: what it was caused by, and what it was given. -/
structure Visit (σ : Signature) where
  state : σ.State
  trigger : Trigger σ.Action
  payload : Option σ.Payload

/-- The entry of instance `i` that an event reports. -/
def Event.visit? (i : InstanceId) : Event σ → Option (Visit σ)
  | entered j s tr p => if j = i then some ⟨s, tr, p⟩ else none
  | started j _ s tr p => if j = i then some ⟨s, tr, p⟩ else none
  | _ => none

/-- The entries of instance `i`, in order. -/
def World.visits (w : World σ) (i : InstanceId) : List (Visit σ) :=
  w.history.filterMap (Event.visit? i)

/-! ### Scripts -/

/-- A script: it works on its own activation only, and what it hands over to be run later are
scripts as well. -/
inductive Code.Own : Code σ → Prop
  | done : Own (.finish .done)
  | cleanup {c} (h : Own c) : Own (.finish (.cleanup c))
  | raise (e) : Own (.raise e)
  | emit (n) {next} (h : Own next) : Own (.emit n next)
  | look {next} (h : ∀ v, Own (next v)) : Own (.look next)
  | setContext (c) {next} (h : Own next) : Own (.setContext c next)
  | dispatch (a p) {next} (h : ∀ r, Own (next r)) : Own (.dispatch a p next)
  | takePayload {next} (h : ∀ p, Own (next p)) : Own (.takePayload next)
  | onAbort {observer next} (ho : Own observer) (h : Own next) : Own (.onAbort observer next)
  | clearAbort {next} (h : Own next) : Own (.clearAbort next)

/-- The effects of the machine are scripts. -/
def Machine.Scripted (m : Machine σ) : Prop := ∀ s c, m.config.effect? s = some c → c.Own

/-! ### The loop -/

/-- How far a body comes on its own: to its end, or to a dispatch that is accepted. -/
inductive Pause (σ : Signature) where
  | ends (context : σ.Context)
  | moves (context : σ.Context) (action : σ.Action) (target : σ.State) (payload : Option σ.Payload)

/-- Where an action leads from the state `s`: to a declared target, or nowhere, with the answer
that the dispatch gets. -/
def Machine.outcome (m : Machine σ) (s : σ.State) (a : σ.Action) :
    σ.State ⊕ Except MachineError Unit :=
  match m.config.target? s a with
  | none => .inr (.ok ())
  | some t =>
    if m.config.contains t then .inl t
    else .inr (.error (.unknownTarget (σ.stateName s) (σ.actionName a) (σ.stateName t)))

/-- Runs the commands of a body that was entered in the state `s`. It has the context and the
payload for itself. -/
def Code.alone (m : Machine σ) (s : σ.State) (tr : Trigger σ.Action) :
    Code σ → σ.Context → Option σ.Payload → Pause σ
  | .emit _ next, x, p => next.alone m s tr x p
  | .look next, x, p => (next (some ⟨s, x, false, true, some (tr, p)⟩)).alone m s tr x p
  | .setContext y next, _, p => next.alone m s tr y p
  | .takePayload next, x, p => (next p).alone m s tr x none
  | .onAbort _ next, x, p => next.alone m s tr x p
  | .clearAbort next, x, p => next.alone m s tr x p
  | .dispatch a q next, x, p =>
    match m.outcome s a with
    | .inl t => .moves x a t q
    | .inr r => (next (some r)).alone m s tr x p
  | _, x, _ => .ends x

/-- Enters the state `s`, and goes on until a body comes to its end: the last state, the last
context, and the entries in order. There is no result if `fuel` entries are not enough. -/
def Machine.loop (m : Machine σ) : Nat → σ.State → σ.Context → Trigger σ.Action →
    Option σ.Payload → Option (σ.State × σ.Context × List (Visit σ))
  | 0, _, _, _, _ => none
  | fuel + 1, s, x, tr, p =>
    match m.config.effect? s with
    | none => some (s, x, [⟨s, tr, p⟩])
    | some c =>
      match c.alone m s tr x p with
      | .ends y => some (s, y, [⟨s, tr, p⟩])
      | .moves y a t q =>
        (m.loop fuel t y (.action a) q).map fun (s', z, visits) => (s', z, ⟨s, tr, p⟩ :: visits)

/-- Carries out an action in the state `s`. -/
def Machine.loopFrom (m : Machine σ) (fuel : Nat) (s : σ.State) (x : σ.Context) (a : σ.Action)
    (p : Option σ.Payload) : Option (σ.State × σ.Context × List (Visit σ)) :=
  match m.outcome s a with
  | .inl t => m.loop fuel t x (.action a) p
  | .inr _ => some (s, x, [])

/-- The state in which an instance is placed. -/
def Origin.state (m : Machine σ) : Origin σ → σ.State
  | .fresh => m.initialState
  | .recovered s _ => s.getD m.initialState
  | .resumed s _ => s

/-- The context with which an instance is placed. -/
def Origin.context (m : Machine σ) : Origin σ → σ.Context
  | .fresh => m.initialContext
  | .recovered _ x => x.getD m.initialContext
  | .resumed _ x => x

end Statechart
