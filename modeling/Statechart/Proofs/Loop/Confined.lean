import Statechart.Proofs.Loop.Plain

/-!
Code that keeps to itself. It works on its own activation only, through the environment of the body
or through the handle, and so does all that it hands over: its cleanup, its abort observer, and the
future as which it goes on. The scripts of the plain loop are of this kind.
-/

namespace Statechart

variable {σ : Signature} {r : Run σ}

mutual

/-- Code that works on its own activation only, and hands over nothing else to be run later. -/
inductive Code.Confined {σ : Signature} : Code σ → Prop
  | finish {o : Outcome σ} (h : Outcome.Confined o) : Code.Confined (.finish o)
  | raise (e : MachineError) : Code.Confined (.raise e)
  | emit (n : σ.Note) {next : Code σ} (h : Code.Confined next) : Code.Confined (.emit n next)
  | look {next : Option (View σ) → Code σ} (h : ∀ v, Code.Confined (next v)) :
      Code.Confined (.look next)
  | setContext (x : σ.Context) {next : Code σ} (h : Code.Confined next) :
      Code.Confined (.setContext x next)
  | dispatch (a : σ.Action) (p : Option σ.Payload) {next : Reply → Code σ}
      (h : ∀ q, Code.Confined (next q)) : Code.Confined (.dispatch a p next)
  | takePayload {next : Option σ.Payload → Code σ} (h : ∀ p, Code.Confined (next p)) :
      Code.Confined (.takePayload next)
  | onAbort {observer next : Code σ} (ho : Code.Confined observer) (h : Code.Confined next) :
      Code.Confined (.onAbort observer next)
  | clearAbort {next : Code σ} (h : Code.Confined next) : Code.Confined (.clearAbort next)
  | keep (name : String) {next : Code σ} (h : Code.Confined next) :
      Code.Confined (.keep name next)

/-- What a body hands back that works on its own activation only. -/
inductive Outcome.Confined {σ : Signature} : Outcome σ → Prop
  | done : Outcome.Confined .done
  | cleanup {c : Code σ} (h : Code.Confined c) : Outcome.Confined (.cleanup c)
  | pending {f : Future σ} (h : Future.Confined f) : Outcome.Confined (.pending f)

/-- A future that works on its own activation only, and so do its destructors. The cleanup that it
asks for is never run. -/
inductive Future.Confined {σ : Signature} : Future σ → Prop
  | resolved : Future.Confined .resolved
  | resolvedWith (c : Code σ) : Future.Confined (.resolvedWith c)
  | act {c : Code σ} {next : Except MachineError Unit → Future σ} (hc : Code.Confined c)
      (h : ∀ q, Future.Confined (next q)) : Future.Confined (.act c next)
  | yield {next : Future σ} {last : Option (Code σ)} (h : Future.Confined next)
      (hl : ∀ c, last = some c → Code.Confined c) : Future.Confined (.yield next last)
  | never {last : Option (Code σ)} (hl : ∀ c, last = some c → Code.Confined c) :
      Future.Confined (.never last)
  | awaitAbort {next : Future σ} {last : Option (Code σ)} (h : Future.Confined next)
      (hl : ∀ c, last = some c → Code.Confined c) :
      Future.Confined (.awaitAbort none next last)

end

/-- The effects of the machine keep to themselves. -/
def Machine.Confined (m : Machine σ) : Prop := ∀ s c, m.config.effect? s = some c → c.Confined

/-- What has ended hands over nothing that works on anything else. -/
def Ending.Confined (e : Ending σ) : Prop := ∀ o, e = .ok o → o.Confined

/-- The code that an activation is given to keep at this moment: an abort observer, or the cleanup
that its body hands back. -/
def Run.given? (r : Run σ) : Option (Code σ) :=
  match r.control, r.stack with
  | .code t (.onAbort o _), _ => t.activation?.map fun _ => o
  | .ended (.ok (.cleanup c)), .body _ :: _ => some c
  | _, _ => none

/-- What an activation is given to keep at this moment keeps to itself. -/
def Run.Confined (r : Run σ) : Prop := ∀ c, r.given? = some c → c.Confined

theorem Code.Own.confined {c : Code σ} (h : c.Own) : c.Confined := by
  induction h with
  | done => exact .finish .done
  | cleanup _ ih => exact .finish (.cleanup ih)
  | raise e => exact .raise e
  | emit n _ ih => exact .emit n ih
  | look _ ih => exact .look ih
  | setContext x _ ih => exact .setContext x ih
  | dispatch a p _ ih => exact .dispatch a p ih
  | takePayload _ ih => exact .takePayload ih
  | onAbort _ _ iho ih => exact .onAbort iho ih
  | clearAbort _ ih => exact .clearAbort ih

theorem Ending.confined_done : Ending.Confined (.done : Ending σ) := by
  rintro _ ⟨⟩
  exact .done

theorem Ending.confined_error (e : MachineError) : Ending.Confined (.error e : Ending σ) := by
  rintro _ ⟨⟩

end Statechart
