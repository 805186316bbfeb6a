import Statechart.Proofs.Cell.Naming
import Statechart.Proofs.Observation.Naming
import Statechart.Proofs.Transition.Entries

/-!
All that draws subscription ids from one counter: any number of groups of cells and of runs, with
observers of their own. What they do comes in any order, one between the steps of another, as it
does when an observer here works on something there; and whoever has an id may pass it on.
-/

namespace Statechart

variable {ι κ : Type} {α ν : ι → Type} {σ : κ → Signature}

/-- Agendas and runs that draw subscription ids from one counter. -/
structure Process (α ν : ι → Type) (σ : κ → Signature) where
  /-- The id of the next subscription. -/
  next : SubscriptionId
  agendas : ∀ i, Agenda (α i) (ν i)
  runs : ∀ k, Run (σ k)

/-- Where observers are registered: with a cell of an agenda, or at a spot of a run. -/
inductive Place (ι κ : Type) where
  | cell (i : ι) (name : String)
  | spot (k : κ) (p : Spot)
  deriving DecidableEq

namespace Process

section

variable (P : Process α ν σ)

/-- An agenda, with the counter of the process. -/
def agenda (i : ι) : Agenda (α i) (ν i) :=
  { P.agendas i with world := { (P.agendas i).world with nextSubscription := P.next } }

/-- A run, with the counter of the process. -/
def run (k : κ) : Run (σ k) :=
  { P.runs k with world := { (P.runs k).world with nextSubscription := P.next } }

/-- The ids that are registered at every place. -/
def register : Register (Place ι κ) where
  next := P.next
  ids
    | .cell i name => (P.agendas i).world.view.ids name
    | .spot k p => (P.runs k).world.ids p

/-- No cell is observed, and nothing has run. -/
structure Fresh : Prop where
  cells : ∀ i name, (P.agendas i).world.view.ids name = []
  runs : ∀ k, ∃ c, P.runs k = .ofCode {} c

variable [DecidableEq ι] [DecidableEq κ]

/-- What is left when an agenda has come to `a`. -/
def putAgenda (i : ι) (a : Agenda (α i) (ν i)) : Process α ν σ :=
  { P with next := a.world.nextSubscription, agendas := Function.update P.agendas i a }

/-- What is left when a run has come to `r`. -/
def putRun (k : κ) (r : Run (σ k)) : Process α ν σ :=
  { P with next := r.world.nextSubscription, runs := Function.update P.runs k r }

end

variable [DecidableEq ι] [DecidableEq κ] {m : ∀ k, Machine (σ k)} {P P' : Process α ν σ}
  {es : List (Entry (Place ι κ))} {e : Option (Entry (Place ι κ))}

/-- **What one of all of them does next**, with what that means for the ids. -/
inductive Act (m : ∀ k, Machine (σ k)) :
    Process α ν σ → Option (Entry (Place ι κ)) → Process α ν σ → Prop
  | agenda {P : Process α ν σ} {i : ι} {a : Agenda (α i) (ν i)}
      {e : Option (CellEvent (α i) (ν i))} (hn : Agenda.Next (P.agenda i) a)
      (hj : a.world.journal = e.toList ++ (P.agenda i).world.journal) :
      Act m P ((e.bind CellEvent.mention?).map (Entry.map (.cell i))) (P.putAgenda i a)
  | step {P : Process α ν σ} {k : κ} {r : Run (σ k)} (hs : (P.run k).step (m k) = some r) :
      Act m P ((P.run k).mention?.map (Entry.map (.spot k))) (P.putRun k r)
  | turn {P : Process α ν σ} {k : κ} {r : Run (σ k)} (ht : (P.run k).Turn r) :
      Act m P none (P.putRun k r)
  /-- Code in an agenda is told of ids. -/
  | tellAgenda {P : Process α ν σ} (i : ι) (names : Table String SubscriptionId) :
      Act m P none (P.putAgenda i
        { P.agenda i with world := { (P.agenda i).world with names := names } })
  /-- Code in a run is told of ids. -/
  | tellRun {P : Process α ν σ} (k : κ) (names : Table String SubscriptionId) :
      Act m P none (P.putRun k
        { P.run k with world := { (P.run k).world with subscriptions := names } })

/-- **What all of them come to**, with what has happened to the ids. -/
inductive Log (m : ∀ k, Machine (σ k)) : List (Entry (Place ι κ)) → Process α ν σ → Prop
  | start {P : Process α ν σ} (h : P.Fresh) : Log m [] P
  | act {es : List (Entry (Place ι κ))} {P P' : Process α ν σ} {e : Option (Entry (Place ι κ))}
      (h : Log m es P) (ha : Act m P e P') : Log m (es ++ e.toList) P'

/-! ### Places -/

theorem becomes_putAgenda {i : ι} {a : Agenda (α i) (ν i)} {e : Option (Entry String)}
    (h : (P.agenda i).world.register.Becomes e a.world.register) :
    P.register.Becomes (e.map (Entry.map (Place.cell i))) (P.putAgenda i a).register := by
  refine h.lift (Place.cell i) (fun x y hxy => (Place.cell.inj hxy).2) rfl (fun _ => rfl) rfl
    (fun name => ?_) fun q hq => ?_
  · simp only [register, putAgenda, Function.update_self]
    rfl
  · cases q with
    | spot k p => rfl
    | cell j name =>
      have hj : j ≠ i := by
        rintro rfl
        exact hq name rfl
      simp only [register, putAgenda, Function.update_of_ne hj]

theorem becomes_putRun {k : κ} {r : Run (σ k)} {e : Option (Entry Spot)}
    (h : (P.run k).world.register.Becomes e r.world.register) :
    P.register.Becomes (e.map (Entry.map (Place.spot k))) (P.putRun k r).register := by
  refine h.lift (Place.spot k) (fun x y hxy => (Place.spot.inj hxy).2) rfl (fun _ => rfl) rfl
    (fun p => ?_) fun q hq => ?_
  · simp only [register, putRun, Function.update_self]
    rfl
  · cases q with
    | cell i name => rfl
    | spot j p =>
      have hj : j ≠ k := by
        rintro rfl
        exact hq p rfl
      simp only [register, putRun, Function.update_of_ne hj]

omit [DecidableEq ι] in
theorem housed_putRun {k : κ} {r : Run (σ k)} (h : ∀ j, (P.runs j).Housed) (hr : r.Housed) (j : κ) :
    ((P.putRun k r).runs j).Housed := by
  by_cases hj : j = k
  · subst hj
    simpa [putRun] using hr
  · simpa [putRun, Function.update_of_ne hj] using h j

/-- Whoever does something leaves what that means for the ids. -/
theorem Act.becomes (ha : Act m P e P') (hP : ∀ k, (P.runs k).Housed) :
    P.register.Becomes e P'.register ∧ ∀ k, (P'.runs k).Housed := by
  have hrun (k) : (P.run k).Housed := hP k
  cases ha with
  | agenda hn hj => exact ⟨becomes_putAgenda (hn.becomes hj), hP⟩
  | @step k r hs =>
    exact ⟨becomes_putRun ((hrun k).becomes hs), housed_putRun hP ((hrun k).step hs)⟩
  | @turn k r ht =>
    exact ⟨becomes_putRun (e := none) (Run.register_turn ht), housed_putRun hP ((hrun k).turn ht)⟩
  | tellAgenda i names => exact ⟨becomes_putAgenda (e := none) rfl, hP⟩
  | tellRun k names => exact ⟨becomes_putRun (e := none) rfl, housed_putRun hP (hP k)⟩

theorem Log.register (h : Log m es P) :
    (∃ start, Register.Log start es P.register) ∧ ∀ k, (P.runs k).Housed := by
  induction h with
  | @start P hP =>
    have hregister : P.register = ⟨P.next, fun _ => []⟩ := by
      refine Register.ext rfl (funext fun p => ?_)
      cases p with
      | cell i name => exact hP.cells i name
      | spot k p =>
        obtain ⟨c, hc⟩ := hP.runs k
        cases p <;> simp [Process.register, hc, Run.ofCode, World.ids, World.cell?]
    refine ⟨⟨P.next, hregister ▸ .nil⟩, fun k => ?_⟩
    obtain ⟨c, hc⟩ := hP.runs k
    exact hc ▸ Run.Housed.start c
  | act _ ha ih =>
    obtain ⟨⟨start, hlog⟩, hP⟩ := ih
    obtain ⟨hbecomes, hP'⟩ := ha.becomes hP
    exact ⟨⟨start, hlog.becomes hbecomes⟩, hP'⟩

/-! ### What ids name -/

/-- What a run means for the ids in its next steps. -/
def entries {σ : Signature} (m : Machine σ) : Nat → Run σ → List (Entry Spot)
  | 0, _ => []
  | n + 1, r =>
    match r.step m with
    | none => []
    | some r' => r.mention?.toList ++ entries m n r'

/-- A run may go on alone for a while. -/
theorem Log.alone (h : Log m es P) (k : κ) (n : Nat) :
    ∃ P', Log m (es ++ (entries (m k) n (P.run k)).map (Entry.map (Place.spot k))) P' ∧
      P'.run k = (P.run k).steps (m k) n ∧ P'.agendas = P.agendas := by
  induction n generalizing es P with
  | zero => exact ⟨P, by simpa [entries] using h, rfl, rfl⟩
  | succ n ih =>
    cases hs : (P.run k).step (m k) with
    | none => exact ⟨P, by simpa [entries, hs] using h, (Run.steps_of_none hs _).symm, rfl⟩
    | some r =>
      obtain ⟨P', hlog, hrun, hagendas⟩ := ih (h.act (.step hs))
      have hr : (P.putRun k r).run k = r := by
        simp [run, putRun]
      rw [hr] at hlog hrun
      refine ⟨P', ?_, hrun.trans (Run.steps_succ hs n).symm, hagendas⟩
      rw [entries, hs]
      cases he : (P.run k).mention? <;> simpa [he] using hlog

end Process

/-- A cell and the lamp, each of which is to be observed for a while. -/
def Lamp.beside :
    Process (fun _ : Unit => Nat) (fun _ : Unit => Empty) fun _ : Unit => Lamp.sig where
  next := 0
  agendas _ :=
    { world := { cells := .ofPairs [("c", ⟨0, []⟩)] }
      tasks := [.run (.subscribe "c" "o" (fun _ => .done) (.unsubscribe "c" "o" fun _ => .done))] }
  runs _ := .ofCode {} (.place "lamp" .fresh fun _ =>
    .watchState "lamp" "o" (fun _ => .finish .done) fun _ =>
      .unwatch "lamp" "o" fun _ => .finish .done)

end Statechart
