import Statechart.Proofs.Config.Report
import Statechart.Proofs.Executor.Polls

/-!
Effects whose script is deferred to a future. An effect body that performs a script and is done
stands beside one that hands back a future, which performs the script when it is first polled. The
machines of the two differ in the effect of one state only; `Stand` says how far apart their runs
are while scripts are being performed on either side.
-/

namespace Statechart

variable {σ : Signature}

/-! ### Scripts -/

/-- What code sees from outside an effect body: not what the entry was made with. -/
def View.outside (v : View σ) : View σ := { v with entry := none }

theorem World.view_handle (w : World σ) (k : ActivationId) (tr : Trigger σ.Action)
    (pl : Option σ.Payload) :
    w.view (.handle k) = (w.view (.environment k tr pl)).map View.outside := by
  simp only [view, Target.activation?, Option.bind_eq_bind, Option.bind_some]
  cases w.activations.get? k with
  | none => rfl
  | some a =>
    simp only [Option.bind_some]
    cases w.instances.get? a.owner <;> rfl

namespace Code

/-- A future that runs `c` on a handle, and goes on with `next`, performs what the effect body `p`
performs on its environment, piece by piece and without being suspended, and then is `last`. -/
inductive Performs (last : Future σ) :
    Code σ → Code σ → (Except MachineError Unit → Future σ) → Prop
  | done {next} (h : next (.ok ()) = last) : Performs last (.finish .done) (.finish .done) next
  /-- The next piece. -/
  | turn {p c next next'} (h : next (.ok ()) = .act c next') (hp : Performs last p c next') :
      Performs last p (.finish .done) next
  | emit {p c next} (n : σ.Note) (hp : Performs last p c next) :
      Performs last (.emit n p) (.emit n c) next
  | look {next} {p c : Option (View σ) → Code σ}
      (hp : ∀ v, Performs last (p v) (c (v.map View.outside)) next) :
      Performs last (.look p) (.look c) next
  | setContext {p c next} (x : σ.Context) (hp : Performs last p c next) :
      Performs last (.setContext x p) (.setContext x c) next
  | dispatch {next} {p c : Reply → Code σ} (a : σ.Action) (pl : Option σ.Payload)
      (hp : ∀ reply, Performs last (p reply) (c reply) next) :
      Performs last (.dispatch a pl p) (.dispatch a pl c) next
  | onAbort {p c next} (o : Code σ) (hp : Performs last p c next) :
      Performs last (.onAbort o p) (.onAbort o c) next
  | clearAbort {p c next} (hp : Performs last p c next) :
      Performs last (.clearAbort p) (.clearAbort c) next
  | keep {p c next} (name : String) (hp : Performs last p c next) :
      Performs last (.keep name p) (.keep name c) next

/-- Scripts of operations on an activation that end without an error, and that do not ask what the
entry was made with. -/
inductive Script : Code σ → Prop
  | done : Script (.finish .done)
  | emit {c} (n : σ.Note) (h : Script c) : Script (.emit n c)
  | look {c : Option (View σ) → Code σ} (hc : ∀ v, c (some v) = c (some v.outside))
      (h : ∀ v, Script (c v)) : Script (.look c)
  | setContext {c} (x : σ.Context) (h : Script c) : Script (.setContext x c)
  | dispatch {c : Reply → Code σ} (a : σ.Action) (pl : Option σ.Payload)
      (h : ∀ reply, Script (c reply)) : Script (.dispatch a pl c)
  | onAbort {c} (o : Code σ) (h : Script c) : Script (.onAbort o c)
  | clearAbort {c} (h : Script c) : Script (.clearAbort c)
  | keep {c} (name : String) (h : Script c) : Script (.keep name c)

/-- A script may be left to a future as it is. -/
theorem Script.performs {c : Code σ} (h : c.Script) (last : Future σ) :
    Performs last c c fun _ => last := by
  induction h with
  | done => exact .done rfl
  | emit n _ ih => exact .emit n ih
  | look hc _ ih =>
    refine .look fun v => ?_
    cases v with
    | none => exact ih none
    | some v =>
      rw [hc v]
      exact ih (some v.outside)
  | setContext x _ ih => exact .setContext x ih
  | dispatch a pl _ ih => exact .dispatch a pl ih
  | onAbort o _ ih => exact .onAbort o ih
  | clearAbort _ ih => exact .clearAbort ih
  | keep name _ ih => exact .keep name ih

end Code

/-! ### Machines -/

/-- The machine in which `c` is the effect of state `s`. -/
def Machine.withEffect (m : Machine σ) (s : σ.State) (c : Code σ) : Machine σ :=
  { m with
    config := ⟨m.config.states.insert s (((m.config.get? s).getD {}).withEffect c)⟩
    declared := by
      have h := m.declared
      simp only [Config.contains, Table.contains, Table.get?_insert] at h ⊢
      split
      · rfl
      · exact h }

namespace Machine

variable {m : Machine σ} {s : σ.State} {c : Code σ}

theorem get?_withEffect (t : σ.State) : (m.withEffect s c).config.get? t =
    if s = t then some (((m.config.get? s).getD {}).withEffect c) else m.config.get? t :=
  Table.get?_insert _ _ _ _

theorem effect?_withEffect (t : σ.State) :
    (m.withEffect s c).config.effect? t = if s = t then some c else m.config.effect? t := by
  rw [Config.effect?, get?_withEffect]
  split <;> rfl

/-- Nothing else depends on what the effect is. -/
theorem kin_withEffect {d : StateDef σ} (h : m.config.get? s = some d) :
    m.Kin (m.withEffect s c) := by
  have hcontains (t : σ.State) : (m.withEffect s c).config.contains t = m.config.contains t := by
    change ((m.withEffect s c).config.get? t).isSome = (m.config.get? t).isSome
    rw [get?_withEffect]
    split
    · next ht => rw [← ht, h]; rfl
    · rfl
  have htarget (t : σ.State) (a : σ.Action) :
      (m.withEffect s c).config.target? t a = m.config.target? t a := by
    rw [Config.target?, get?_withEffect]
    split
    · next ht => rw [← ht, Config.target?, h]; rfl
    · rfl
  refine ⟨hcontains, htarget, fun t => ?_, rfl, rfl⟩
  rw [Bool.eq_iff_iff, Machine.isFinal, Machine.isFinal, List.contains_iff_mem,
    List.contains_iff_mem, finals, finals, Config.mem_finals_iff, Config.mem_finals_iff, hcontains]
  simp only [htarget]

end Machine

/-- An effect whose script may as well be deferred to a future. -/
structure Deferral (m : Machine σ) where
  state : σ.State
  /-- The effect body, which performs the script and is done. -/
  script : Code σ
  /-- The first piece of the future, and how the future goes on. -/
  piece : Code σ
  next : Except MachineError Unit → Future σ
  /-- Whether the future is suspended for ever after the script, with nothing left to destroy, or
  else is resolved. -/
  waits : Bool
  effect : m.config.effect? state = some script
  performs : Code.Performs (if waits then .never none else .resolved) script piece next
  /-- A future that is suspended finds no spawner. -/
  unattended : waits = true → m.spawner = none

namespace Deferral

variable {m : Machine σ} (D : Deferral m)

/-- What the future is after the script. -/
def last : Future σ := if D.waits then .never none else .resolved

/-- The effect body that hands back the future. -/
def body : Code σ := .finish (.pending (.act D.piece D.next))

/-- The machine whose effect hands back the future. -/
def machine : Machine σ := m.withEffect D.state D.body

theorem kin : m.Kin D.machine := by
  obtain ⟨d, hd, -⟩ := Option.bind_eq_some_iff.1 D.effect
  exact Machine.kin_withEffect hd

theorem effect?_machine : D.machine.config.effect? D.state = some D.body := by
  rw [machine, Machine.effect?_withEffect, if_pos rfl]

theorem effect?_of_ne {s : σ.State} (h : s ≠ D.state) :
    D.machine.config.effect? s = m.config.effect? s := by
  rw [machine, Machine.effect?_withEffect, if_neg (Ne.symm h)]

end Deferral

/-! ### Journals -/

/-- The activation that an event starts in state `s`. -/
def Event.startIn? (s : σ.State) : Event σ → Option ActivationId
  | started _ k t _ _ => if t = s then some k else none
  | _ => none

/-- The activations that have been started in state `s`, the latest first. -/
def World.startsIn (w : World σ) (s : σ.State) : List ActivationId :=
  w.journal.filterMap (Event.startIn? s)

/-- The second journal is the first one, but for polls, and for reports that no spawner was found
for the futures that `warned` tells, the latest first. -/
inductive Spliced (s : σ.State) : List ActivationId → List (Event σ) → List (Event σ) → Prop
  | nil : Spliced s [] [] []
  | same {warned j j'} (e : Event σ) (h : Spliced s warned j j') :
      Spliced s warned (e :: j) (e :: j')
  | polled {warned j j'} (k : ActivationId) (h : Spliced s warned j j') :
      Spliced s warned j (.polled k :: j')
  | noSpawner {warned j j'} (k : ActivationId) (h : Spliced s warned j j') :
      Spliced s (k :: warned) j (.noSpawner k s :: j')

/-- Without such reports, nothing can be seen of the polls. -/
theorem Spliced.reports_eq {s : σ.State} {j j' : List (Event σ)} (h : Spliced s [] j j')
    (least : Option Level) :
    j'.filterMap (Event.report? least) = j.filterMap (Event.report? least) := by
  generalize hw : ([] : List ActivationId) = warned at h
  induction h with
  | nil => rfl
  | same e _ ih => rw [List.filterMap_cons, List.filterMap_cons, ih hw]
  | polled k _ ih =>
    have hpolled : Event.report? least (.polled k : Event σ) = none := by cases least <;> rfl
    rw [List.filterMap_cons_none hpolled, ih hw]
  | noSpawner => cases hw

/-! ### Runs beside each other -/

namespace Deferral

variable {m : Machine σ} (D : Deferral m)

/-- Stacks beside each other; `doing` tells the activations whose scripts are being performed, the
innermost first. -/
inductive Frames : List ActivationId → List (Frame σ) → List (Frame σ) → Prop
  | nil : Frames [] [] []
  | same {doing stack stack'} (f : Frame σ) (h : Frames doing stack stack') :
      Frames doing (f :: stack) (f :: stack')
  /-- A script waits for the answer of an operation. -/
  | script {doing stack stack' k tr pl next} {p c : Reply → Code σ}
      (hp : ∀ reply, Code.Performs D.last (p reply) (c reply) next)
      (h : Frames doing stack stack') :
      Frames (k :: doing) (.resume (.environment k tr pl) p :: .body k :: stack)
        (.resume (.handle k) c :: .acting .entry k next :: stack')

variable {D}

theorem Frames.any_eq {doing : List ActivationId} {stack stack' : List (Frame σ)}
    (h : D.Frames doing stack stack') {f : Frame σ → Bool} (hr : ∀ t p, f (.resume t p) = false)
    (hb : ∀ k, f (.body k) = false) (ha : ∀ k next, f (.acting .entry k next) = false) :
    stack.any f = stack'.any f := by
  induction h with
  | nil => rfl
  | same g _ ih => rw [List.any_cons, List.any_cons, ih]
  | script _ _ ih => simp only [List.any_cons, hr, hb, ha, Bool.false_or, ih]

theorem Frames.body_mem {doing : List ActivationId} {stack stack' : List (Frame σ)}
    (h : D.Frames doing stack stack') {k : ActivationId} (hk : k ∈ doing) : .body k ∈ stack := by
  induction h with
  | nil => cases hk
  | same g _ ih => exact List.mem_cons_of_mem _ (ih hk)
  | script _ _ ih =>
    rcases List.mem_cons.1 hk with rfl | hk
    · exact List.mem_cons_of_mem _ List.mem_cons_self
    · exact List.mem_cons_of_mem _ (List.mem_cons_of_mem _ (ih hk))

variable (D)

/-- Journals are spliced, and no activation of the state is started on both sides. -/
def margin (warned starts doing : List ActivationId) : Margin σ where
  journals j j' := Spliced D.state warned j j' ∧ j.filterMap (Event.startIn? D.state) = starts
  admits e := e.startIn? D.state = none
  frames := D.Frames doing
  bears _ := True
  executor := True
  admits_of {e} h := by
    cases e <;> first | rfl | cases h
  bears_of _ := trivial
  record he hj := ⟨hj.1.same _, by rw [List.filterMap_cons_none he, hj.2]⟩
  push _ hs := hs.same _
  owns hs _ := hs.any_eq (fun _ _ => rfl) (fun _ => rfl) fun _ _ => rfl
  pins hs _ := hs.any_eq (fun _ _ => rfl) (fun _ => rfl) fun _ _ => rfl

/-- How a run stands beside one of the machine whose effect hands back the future. -/
inductive Stand (warned starts : List ActivationId) :
    List ActivationId → Run σ → Run σ → Prop
  /-- What happens next is the same. -/
  | same {doing r r'} (h : (D.margin warned starts doing).Runs r r') :
      Stand warned starts doing r r'
  /-- The script is performed, by the effect body or by the future. -/
  | script {doing stack stack' k tr pl p c next} {w w' : World σ}
      (hw : (D.margin warned starts doing).Worlds w w') (hp : Code.Performs D.last p c next)
      (hs : D.Frames doing stack stack') :
      Stand warned starts (k :: doing) ⟨w, .code (.environment k tr pl) p, .body k :: stack⟩
        ⟨w', .code (.handle k) c, .acting .entry k next :: stack'⟩
  /-- The script is over. -/
  | done {doing stack stack' k next} {w w' : World σ}
      (hw : (D.margin warned starts doing).Worlds w w') (hn : next (.ok ()) = D.last)
      (hs : D.Frames doing stack stack') :
      Stand warned starts (k :: doing) ⟨w, .ended .done, .body k :: stack⟩
        ⟨w', .ended .done, .acting .entry k next :: stack'⟩

end Deferral

end Statechart
