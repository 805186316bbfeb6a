import Statechart.Proofs.Config.Report
import Mathlib.Data.List.Induction

/-!
What the description of a machine means, said of the list of its lines alone. Of several lines about
the same thing the last one counts: for the target of an action, for an effect, for the initial
state and for the rest of what a machine starts from. Of the declarations of states none may come
twice. The builder works through the same lines one after the other, and comes to the same.
-/

namespace Statechart

variable {σ : Signature}

/-! ### Descriptions -/

/-- The clauses of which the definition of a state is made. -/
abbrev Clauses (σ : Signature) := List (StateDef.Clause σ)

/-- A line of the description of a machine. -/
inductive Declaration (σ : Signature) where
  | state (s : σ.State) (clauses : Clauses σ)
  /-- A state whose definition is made from an empty one. -/
  | stateWith (s : σ.State) (clauses : Clauses σ)
  | initial (s : σ.State)
  | context (context : σ.Context)
  | spawner (spawner : Spawner)

/-- The lines of a description, in order. -/
abbrev Description (σ : Signature) := List (Declaration σ)

/-- The target that a clause gives to an action. -/
def StateDef.Clause.target? (a : σ.Action) : StateDef.Clause σ → Option σ.State
  | .on a' t => if a' = a then some t else none
  | .effect _ => none

def StateDef.Clause.effect? : StateDef.Clause σ → Option (Code σ)
  | .on _ _ => none
  | .effect code => some code

namespace Clauses

/-- The targets of an action, in order. -/
def targets (cs : Clauses σ) (a : σ.Action) : List σ.State := cs.filterMap (·.target? a)

def effects (cs : Clauses σ) : List (Code σ) := cs.filterMap (·.effect?)

end Clauses

namespace Declaration

/-- The call on a builder that a line stands for. -/
def call : Declaration σ → Builder.Call σ
  | state s cs => .state s (.extend {} cs)
  | stateWith s cs => .stateWith s fun d => d.extend cs
  | initial s => .initialState s
  | context c => .initialContext c
  | spawner sp => .spawnWith sp

/-- The state that a line declares, with its clauses. -/
def state? : Declaration σ → Option (σ.State × Clauses σ)
  | state s cs => some (s, cs)
  | stateWith s cs => some (s, cs)
  | _ => none

def initial? : Declaration σ → Option σ.State
  | initial s => some s
  | _ => none

def context? : Declaration σ → Option σ.Context
  | context c => some c
  | _ => none

def spawner? : Declaration σ → Option Spawner
  | spawner sp => some sp
  | _ => none

end Declaration

namespace Description

variable {ds ds' : Description σ} {context : σ.Context}

/-- The machine of a description, over a builder that starts with `context`. -/
def build (ds : Description σ) (context : σ.Context) : Except BuildError (Machine σ) :=
  Builder.run context (ds.map (·.call))

/-- The states that are declared, with their clauses, in order. -/
def states (ds : Description σ) : List (σ.State × Clauses σ) := ds.filterMap (·.state?)

def declared (ds : Description σ) : List σ.State := ds.states.map Prod.fst

def initials (ds : Description σ) : List σ.State := ds.filterMap (·.initial?)

def contexts (ds : Description σ) : List σ.Context := ds.filterMap (·.context?)

def spawners (ds : Description σ) : List Spawner := ds.filterMap (·.spawner?)

/-- The earliest declaration that repeats a declared state is one of `s`. -/
def Repeats (ds : Description σ) (s : σ.State) : Prop :=
  ∃ before after, ds.declared = before ++ s :: after ∧ before.Nodup ∧ s ∈ before

/-- **The machine is the one that the lines describe.** -/
structure Means (ds : Description σ) (context : σ.Context) (m : Machine σ) : Prop where
  declared : ∀ s, m.config.contains s = true ↔ s ∈ ds.declared
  size : m.config.size = ds.states.length
  target? : ∀ s cs, (s, cs) ∈ ds.states → ∀ a, m.config.target? s a = (cs.targets a).getLast?
  effect? : ∀ s cs, (s, cs) ∈ ds.states → m.config.effect? s = cs.effects.getLast?
  /-- What is not declared accepts nothing and has no effect. -/
  undeclared : ∀ s, s ∉ ds.declared →
    (∀ a, m.config.target? s a = none) ∧ m.config.effect? s = none
  finals : ∀ s, s ∈ m.finals ↔ ∃ cs, (s, cs) ∈ ds.states ∧ ∀ a t, .on a t ∉ cs
  initialState : ds.initials.getLast? = some m.initialState
  initialContext : m.initialContext = ds.contexts.getLast?.getD context
  spawner : m.spawner = ds.spawners.getLast?

end Description

/-! ### Clauses -/

namespace StateDef

theorem extend_append (d : StateDef σ) (cs cs' : Clauses σ) :
    d.extend (cs ++ cs') = (d.extend cs).extend cs' := List.foldl_append ..

/-- The last pair for an action counts. -/
theorem target?_extend (cs : Clauses σ) (a : σ.Action) :
    (extend {} cs).target? a = (cs.targets a).getLast? := by
  induction cs using List.reverseRecOn with
  | nil => rfl
  | append_singleton cs c ih =>
    rw [extend_append, Clauses.targets, List.filterMap_append, List.getLast?_append]
    change _ = Option.or _ (Clauses.targets cs a).getLast?
    rw [← ih]
    cases c with
    | effect code => rfl
    | on a' t =>
      by_cases h : a' = a <;>
        simp [extend, apply, on, target?, Table.get?_insert, Clause.target?, h]

/-- The effect that is attached last counts. -/
theorem effect_extend (cs : Clauses σ) : (extend {} cs).effect = cs.effects.getLast? := by
  induction cs using List.reverseRecOn with
  | nil => rfl
  | append_singleton cs c ih =>
    rw [extend_append, Clauses.effects, List.filterMap_append, List.getLast?_append]
    change _ = Option.or _ (Clauses.effects cs).getLast?
    rw [← ih]
    cases c <;> rfl

end StateDef

theorem Clauses.targets_eq_nil_iff {cs : Clauses σ} :
    (∀ a, cs.targets a = []) ↔ ∀ a t, .on a t ∉ cs := by
  simp only [targets, List.filterMap_eq_nil_iff]
  constructor
  · intro h a t ht
    simpa [StateDef.Clause.target?] using h a _ ht
  · intro h a c hc
    cases c with
    | effect code => rfl
    | on a' t => exact absurd hc (h a' t)

/-! ### Tables that grow -/

/-- A new key comes last. -/
theorem Table.entries_insert {κ α : Type} [DecidableEq κ] {t : Table κ α} {k : κ}
    (h : t.contains k = false) (a : α) : (t.insert k a).entries = t.entries ++ [(k, a)] := by
  have hput (l : List (κ × α)) (hl : lookup k l = none) : put k a l = l ++ [(k, a)] := by
    induction l with
    | nil => rfl
    | cons e l ih =>
      obtain ⟨k', b⟩ := e
      by_cases hk : k' = k
      · simp [lookup, hk] at hl
      · simp only [lookup, if_neg hk] at hl
        simp [put, hk, ih hl]
  exact hput t.entries (by simpa [contains, get?] using h)

theorem Table.contains_iff {κ α : Type} [DecidableEq κ] {t : Table κ α} {k : κ} :
    t.contains k = true ↔ k ∈ t.keys := by
  rw [contains, Option.isSome_iff_exists]
  simp only [get?_eq_some_iff, keys, List.mem_map]
  constructor
  · rintro ⟨a, ha⟩
    exact ⟨_, ha, rfl⟩
  · rintro ⟨⟨_, a⟩, ha, rfl⟩
    exact ⟨a, ha⟩

/-! ### The builder -/

/-- What the builder holds after the lines of a description. -/
structure Builder.Holds (ds : Description σ) (context : σ.Context) (b : Builder σ) : Prop where
  declared : ∀ s, b.config.contains s = true ↔ s ∈ ds.declared
  entries : ds.declared.Nodup →
    b.config.states.entries = ds.states.map fun d => (d.1, StateDef.extend {} d.2)
  fresh : ds.declared.Nodup → b.duplicates = []
  repeated : ∀ s, ds.Repeats s → b.duplicates.head? = some s
  initial : b.initial = ds.initials.getLast?
  context : b.context = ds.contexts.getLast?.getD context
  spawner : b.spawner = ds.spawners.getLast?

namespace Description

variable {ds ds' : Description σ} {context : σ.Context} {b : Builder σ} {s : σ.State}

/-- A state that is declared last is repeated by its own declaration or by none of it. -/
theorem repeats_concat {l : List σ.State} {t : σ.State} :
    (∃ before after, l ++ [t] = before ++ s :: after ∧ before.Nodup ∧ s ∈ before) ↔
      (∃ before after, l = before ++ s :: after ∧ before.Nodup ∧ s ∈ before) ∨
        (s = t ∧ l.Nodup ∧ t ∈ l) := by
  constructor
  · rintro ⟨before, after, h, hb, hs⟩
    rcases List.eq_nil_or_concat after with rfl | ⟨after, u, rfl⟩
    · obtain ⟨rfl, hu⟩ := List.append_inj' h rfl
      obtain rfl : t = s := by simpa using hu
      exact .inr ⟨rfl, hb, hs⟩
    · rw [List.concat_eq_append, ← List.cons_append, ← List.append_assoc] at h
      obtain ⟨rfl, -⟩ := List.append_inj' h rfl
      exact .inl ⟨before, after, rfl, hb, hs⟩
  · rintro (⟨before, after, rfl, hb, hs⟩ | ⟨rfl, hl, hs⟩)
    · exact ⟨before, after ++ [t], by simp, hb, hs⟩
    · exact ⟨l, [], rfl, hl, hs⟩

end Description

namespace Builder

variable {ds : Description σ} {context : σ.Context} {b : Builder σ} {s : σ.State}

theorem holds_nil : Holds [] context (withContext context) where
  declared s := by simp [withContext, Config.contains, Table.contains, Description.declared,
    Description.states]
  entries _ := rfl
  fresh _ := rfl
  repeated s h := by
    obtain ⟨before, after, h, -, -⟩ := h
    simp [Description.declared, Description.states] at h
  initial := rfl
  context := rfl
  spawner := rfl

/-- What a line does that declares no state. -/
theorem Holds.other {d : Declaration σ} (h : b.Holds ds context) {b' : Builder σ}
    (hd : d.state? = none) (hc : b'.config = b.config) (hu : b'.duplicates = b.duplicates)
    (hi : b'.initial = d.initial?.or b.initial)
    (hx : b'.context = d.context?.getD b.context) (hs : b'.spawner = d.spawner?.or b.spawner) :
    b'.Holds (ds ++ [d]) context := by
  have hstates : Description.states (ds ++ [d]) = ds.states := by
    simp [Description.states, hd]
  have hdeclared : Description.declared (ds ++ [d]) = ds.declared :=
    congrArg (List.map Prod.fst) hstates
  refine ⟨?_, ?_, ?_, ?_, ?_, ?_, ?_⟩
  · rw [hdeclared, hc]; exact h.declared
  · rw [hdeclared, hstates, hc]; exact h.entries
  · rw [hdeclared, hu]; exact h.fresh
  · unfold Description.Repeats
    rw [hdeclared, hu]
    exact h.repeated
  · rw [hi, h.initial]
    cases hd : d.initial? <;> simp [Description.initials, hd]
  · rw [hx, h.context]
    cases hd : d.context? <;> simp [Description.contexts, hd]
  · rw [hs, h.spawner]
    cases hd : d.spawner? <;> simp [Description.spawners, hd]

/-- The lines that declare states tell nothing else. -/
theorem Holds.further {d : Declaration σ} (h : b.Holds ds context) {p : σ.State × Clauses σ}
    (hd : d.state? = some p) :
    b.initial = (Description.initials (ds ++ [d])).getLast? ∧
      b.context = (Description.contexts (ds ++ [d])).getLast?.getD context ∧
        b.spawner = (Description.spawners (ds ++ [d])).getLast? := by
  obtain ⟨hi, hx, hs⟩ : d.initial? = none ∧ d.context? = none ∧ d.spawner? = none := by
    cases d <;> first | exact ⟨rfl, rfl, rfl⟩ | cases hd
  refine ⟨h.initial.trans ?_, h.context.trans ?_, h.spawner.trans ?_⟩
  · simp [Description.initials, hi]
  · simp [Description.contexts, hx]
  · simp [Description.spawners, hs]

/-- A state that is declared already stays as it is, and is noted. -/
theorem Holds.again {d : Declaration σ} {cs : Clauses σ} (h : b.Holds ds context)
    (hd : d.state? = some (s, cs)) (hc : b.config.contains s = true) :
    (b.state s (.extend {} cs)).Holds (ds ++ [d]) context := by
  have hdeclared : Description.declared (ds ++ [d]) = ds.declared ++ [s] := by
    simp [Description.declared, Description.states, hd]
  have hmem : s ∈ ds.declared := (h.declared s).1 hc
  have hdup : ¬ (Description.declared (ds ++ [d])).Nodup := fun hn =>
    List.disjoint_of_nodup_append (hdeclared ▸ hn) hmem (List.mem_singleton_self s)
  have hb : b.state s (.extend {} cs) = { b with duplicates := b.duplicates ++ [s] } := by
    simp [Builder.state, Config.insert, hc]
  obtain ⟨hi, hx, hs⟩ := h.further hd
  rw [hb]
  refine ⟨fun t => ?_, fun hn => absurd hn hdup, fun hn => absurd hn hdup, fun t ht => ?_, hi, hx,
    hs⟩
  · rw [hdeclared, List.mem_append, List.mem_singleton]
    refine (h.declared t).trans ⟨.inl, ?_⟩
    rintro (ht | rfl)
    · exact ht
    · exact hmem
  · unfold Description.Repeats at ht
    rw [hdeclared, Description.repeats_concat] at ht
    rcases ht with ht | ⟨rfl, hn, -⟩
    · have hhead := h.repeated t ht
      have hne : b.duplicates ≠ [] := by
        rintro hnil
        simp [hnil] at hhead
      exact (List.head?_append_of_ne_nil _ hne).trans hhead
    · simp [h.fresh hn]

/-- A new state comes last. -/
theorem Holds.new {d : Declaration σ} {cs : Clauses σ} (h : b.Holds ds context)
    (hd : d.state? = some (s, cs)) (hc : b.config.contains s = false) :
    (b.state s (.extend {} cs)).Holds (ds ++ [d]) context := by
  have hstates : Description.states (ds ++ [d]) = ds.states ++ [(s, cs)] := by
    simp [Description.states, hd]
  have hdeclared : Description.declared (ds ++ [d]) = ds.declared ++ [s] := by
    simp [Description.declared, hstates]
  have hb : b.state s (.extend {} cs) =
      { b with config := ⟨b.config.states.insert s (.extend {} cs)⟩ } := by
    simp [Builder.state, Config.insert, hc]
  have hentries := Table.entries_insert hc (StateDef.extend {} cs)
  obtain ⟨hi, hx, hs⟩ := h.further hd
  rw [hb]
  refine ⟨fun t => ?_, fun hn => ?_, fun hn => ?_, fun t ht => ?_, hi, hx, hs⟩
  · rw [hdeclared, List.mem_append, List.mem_singleton, ← h.declared t]
    change Table.contains _ t = true ↔ _
    rw [Table.contains_iff, Table.keys, hentries, List.map_append, List.mem_append, ← Table.keys,
      ← Table.contains_iff]
    simp [Config.contains]
  · rw [hdeclared] at hn
    rw [hentries, hstates, h.entries hn.of_append_left, List.map_append, List.map_singleton]
  · rw [hdeclared] at hn
    exact h.fresh hn.of_append_left
  · unfold Description.Repeats at ht
    rw [hdeclared, Description.repeats_concat] at ht
    rcases ht with ht | ⟨rfl, -, hm⟩
    · exact h.repeated t ht
    · rw [(h.declared t).2 hm] at hc
      cases hc

/-- What the declaration of a state does. -/
theorem Holds.state {d : Declaration σ} {cs : Clauses σ} (h : b.Holds ds context)
    (hd : d.state? = some (s, cs)) : (b.state s (.extend {} cs)).Holds (ds ++ [d]) context := by
  cases hc : b.config.contains s with
  | true => exact h.again hd hc
  | false => exact h.new hd hc

/-- **What the builder holds**, by induction on the lines. -/
theorem holds (ds : Description σ) (context : σ.Context) :
    ((ds.map (·.call)).foldl apply (withContext context)).Holds ds context := by
  induction ds using List.reverseRecOn with
  | nil => exact holds_nil
  | append_singleton ds d ih =>
    rw [List.map_append, List.foldl_append]
    cases d with
    | state s cs => exact ih.state rfl
    | stateWith s cs => exact ih.state rfl
    | initial s => exact ih.other rfl rfl rfl rfl rfl rfl
    | context c => exact ih.other rfl rfl rfl rfl rfl rfl
    | spawner sp => exact ih.other rfl rfl rfl rfl rfl rfl

end Builder

namespace Description

variable {ds : Description σ} {context : σ.Context} {s : σ.State} {cs : Clauses σ}

/-! ### The verdict -/

theorem repeats_of_not_nodup (h : ¬ ds.declared.Nodup) : ∃ s, ds.Repeats s := by
  unfold Repeats
  generalize ds.declared = l at h ⊢
  induction l using List.reverseRecOn with
  | nil => exact absurd List.nodup_nil h
  | append_singleton l t ih =>
    by_cases hl : l.Nodup
    · have ht : t ∈ l := by
        by_contra ht
        exact h (List.nodup_append.2 ⟨hl, by simp, by grind⟩)
      exact ⟨t, repeats_concat.2 (.inr ⟨rfl, hl, ht⟩)⟩
    · obtain ⟨s, hs⟩ := ih hl
      exact ⟨s, repeats_concat.2 (.inl hs)⟩

/-- What comes of the lines, by cases on what they lack. -/
theorem build_missing (h : ds.initials = []) : ds.build context = .error .missingInitialState := by
  unfold build Builder.run Builder.build
  rw [(Builder.holds ds context).initial, h]
  rfl

theorem build_repeated (h : ds.initials ≠ []) (hs : ds.Repeats s) :
    ds.build context = .error (.duplicateState (σ.stateName s)) := by
  have holds := Builder.holds ds context
  have ht : ds.initials.getLast? = some (ds.initials.getLast h) := List.getLast?_eq_some_getLast h
  obtain ⟨rest, hd⟩ := List.head?_eq_some_iff.1 (holds.repeated s hs)
  unfold build Builder.run Builder.build
  rw [holds.initial, ht, hd]

theorem build_unknown (h : ds.initials.getLast? = some s) (hd : ds.declared.Nodup)
    (hs : s ∉ ds.declared) :
    ds.build context = .error (.unknownInitialState (σ.stateName s)) := by
  have holds := Builder.holds ds context
  unfold build Builder.run Builder.build
  rw [holds.initial, h, holds.fresh hd]
  exact dif_neg fun hc => hs ((holds.declared s).1 hc)

/-- Looking up a declared state finds the definition that its clauses make. -/
theorem get?_of_holds {b : Builder σ} (h : b.Holds ds context) (hd : ds.declared.Nodup)
    (hs : (s, cs) ∈ ds.states) : b.config.get? s = some (.extend {} cs) := by
  refine Table.get?_eq_some_iff.2 ?_
  rw [h.entries hd]
  exact List.mem_map.2 ⟨_, hs, rfl⟩

/-- **The machine that comes of the lines is the one that they describe.** -/
theorem build_means (h : ds.initials.getLast? = some s) (hd : ds.declared.Nodup)
    (hs : s ∈ ds.declared) : ∃ m, ds.build context = .ok m ∧ ds.Means context m := by
  have holds := Builder.holds ds context
  generalize hb : (ds.map (·.call)).foldl Builder.apply (Builder.withContext context) = b at holds
  have hdecl : b.config.contains s = true := (holds.declared s).2 hs
  have hget {t cs} (ht : (t, cs) ∈ ds.states) := get?_of_holds holds hd ht
  refine ⟨⟨b.config, s, b.context, b.spawner, hdecl⟩, ?_, ?_⟩
  · unfold build Builder.run Builder.build
    rw [hb, holds.initial, h, holds.fresh hd]
    exact dif_pos hdecl
  · refine ⟨holds.declared, ?_, ?_, ?_, ?_, ?_, h, holds.context, holds.spawner⟩
    · change b.config.states.entries.length = _
      rw [holds.entries hd, List.length_map]
    · intro t cs ht a
      rw [Config.target?, hget ht]
      exact StateDef.target?_extend cs a
    · intro t cs ht
      rw [Config.effect?, hget ht]
      exact StateDef.effect_extend cs
    · intro t ht
      have hnone : b.config.get? t = none := by
        rw [← Option.not_isSome_iff_eq_none]
        exact fun hc => ht ((holds.declared t).1 hc)
      exact ⟨fun a => by rw [Config.target?, hnone]; rfl, by rw [Config.effect?, hnone]; rfl⟩
    · intro t
      change t ∈ b.config.finals ↔ _
      rw [Config.mem_finals_iff, holds.declared]
      have hnone {cs} (ht : (t, cs) ∈ ds.states) :
          (∀ a, b.config.target? t a = none) ↔ ∀ a u, .on a u ∉ cs := by
        rw [← Clauses.targets_eq_nil_iff]
        refine forall_congr' fun a => ?_
        rw [Config.target?, hget ht, Option.bind_some, StateDef.target?_extend,
          List.getLast?_eq_none_iff]
      constructor
      · rintro ⟨ht, hfinal⟩
        obtain ⟨⟨t, cs⟩, hmem, rfl⟩ := List.mem_map.1 ht
        exact ⟨cs, hmem, (hnone hmem).1 hfinal⟩
      · rintro ⟨cs, ht, hfinal⟩
        exact ⟨List.mem_map.2 ⟨_, ht, rfl⟩, (hnone ht).2 hfinal⟩

end Description

end Statechart
