import Statechart.Display
import Statechart.Proofs.Config.Declaration
import Statechart.Proofs.Run.Margin
import Statechart.Script.Configs
import Mathlib.Data.List.Forall2
import Mathlib.Data.List.Sort
import Mathlib.Data.String.Basic

/-!
Descriptions of machines whose lines stand in another order. What a machine does, it does by looking
up single states and single actions, so that machines in which these come out alike cannot be told
apart; and the order of the lines decides only between lines about the same thing.
-/

namespace Statechart

variable {σ : Signature} {m m' : Machine σ}

/-! ### Machines that cannot be told apart -/

/-- Two machines in which everything that is looked up comes out alike. -/
structure Machine.Alike (m m' : Machine σ) : Prop extends m.Kin m' where
  effect? : ∀ s, m'.config.effect? s = m.config.effect? s
  spawner : m'.spawner = m.spawner

/-- **Two machines that cannot be told apart**: not by a run of any code in any world, nor by
looking at what they are made of. -/
structure Machine.Interchangeable (m m' : Machine σ) : Prop extends m.Alike m' where
  step : ∀ r : Run σ, r.step m' = r.step m
  steps : ∀ (r : Run σ) (n : Nat), r.steps m' n = r.steps m n
  peek? : ∀ (w : World σ) (slot : String), w.peek? m' slot = w.peek? m slot
  size : m'.config.size = m.config.size
  finals : m'.finals.Perm m.finals
  validate : m'.config.validate.Perm m.config.validate
  text : m'.text = m.text

namespace Machine.Alike

variable {w : World σ} {stack : List (Frame σ)} {i : InstanceId} {k : ActivationId}

theorem dispatch (h : m.Alike m') (caller : Caller) (a : σ.Action) (p : Option σ.Payload) :
    w.dispatch m' i caller a p stack = w.dispatch m i caller a p stack := by
  simp only [World.dispatch, h.target?, h.contains]

theorem enter (h : m.Alike m') (tr : Trigger σ.Action) (p : Option σ.Payload) :
    w.enter m' i tr p stack = w.enter m i tr p stack := by
  simp only [World.enter, h.effect?]

theorem forward (h : m.Alike m') (t : Target σ) (a : σ.Action) (p : Option σ.Payload)
    (next : Reply → Code σ) : w.forward m' t a p next stack = w.forward m t a p next stack := by
  simp only [World.forward, h.dispatch]

theorem place (h : m.Alike m') (t : Target σ) (slot : String) (o : Origin σ)
    (next : Reply → Code σ) : w.place m' t slot o next stack = w.place m t slot o next stack := by
  simp only [World.place, World.start, h.contains, h.initialState, h.initialContext]

theorem snapshot (h : m.Alike m') (slot : String) : w.peek? m' slot = w.peek? m slot := by
  simp only [World.peek?, h.isFinal]

theorem perform (h : m.Alike m') (t : Target σ) (c : Code σ) :
    w.perform m' t stack c = w.perform m t stack c := by
  cases c with
  | dispatch a p next => exact h.forward t a p next
  | place slot o next => exact congrArg some (h.place t slot o next)
  | send slot a p next => simp only [World.perform, h.dispatch]
  | peek slot next => simp only [World.perform, h.snapshot]
  | _ => rfl

theorem forget (h : m.Alike m') : w.forget m' k = w.forget m k := by
  simp only [World.forget, h.spawner]

theorem letGo (h : m.Alike m') (last : Option (Code σ)) :
    w.letGo m' k last stack = w.letGo m k last stack := by
  simp only [World.letGo, h.forget]

theorem suspend (h : m.Alike m') (poller : Poller) (p : Progress σ) (last : Option (Code σ)) :
    w.suspend m' poller k p last stack = w.suspend m poller k p last stack := by
  simp only [World.suspend, World.spawn, h.spawner, h.letGo]

theorem advance (h : m.Alike m') (poller : Poller) (p : Progress σ) :
    w.advance m' poller k stack p = w.advance m poller k stack p := by
  cases p with
  | ready f => cases f <;> simp only [World.advance, h.suspend]
  | stalled => exact h.suspend poller .stalled none
  | awaiting j next last => simp only [World.advance, h.suspend]

theorem proceed (h : m.Alike m') (e : Ending σ) (f : Frame σ) :
    w.proceed m' e stack f = w.proceed m e stack f := by
  cases f with
  | entering i tr p => exact h.enter tr p
  | notifying calls => cases calls <;> rfl
  | dropping k => simp only [World.proceed, h.forget]
  | _ => rfl

/-- **Machines in which everything comes out alike take the same steps.** -/
theorem step (h : m.Alike m') (r : Run σ) : r.step m' = r.step m := by
  obtain ⟨w, control, stack⟩ := r
  cases control with
  | code t c => exact h.perform t c
  | future poller k p => exact h.advance poller p
  | ended e =>
    cases stack with
    | nil => rfl
    | cons f stack => exact h.proceed e f

theorem steps (h : m.Alike m') (r : Run σ) (n : Nat) : r.steps m' n = r.steps m n := by
  induction n generalizing r with
  | zero => rfl
  | succ n ih => simp only [Run.steps, h.step, ih]

/-! ### What they are made of -/

theorem keys_perm (h : m.Alike m') : m'.config.states.keys.Perm m.config.states.keys := by
  refine (List.perm_ext_iff_of_nodup m'.config.states.nodup m.config.states.nodup).2 fun s => ?_
  have hc := h.contains s
  change Table.contains _ s = Table.contains _ s at hc
  change s ∈ Table.keys _ ↔ s ∈ Table.keys _
  rw [← Table.contains_iff, ← Table.contains_iff, hc]

theorem finals_perm (h : m.Alike m') : m'.finals.Perm m.finals := by
  have hn (c : Config σ) : c.finals.Nodup := c.states.nodup.sublist (List.filter_sublist.map _)
  refine (List.perm_ext_iff_of_nodup (hn _) (hn _)).2 fun s => ?_
  exact (Config.mem_finals_iff.trans (by simp only [h.contains, h.target?])).trans
    Config.mem_finals_iff.symm

theorem validate_perm (h : m.Alike m') : m'.config.validate.Perm m.config.validate := by
  refine List.Perm.map _ ((List.perm_ext_iff_of_nodup Config.nodup_dangling
    Config.nodup_dangling).2 fun ⟨s, a, t⟩ => ?_)
  exact (Config.mem_dangling_iff.trans (by simp only [h.contains, h.target?])).trans
    Config.mem_dangling_iff.symm

/-- A sorted list of names does not tell in which order they came. -/
theorem names_sorted {l l' : List String} (h : l.Perm l') :
    l.mergeSort (· ≤ ·) = l'.mergeSort (· ≤ ·) :=
  List.Perm.eq_of_pairwise' (List.pairwise_mergeSort' _ l) (List.pairwise_mergeSort' _ l')
    ((List.mergeSort_perm _ _).trans (h.trans (List.mergeSort_perm _ _).symm))

theorem text (h : m.Alike m') : m'.text = m.text := by
  have hnames : (m'.config.states.entries.map fun e => σ.stateName e.1).Perm
      (m.config.states.entries.map fun e => σ.stateName e.1) := by
    simpa [Table.keys, Function.comp_def] using h.keys_perm.map σ.stateName
  simp only [Machine.text, names_sorted hnames, h.initialState, h.finals_perm.length_eq, h.spawner]

/-- **Machines in which everything comes out alike cannot be told apart.** -/
theorem interchangeable (h : m.Alike m') : m.Interchangeable m' where
  toAlike := h
  step := h.step
  steps := h.steps
  peek? _ := h.snapshot
  size := by simpa [Config.size, Table.size, Table.keys] using h.keys_perm.length_eq
  finals := h.finals_perm
  validate := h.validate_perm
  text := h.text

end Machine.Alike

/-! ### Lines in another order -/

/-- The same clauses in an order that is the same for the pairs of each action and for the
effects. -/
structure Clauses.Same (cs cs' : Clauses σ) : Prop where
  targets : ∀ a, cs'.targets a = cs.targets a
  effects : cs'.effects = cs.effects

/-- The same lines with the states declared in another order, and the clauses of each in another
order too. -/
structure Description.Reordered (ds ds' : Description σ) : Prop where
  states : ∃ l, ds.states.Perm l ∧
    List.Forall₂ (fun d d' => d.1 = d'.1 ∧ Clauses.Same d.2 d'.2) l ds'.states
  initials : ds'.initials = ds.initials
  contexts : ds'.contexts = ds.contexts
  spawners : ds'.spawners = ds.spawners

/-- Two neighbouring pairs of distinct actions change places in the definition of a state. -/
inductive Description.Exchanged : Description σ → Description σ → Prop
  | pairs {before after : Description σ} {line line' : Declaration σ} {s : σ.State}
    {cs cs' : Clauses σ} {a b : σ.Action} {t u : σ.State} (hab : a ≠ b)
    (hline : line.state? = some (s, cs ++ .on a t :: .on b u :: cs'))
    (hline' : line'.state? = some (s, cs ++ .on b u :: .on a t :: cs')) :
    Exchanged (before ++ line :: after) (before ++ line' :: after)

/-- What comes of two descriptions is the same: two machines that cannot be told apart, or the same
fault. -/
inductive SameVerdict : Except BuildError (Machine σ) → Except BuildError (Machine σ) → Prop
  | built {m m' : Machine σ} (h : m.Interchangeable m') : SameVerdict (.ok m) (.ok m')
  | missing : SameVerdict (.error .missingInitialState) (.error .missingInitialState)
  /-- Of several states that are repeated, another one may come first. -/
  | repeated (name name' : String) :
    SameVerdict (.error (.duplicateState name)) (.error (.duplicateState name'))
  | unknown (name : String) :
    SameVerdict (.error (.unknownInitialState name)) (.error (.unknownInitialState name))

/-- The pairs of two distinct actions may be exchanged. -/
theorem Clauses.Same.exchange {cs cs' : Clauses σ} {a b : σ.Action} {s t : σ.State} (h : a ≠ b) :
    Clauses.Same (cs ++ .on a s :: .on b t :: cs') (cs ++ .on b t :: .on a s :: cs') where
  targets c := by
    have hc : a ≠ c ∨ b ≠ c := by
      by_contra hc
      rw [not_or, not_not, not_not] at hc
      exact h (hc.1.trans hc.2.symm)
    rcases hc with hc | hc <;>
      simp [Clauses.targets, StateDef.Clause.target?, hc, List.filterMap_cons]
  effects := by simp [Clauses.effects, StateDef.Clause.effect?]

/-- A line that declares a state says nothing else. -/
theorem Declaration.only_state {line : Declaration σ} {e : σ.State × Clauses σ}
    (h : line.state? = some e) :
    line.initial? = none ∧ line.context? = none ∧ line.spawner? = none := by
  cases line with
  | state s cs | stateWith s cs => exact ⟨rfl, rfl, rfl⟩
  | initial s | context c | spawner sp => cases h

namespace Description

variable {ds ds' : Description σ} {context : σ.Context} {s : σ.State} {cs : Clauses σ}

/-- The declarations of states may be moved about. -/
theorem Reordered.of_perm (h : ds.Perm ds') (hi : ds'.initials = ds.initials)
    (hc : ds'.contexts = ds.contexts) (hs : ds'.spawners = ds.spawners) : ds.Reordered ds' :=
  ⟨⟨ds'.states, h.filterMap _, List.forall₂_same.2 fun _ _ => ⟨rfl, fun _ => rfl, rfl⟩⟩, hi, hc, hs⟩

/-- One declaration may get the same clauses in another order. -/
theorem Reordered.of_same {before after : Description σ} {line line' : Declaration σ}
    {cs' : Clauses σ} (h : line.state? = some (s, cs)) (h' : line'.state? = some (s, cs'))
    (hs : cs.Same cs') : Reordered (before ++ line :: after) (before ++ line' :: after) := by
  obtain ⟨hi, hc, hsp⟩ := line.only_state h
  obtain ⟨hi', hc', hsp'⟩ := line'.only_state h'
  refine ⟨⟨_, .refl _, ?_⟩, ?_, ?_, ?_⟩
  · have same (l : List (σ.State × Clauses σ)) :
        List.Forall₂ (fun d d' => d.1 = d'.1 ∧ Clauses.Same d.2 d'.2) l l :=
      List.forall₂_same.2 fun _ _ => ⟨rfl, fun _ => rfl, rfl⟩
    simp only [Description.states, List.filterMap_append, List.filterMap_cons, h, h']
    exact List.rel_append (same _) (.cons ⟨rfl, hs⟩ (same _))
  · simp [Description.initials, hi, hi']
  · simp [Description.contexts, hc, hc']
  · simp [Description.spawners, hsp, hsp']

theorem Exchanged.reordered (h : ds.Exchanged ds') : ds.Reordered ds' := by
  obtain ⟨hab, hline, hline'⟩ := h
  exact .of_same hline hline' (.exchange hab)

namespace Reordered

theorem declared (h : ds.Reordered ds') : ds.declared.Perm ds'.declared := by
  obtain ⟨l, hperm, hall⟩ := h.states
  have hkeys : l.map Prod.fst = ds'.states.map Prod.fst := by
    rw [← List.forall₂_eq_eq_eq, List.forall₂_map_left_iff, List.forall₂_map_right_iff]
    exact hall.imp fun _ _ h => h.1
  exact (hperm.map _).trans (hkeys ▸ .refl _)

/-- A state is declared with the same clauses. -/
theorem same (h : ds.Reordered ds') (hs : (s, cs) ∈ ds.states) :
    ∃ cs', (s, cs') ∈ ds'.states ∧ cs.Same cs' := by
  obtain ⟨l, hperm, hall⟩ := h.states
  obtain ⟨n, hn, hget⟩ := List.getElem_of_mem (hperm.mem_iff.1 hs)
  obtain ⟨hkey, hsame⟩ := hall.get hn (hall.length_eq ▸ hn)
  simp only [List.get_eq_getElem, hget] at hkey hsame
  exact ⟨_, hkey ▸ List.getElem_mem _, hsame⟩

/-- The machines of the two descriptions are alike. -/
theorem alike {m m' : Machine σ} (h : ds.Reordered ds') (hm : ds.Means context m)
    (hm' : ds'.Means context m') : m.Alike m' := by
  have hcontains (s) : m'.config.contains s = m.config.contains s := by
    rw [Bool.eq_iff_iff, hm.declared, hm'.declared, h.declared.mem_iff]
  have hlook (s) : (∀ a, m'.config.target? s a = m.config.target? s a) ∧
      m'.config.effect? s = m.config.effect? s := by
    by_cases hs : s ∈ ds.declared
    · obtain ⟨⟨s, cs⟩, hmem, rfl⟩ := List.mem_map.1 hs
      obtain ⟨cs', hmem', hsame⟩ := h.same hmem
      refine ⟨fun a => ?_, ?_⟩
      · rw [hm.target? s cs hmem, hm'.target? s cs' hmem', hsame.targets]
      · rw [hm.effect? s cs hmem, hm'.effect? s cs' hmem', hsame.effects]
    · obtain ⟨ht, he⟩ := hm.undeclared s hs
      obtain ⟨ht', he'⟩ := hm'.undeclared s fun hs' => hs (h.declared.mem_iff.2 hs')
      exact ⟨fun a => (ht' a).trans (ht a).symm, he'.trans he.symm⟩
  refine ⟨⟨hcontains, fun s => (hlook s).1, fun s => ?_, ?_, ?_⟩, fun s => (hlook s).2, ?_⟩
  · rw [Bool.eq_iff_iff, Machine.isFinal, Machine.isFinal, List.contains_iff_mem,
      List.contains_iff_mem]
    simp only [Machine.finals, Config.mem_finals_iff, hcontains, (hlook s).1]
  · exact Option.some.inj (hm'.initialState.symm.trans (h.initials ▸ hm.initialState))
  · rw [hm'.initialContext, hm.initialContext, h.contexts]
  · rw [hm'.spawner, hm.spawner, h.spawners]

/-- **What comes of the lines does not depend on the order of the declarations of states, nor on
the order of the pairs of distinct actions.** -/
theorem sameVerdict (h : ds.Reordered ds') :
    SameVerdict (ds.build context) (ds'.build context) := by
  cases hi : ds.initials.getLast? with
  | none =>
    have hnil := List.getLast?_eq_none_iff.1 hi
    rw [build_missing hnil, build_missing (h.initials.trans hnil)]
    exact .missing
  | some s =>
    have hi' : ds'.initials.getLast? = some s := h.initials ▸ hi
    have hne {l : List σ.State} (hl : l.getLast? = some s) : l ≠ [] := by
      rintro rfl
      cases hl
    by_cases hd : ds.declared.Nodup
    · have hd' : ds'.declared.Nodup := h.declared.nodup_iff.1 hd
      by_cases hs : s ∈ ds.declared
      · obtain ⟨m, hm, hmeans⟩ : ∃ m, ds.build context = .ok m ∧ ds.Means context m :=
          build_means hi hd hs
        obtain ⟨m', hm', hmeans'⟩ : ∃ m, ds'.build context = .ok m ∧ ds'.Means context m :=
          build_means hi' hd' (h.declared.mem_iff.1 hs)
        rw [hm, hm']
        exact .built (h.alike hmeans hmeans').interchangeable
      · rw [build_unknown hi hd hs, build_unknown hi' hd' fun hs' => hs (h.declared.mem_iff.2 hs')]
        exact .unknown _
    · obtain ⟨t, ht⟩ := repeats_of_not_nodup hd
      obtain ⟨t', ht'⟩ := repeats_of_not_nodup fun hd' => hd (h.declared.nodup_iff.2 hd')
      rw [build_repeated (hne hi) ht, build_repeated (hne hi') ht']
      exact .repeated _ _

end Reordered

end Description

end Statechart
