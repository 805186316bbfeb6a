import Statechart.Proofs.Isolation.Lockstep

/-!
Instances of one machine do not interfere. Whatever is done to them in turn, as long as the code
that runs for an instance keeps to it, each comes to the same as if it lived alone: its errands end
in the same way, the same happens meanwhile, and it shows the same of itself.

An errand concerns every instance. The one that it is done to goes in step with one that is alone
and has the same done to it (`Runs.steps`); all the others are left as they were, and stay beside
theirs (`Worlds.beside_other`). So the induction over a log carries all instances at once.
-/

namespace Statechart

variable {σ : Signature} {m : Machine σ} {I J : Isolation σ} {p q : Pairs} {w w' w₀ : World σ}
  {whose : String → InstanceId} {i j : InstanceId} {k k' : ActivationId}

namespace Isolation

/-! ### Between errands -/

/-- Instance `i` among others, when nothing runs, beside one that is alone. -/
def Beside (whose : String → InstanceId) (i : InstanceId) (w w₀ : World σ) : Prop :=
  ∃ p, Worlds ⟨i, whose, w, w₀⟩ p w w₀

theorem Beside.empty : Beside whose i ({} : World σ) {} := by
  refine ⟨⟨.empty, .empty, .empty⟩, ?_⟩
  have dealt {α : Type} (R : α → α → Prop) (f g h : α → Option InstanceId) :
      Dealt i .empty R f g h .empty .empty .empty :=
    ⟨rfl, rfl, nofun, fun _ => rfl, fun _ => rfl⟩
  exact
    { instances := ⟨.none, Nat.zero_le 1, fun _ => rfl⟩
      activations := dealt _ _ _ _
      tasks := dealt _ _ _ _
      spawned := nofun
      spawned' := nofun
      slots := ⟨fun slot => by simp, nofun, fun _ => rfl⟩
      handles := ⟨fun _ => ⟨rfl, rfl⟩, nofun⟩
      names := ⟨fun _ => .none, fun _ => rfl, nofun, Nat.le.refl, Nat.le.refl⟩
      journal := ⟨[], [], rfl, rfl, .nil⟩ }

/-- When an errand has returned, the next one may begin. -/
theorem Worlds.beside (h : I.Worlds p w w') : Beside I.whose I.inst w w' := by
  refine ⟨p, ?_⟩
  exact
    { instances := { h.instances with rest := fun _ => rfl }
      activations := { h.activations with rest := fun _ => rfl, others := fun _ => rfl }
      tasks := { h.tasks with rest := fun _ => rfl, others := fun _ => rfl }
      spawned := h.spawned
      spawned' := h.spawned'
      slots := { h.slots with rest := fun _ => rfl }
      handles := by
        refine ⟨fun hn => ⟨(h.handles.unbound hn).1, hn⟩, fun {name k} hb => ?_⟩
        obtain hown | ⟨-, j, hj, hbase⟩ := h.handles.bound hb
        · exact .inl hown
        · exact .inr ⟨hb, j, hj, h.owner?_of_base hj hbase⟩
      names := { h.names with rest := fun _ => rfl, later := Nat.le.refl }
      journal := ⟨[], [], rfl, rfl, .nil⟩ }

/-- What falls to another instance is what fell to it before. -/
theorem Dealt.other {α : Type} {M N : Matching Nat} {R S : α → α → Prop}
    {whom whom' before whom₀ whom₀' : α → Option InstanceId} {r r' base r₀ base₀ : Roster α}
    (h : Dealt i M R whom whom' before r r' base) (hj : j ≠ i)
    (hb : Dealt j N S before whom₀' whom₀ base r₀ base₀) :
    Dealt j N S whom whom₀' whom r r₀ r where
  own := (h.others hj).trans hb.own
  own' := hb.own'
  pairs := by
    intro k k' hk
    -- what is paired here falls to `j`, and nothing falls to both
    rw [h.rest]
    · exact hb.pairs hk
    · intro hmem
      obtain ⟨k₁, hk₁⟩ := Matching.mem_map_fst.1 hmem
      have hbefore := hb.whom_eq hk
      rw [← Roster.mem_dealt, ← h.others hj, Roster.mem_dealt, h.whom_eq hk₁] at hbefore
      exact hj (Option.some.inj hbefore).symm
  rest _ := rfl
  others _ := rfl

/-- An errand to one instance is nothing to another. -/
theorem Worlds.beside_other (h : I.Worlds q w w') (hj : j ≠ I.inst)
    (hb : Beside I.whose j I.base w₀) : Beside I.whose j w w₀ := by
  obtain ⟨p, hb⟩ := hb
  have hne {name : String} (hn : I.whose name = j) : I.whose name ≠ I.inst := hn ▸ hj
  refine ⟨p, ?_⟩
  exact
    { instances := ⟨by rw [h.instances.rest hj]; exact hb.instances.own, hb.instances.size',
        fun _ => rfl⟩
      activations := h.activations.other hj hb.activations
      tasks := h.tasks.other hj hb.tasks
      spawned := h.spawned
      spawned' := hb.spawned'
      slots := by
        refine ⟨fun slot => ?_, h.slots.held, fun _ => rfl⟩
        rw [hb.slots.own slot]
        split
        · next hs => rw [h.slots.rest (hne hs)]
        · rfl
      handles := by
        refine ⟨fun hn => ⟨(hb.handles.unbound (h.handles.unbound hn).2).1, hn⟩,
          fun {name k} hn => ?_⟩
        obtain ⟨k', hk, -⟩ | ⟨hbase, l, hl, howner⟩ := h.handles.bound hn
        · exact .inr ⟨hn, I.inst, Ne.symm hj, (h.owner?_of_pair hk).1⟩
        · obtain hown | ⟨-, l', hl', howner'⟩ := hb.handles.bound hbase
          · exact .inl hown
          · obtain rfl := Option.some.inj (howner.symm.trans howner')
            exact .inr ⟨hn, l, hl', h.owner?_of_base hl howner⟩
      names := by
        refine ⟨fun hn => ?_, fun _ => rfl, fun hx => ?_, ?_, Nat.le.refl⟩
        · rw [h.names.rest (hne hn)]
          exact hb.names.own hn
        · exact ⟨Nat.lt_of_lt_of_le (hb.names.used hx).1 h.names.later, (hb.names.used hx).2⟩
        · exact Nat.le_trans hb.names.counter h.names.later
      journal := ⟨[], [], rfl, rfl, .nil⟩ }

/-! ### Errands -/

/-- An errand begins on either side or on none. -/
theorem Beside.start (h : Beside whose i w w₀) (d : Errand σ) :
    Option.Rel (fun r r₀ => ∃ p, Runs ⟨i, whose, w, w₀⟩ p r r₀) (d.start? w i)
      (d.start? w₀ 0) := by
  obtain ⟨p, h⟩ := h
  cases d with
  | call c => exact .some ⟨p, h, .code .bare c, .nil⟩
  | handle n c =>
    have hown : w.activationsOf i = p.acts.pairs.map Prod.fst := h.activations.own
    have hown' : w₀.activationsOf 0 = p.acts.pairs.map Prod.snd := h.activations.own'
    simp only [Errand.start?, Errand.deed?, hown, hown', List.getElem?_map]
    cases hn : p.acts.pairs[n]? with
    | none => exact .none
    | some pair =>
      obtain ⟨k, k'⟩ := pair
      have hk : p.acts.Pair k k' := List.mem_of_getElem? hn
      obtain ⟨a, a', ha, ha', -⟩ := h.activations.get hk
      simp only [Option.map_some, Option.bind_some, Deed.start?, if_pos (Roster.lt_size ha),
        if_pos (Roster.lt_size ha')]
      exact .some ⟨p, h, .code (.handle hk) c, .nil⟩
  | poll n =>
    have hown : w.tasksOf i = p.tasks.pairs.map Prod.fst := h.tasks.own
    have hown' : w₀.tasksOf 0 = p.tasks.pairs.map Prod.snd := h.tasks.own'
    simp only [Errand.start?, Errand.deed?, hown, hown', List.getElem?_map]
    cases hn : p.tasks.pairs[n]? with
    | none => exact .none
    | some pair =>
      obtain ⟨t, t'⟩ := pair
      have ht : p.tasks.Pair t t' := List.mem_of_getElem? hn
      simp only [Option.map_some, Option.bind_some, Deed.start?]
      refine rel_bind (h.tasks.pairs ht) fun task task' htask => ?_
      refine rel_bind htask.progress fun x x' hx => ?_
      exact .some ⟨p, (h.queue _ _).recordAct htask.activation .polled fun _ _ => rfl,
        .future (.executor ht) htask.activation hx, .cons (.resume .bare _) .nil⟩

/-- What belongs to the instance has the same numbers. -/
theorem Worlds.agree (h : I.Worlds p w w') :
    I.Agree p (w.numbering I.inst) (w'.numbering 0) where
  inst := by simp [World.numbering]
  act hk := by
    change (w.activationsOf I.inst).idxOf _ = (w'.activationsOf 0).idxOf _
    rw [World.activationsOf, World.activationsOf, h.activations.own, h.activations.own']
    exact hk.idxOf_eq
  task ht := by
    change (w.tasksOf I.inst).idxOf _ = (w'.tasksOf 0).idxOf _
    rw [World.tasksOf, World.tasksOf, h.tasks.own, h.tasks.own']
    exact ht.idxOf_eq

theorem Worlds.shows_eq (h : I.Worlds p w w') : w.shows m I.inst = w'.shows m 0 := by
  rw [World.shows, World.shows]
  rcases rel_cases h.instances.own with ⟨hi, hi'⟩ | ⟨inst, inst', hi, hi', hrel⟩
  · rw [hi, hi']
  · rw [hi, hi', Option.map_some, Option.map_some, hrel.state.value, hrel.context.value]

/-- An errand comes to the same on either side. -/
theorem Worlds.account_eq (h : I.Worlds p w w') (e : Ending σ) :
    I.base.account m w I.inst e = I.alone.account m w' 0 e := by
  obtain ⟨since, since', hj, hj', hs⟩ := h.journal
  have happened {w base : World σ} {since : List (Event σ)}
      (hj : w.journal = since ++ base.journal) :
      w.history.drop base.history.length = since.reverse := by
    rw [World.history, World.history, hj, List.reverse_append, List.drop_left]
  have hevents : since.map (Event.renumber (w.numbering I.inst)) =
      since'.map (Event.renumber (w'.numbering 0)) := by
    rw [← List.forall₂_eq_eq_eq, List.forall₂_map_left_iff, List.forall₂_map_right_iff]
    exact hs.imp fun _ _ he => he h.agree
  rw [World.account, World.account, happened hj, happened hj', List.map_reverse, List.map_reverse,
    hevents, h.shows_eq]

end Isolation

/-! ### Logs -/

/-- **What an instance among others has in common with one that is alone.** -/
structure Alone (m : Machine σ) (whose : String → InstanceId) (i : InstanceId) (w : World σ)
    (log : List (InstanceId × Errand σ × Account σ)) (w₀ : World σ) : Prop where
  /-- Its own errands come to the same there, one after another. -/
  log : Log m (fun _ _ => true) w₀ ((log.filter (·.1 = i)).map fun x => (0, x.2))
  /-- It shows the same of itself, -/
  shows : w₀.shows m 0 = w.shows m i
  /-- and its next errand begins on either side or on none, and returns there or nowhere. -/
  next : ∀ d : Errand σ, Option.Rel (fun r r₀ => ∀ n,
    (∀ k < n, (r.steps m k).keepsTo whose i = true) →
      (r.steps m n).ending? = (r₀.steps m n).ending?) (d.start? w i) (d.start? w₀ 0)

open Isolation in
theorem Isolation.Beside.alone {log : List (InstanceId × Errand σ × Account σ)}
    (h : Beside whose i w w₀)
    (hlog : Log m (fun _ _ => true) w₀ ((log.filter (·.1 = i)).map fun x => (0, x.2))) :
    Alone m whose i w log w₀ where
  log := hlog
  shows := by
    obtain ⟨p, h⟩ := h
    exact h.shows_eq.symm
  next d := by
    refine rel_mono (h.start d) fun r r₀ hr n hk => ?_
    obtain ⟨p, hr⟩ := hr
    obtain ⟨q, -, hn⟩ := hr.steps n hk
    exact hn.ending_eq

open Isolation in
/-- **Instances of one machine do not interfere.** -/
theorem Log.isolated {log : List (InstanceId × Errand σ × Account σ)}
    (h : Log m (Run.keepsTo whose) w log) (i : InstanceId) :
    ∃ w₀, Alone m whose i w log w₀ := by
  -- every instance has stayed beside one that is alone and has done its own errands
  suffices hall : ∀ i, ∃ w₀, Beside whose i w w₀ ∧
      Log m (fun _ _ => true) w₀ ((log.filter (·.1 = i)).map fun x => (0, x.2)) by
    obtain ⟨w₀, hw, hlog⟩ := hall i
    exact ⟨w₀, hw.alone hlog⟩
  clear i
  induction h with
  | nil => exact fun i => ⟨{}, .empty, .nil⟩
  | @snoc w log r e h i d hd n hok he ih =>
    obtain ⟨w₀, hw, hlog⟩ := ih i
    obtain ⟨hnone, -⟩ | ⟨r₁, r₀, hr, hr₀, p, hruns⟩ := rel_cases (hw.start d)
    · cases hd.symm.trans hnone
    obtain rfl := Option.some.inj (hd.symm.trans hr)
    obtain ⟨q, -, hn⟩ := hruns.steps n hok
    intro j
    by_cases hj : i = j
    · subst hj
      refine ⟨_, hn.world.beside, ?_⟩
      have haccount : w.account m (r.steps m n).world i e =
          w₀.account m (r₀.steps m n).world 0 e := hn.world.account_eq e
      rw [List.filter_append, List.map_append, List.filter_cons_of_pos (by simp), haccount]
      exact hlog.snoc 0 d hr₀ n (fun _ _ => rfl) (hn.ending_eq ▸ he)
    · obtain ⟨v₀, hv, hvlog⟩ := ih j
      refine ⟨v₀, hn.world.beside_other (Ne.symm hj) hv, ?_⟩
      rw [List.filter_append, List.filter_cons_of_neg (by simpa using hj), List.filter_nil,
        List.append_nil]
      exact hvlog

/-! ### Two lamps -/

namespace Lamp

/-- A lamp that writes down that it is off, and waits in the background to be switched on. -/
def bedside : Machine sig where
  config := ⟨.ofPairs
    [(false, {
        transitions := .ofPairs [((), true)]
        effect := some (.setContext (1 : Nat)
          (.finish (.pending (.awaitAbort none .resolved none)))) }),
      (true, {})]⟩
  initialState := false
  initialContext := (0 : Nat)
  spawner := some .queue
  declared := by decide

/-- One lamp stands on the left, the other one on the right. -/
def side (name : String) : InstanceId := if name = "right" then 1 else 0

/-- The lamps are placed; somebody watches the left one; the futures of both are polled in turn, and
both are switched on, the right one through its handle. -/
def evening : List (InstanceId × Errand sig) :=
  [(0, .call (.place "left" .fresh .ofReply)),
    (1, .call (.place "right" .fresh .ofReply)),
    (0, .call (.watchState "left" "eye" (fun _ => .emit () (.finish .done))
      fun _ => .finish .done)),
    (1, .poll 0),
    (0, .call (.send "left" () none .ofReply)),
    (1, .handle 0 (.dispatch () none .ofReply)),
    (0, .poll 0)]

end Lamp

/-- One more errand, of which the run is looked at. -/
theorem Log.errand {ok : InstanceId → Run σ → Bool}
    {log : List (InstanceId × Errand σ × Account σ)} (h : Log m ok w log) (i : InstanceId)
    (d : Errand σ) (n : Nat) (hd : (d.start? w i).isSome = true)
    (hok : ∀ k < n, ok i (((d.start? w i).get hd).steps m k) = true)
    (he : (((d.start? w i).get hd).steps m n).ending?.isSome = true) :
    ∃ x, Log m ok (((d.start? w i).get hd).steps m n).world (log ++ [(i, d, x)]) := by
  obtain ⟨e, he⟩ := Option.isSome_iff_exists.1 he
  exact ⟨_, h.snoc i d (Option.some_get hd).symm n hok he⟩

/-- Each of two lamps comes to the same as if there were no other. -/
theorem lamps_isolated : ∃ w log, Log Lamp.bedside (Run.keepsTo Lamp.side) w log ∧
    log.map (fun x => (x.1, x.2.1)) = Lamp.evening ∧
    (w.shows Lamp.bedside 0).any (·.isFinal) = true ∧
    (∃ w₀, Alone Lamp.bedside Lamp.side 0 w log w₀) ∧
    ∃ w₁, Alone Lamp.bedside Lamp.side 1 w log w₁ := by
  have h₀ : Log Lamp.bedside (Run.keepsTo Lamp.side) {} [] := .nil
  obtain ⟨_, h₁⟩ := h₀.errand 0 (.call (.place "left" .fresh .ofReply)) 15 (by decide +kernel)
    (by decide +kernel) (by decide +kernel)
  obtain ⟨_, h₂⟩ := h₁.errand 1 (.call (.place "right" .fresh .ofReply)) 15 (by decide +kernel)
    (by decide +kernel) (by decide +kernel)
  obtain ⟨_, h₃⟩ := h₂.errand 0 (.call (.watchState "left" "eye"
    (fun _ => .emit () (.finish .done)) fun _ => .finish .done)) 3 (by decide +kernel)
    (by decide +kernel) (by decide +kernel)
  obtain ⟨_, h₄⟩ := h₃.errand 1 (.poll 0) 5 (by decide +kernel) (by decide +kernel)
    (by decide +kernel)
  obtain ⟨_, h₅⟩ := h₄.errand 0 (.call (.send "left" () none .ofReply)) 15 (by decide +kernel)
    (by decide +kernel) (by decide +kernel)
  obtain ⟨_, h₆⟩ := h₅.errand 1 (.handle 0 (.dispatch () none .ofReply)) 15 (by decide +kernel)
    (by decide +kernel) (by decide +kernel)
  obtain ⟨_, h₇⟩ := h₆.errand 0 (.poll 0) 5 (by decide +kernel) (by decide +kernel)
    (by decide +kernel)
  exact ⟨_, _, h₇, rfl, by decide +kernel, h₇.isolated 0, h₇.isolated 1⟩

end Statechart
