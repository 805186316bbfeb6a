import Statechart.Proofs.Lifecycle.Intact
import Statechart.Proofs.Loop.Plain

/-!
The course of one instance: the edges along which its state variable was written, the entries that
were asked for, those that were made, and those that are still to be made. A placement asks for an
entry into its state, and a write of the state variable for one into its target. Whatever a step
does, for a given instance it is a placement, a write, an entry, or it leaves the course alone.
-/

namespace Statechart

variable {σ : Signature} {m : Machine σ} {r : Run σ} {l : Life σ} {i : InstanceId}

/-! ### What is asked for, made, and still to be made -/

/-- What an entry was caused by, and what it was given. -/
def Visit.cause (v : Visit σ) : Trigger σ.Action × Option σ.Payload := (v.trigger, v.payload)

/-- The entry into the state `s` for a cause. -/
def Visit.into (s : σ.State) (q : Trigger σ.Action × Option σ.Payload) : Visit σ := ⟨s, q.1, q.2⟩

/-- The edge that a write of the state variable of instance `i` makes. -/
def Event.edge? (i : InstanceId) : Event σ → Option (σ.State × σ.Action × σ.State)
  | wrote j s t a _ => if j = i then some (s, a, t) else none
  | _ => none

/-- The entry of instance `i` that an event asks for. -/
def Event.asks? (i : InstanceId) : Event σ → Option (Visit σ)
  | placed j s => if j = i then some ⟨s, .initial, none⟩ else none
  | wrote j _ t a p => if j = i then some ⟨t, .action a, p⟩ else none
  | _ => none

/-- The entry of instance `i` that a stage has still to make. -/
def Stage.awaits? (i : InstanceId) : Stage σ → Option (Trigger σ.Action × Option σ.Payload)
  | entering j tr p => if j = i then some (tr, p) else none
  | _ => none

namespace Life

/-- The edges that instance `i` has followed, the latest first. -/
def edges (l : Life σ) (i : InstanceId) : List (σ.State × σ.Action × σ.State) :=
  l.past.filterMap (Event.edge? i)

/-- The entries of instance `i` that were asked for, the latest first. -/
def asked (l : Life σ) (i : InstanceId) : List (Visit σ) := l.past.filterMap (Event.asks? i)

/-- The entries of instance `i` that were made, the latest first. -/
def made (l : Life σ) (i : InstanceId) : List (Visit σ) := l.past.filterMap (Event.visit? i)

/-- The entries of instance `i` that are still to be made, the innermost first. -/
def awaited (l : Life σ) (i : InstanceId) : List (Trigger σ.Action × Option σ.Payload) :=
  l.stages.filterMap (Stage.awaits? i)

end Life

/-- What a move means for the course of instance `i`. -/
inductive Move.Concerns (m : Machine σ) (r : Run σ) (l : Life σ) (i : InstanceId) : Prop
  /-- It leaves the instance in its state, and makes no entry into it. -/
  | rests (he : l.edges i = r.life.edges i)
      (ha : l.asked i = r.life.asked i) (hm : l.made i = r.life.made i)
      (hp : l.awaited i = r.life.awaited i)
      (hs : ∀ s, l.instances i = some s → ∃ u, r.life.instances i = some u ∧ u.state = s.state)
  /-- It places the instance. -/
  | places {s} (hi : i = r.life.placed) (hlt : i < l.placed) (hd : m.config.contains s = true)
      (hpast : .placed i s ∈ l.past) (he : l.edges i = r.life.edges i)
      (ha : l.asked i = ⟨s, .initial, none⟩ :: r.life.asked i) (hm : l.made i = r.life.made i)
      (hp : l.awaited i = (.initial, none) :: r.life.awaited i)
      (hs : ∀ u, l.instances i = some u → u.state = s)
  /-- It writes the state variable. -/
  | writes {t a p rest s} (hst : r.life.stages = .changing i t a p :: rest)
      (hi : r.life.instances i = some s) (he : l.edges i = (s.state, a, t) :: r.life.edges i)
      (ha : l.asked i = ⟨t, .action a, p⟩ :: r.life.asked i) (hm : l.made i = r.life.made i)
      (hp : l.awaited i = (.action a, p) :: r.life.awaited i)
      (hs : ∀ u, l.instances i = some u → u.state = t)
  /-- It makes an entry. -/
  | enters {tr p rest s} (hst : r.life.stages = .entering i tr p :: rest)
      (hi : r.life.instances i = some s) (he : l.edges i = r.life.edges i)
      (ha : l.asked i = r.life.asked i) (hm : l.made i = ⟨s.state, tr, p⟩ :: r.life.made i)
      (hp : r.life.awaited i = (tr, p) :: l.awaited i)
      (hs : ∀ u, l.instances i = some u → u.state = s.state)

/-- An entry that begins is one that instance `i` has made, or one of another instance. -/
theorem filterMap_visit?_cons {j : InstanceId} {e : Event σ} {v : Visit σ}
    (he : e.visit? i = if j = i then some v else none) (past : List (Event σ)) :
    (e :: past).filterMap (Event.visit? i) =
      if j = i then v :: past.filterMap (Event.visit? i)
      else past.filterMap (Event.visit? i) := by
  by_cases hij : j = i
  · rw [if_pos hij] at he ⊢
    exact List.filterMap_cons_some he
  · rw [if_neg hij] at he ⊢
    exact List.filterMap_cons_none he

/-- A stage that makes no entry of instance `i` leaves what is still to be made as it is. -/
theorem Life.awaited_popped {f : Stage σ} {rest : List (Stage σ)} (hst : l.stages = f :: rest)
    (hf : f.awaits? i = none) : rest.filterMap (Stage.awaits? i) = l.awaited i := by
  rw [Life.awaited, hst, List.filterMap_cons_none hf]

namespace Move

/-- A placement concerns the instance that it places. -/
theorem concerns_place {s : σ.State} {c : σ.Context} (hd : m.config.contains s = true)
    (i : InstanceId) :
    Concerns m r (((r.life.note (.placed r.life.placed s)).addInstance ⟨s, c, none⟩).on
      (.entering r.life.placed .initial none :: r.life.stages)) i := by
  by_cases hij : r.life.placed = i
  · refine .places hij.symm (hij ▸ Nat.lt_succ_self _) hd ?_ rfl ?_ rfl ?_ fun u hu => ?_
    · exact hij ▸ List.mem_cons_self
    · exact List.filterMap_cons_some (if_pos hij)
    · exact List.filterMap_cons_some (if_pos hij)
    · obtain rfl := Option.some.inj ((if_pos hij.symm).symm.trans hu)
      rfl
  · refine .rests rfl ?_ rfl ?_ fun u hu => ⟨u, ?_, rfl⟩
    · exact List.filterMap_cons_none (if_neg hij)
    · exact List.filterMap_cons_none (if_neg hij)
    · exact (if_neg (Ne.symm hij)).symm.trans hu

/-- A write concerns the instance whose state variable it writes. -/
theorem concerns_change {j : InstanceId} {t : σ.State} {a : σ.Action} {p : Option σ.Payload}
    {rest : List (Stage σ)} {s : Standing σ} (hst : r.life.stages = .changing j t a p :: rest)
    (hj : r.life.instances j = some s) (i : InstanceId) :
    Concerns m r (((r.life.note (.wrote j s.state t a p)).modifyInstance j
      fun s => { s with state := t }).on (.entering j (.action a) p :: rest)) i := by
  have hrest := Life.awaited_popped (i := i) hst rfl
  by_cases hij : j = i
  · subst hij
    refine .writes hst hj ?_ ?_ rfl ?_ fun u hu => ?_
    · exact List.filterMap_cons_some (if_pos rfl)
    · exact List.filterMap_cons_some (if_pos rfl)
    · rw [← hrest]
      exact List.filterMap_cons_some (if_pos rfl)
    · obtain ⟨v, hv, rfl⟩ := Life.modifyInstance_eq_some.1 hu
      rw [if_pos rfl]
  · refine .rests ?_ ?_ rfl ?_ fun u hu => ⟨u, ?_, rfl⟩
    · exact List.filterMap_cons_none (if_neg hij)
    · exact List.filterMap_cons_none (if_neg hij)
    · rw [← hrest]
      exact List.filterMap_cons_none (if_neg hij)
    · exact (if_neg (Ne.symm hij)).symm.trans hu

/-- An entry concerns the instance that makes it, whether or not it has an effect. -/
theorem concerns_entering {j : InstanceId} {tr : Trigger σ.Action} {p : Option σ.Payload}
    {s : Standing σ} {rest : List (Stage σ)} (hst : r.life.stages = .entering j tr p :: rest)
    (hj : r.life.instances j = some s) (he : l.edges i = r.life.edges i)
    (ha : l.asked i = r.life.asked i)
    (hv : l.made i = if j = i then ⟨s.state, tr, p⟩ :: r.life.made i else r.life.made i)
    (hp : l.awaited i = rest.filterMap (Stage.awaits? i))
    (hs : ∀ u, l.instances i = some u → ∃ v, r.life.instances i = some v ∧ v.state = u.state) :
    Concerns m r l i := by
  by_cases hij : j = i
  · subst hij
    rw [if_pos rfl] at hv
    refine .enters hst hj he ha hv ?_ fun u hu => ?_
    · rw [Life.awaited, hst, hp]
      exact List.filterMap_cons_some (if_pos rfl)
    · obtain ⟨v, hv, hst⟩ := hs u hu
      obtain rfl := Option.some.inj (hj.symm.trans hv)
      exact hst.symm
  · rw [if_neg hij] at hv
    exact .rests he ha hv (hp.trans (Life.awaited_popped hst (if_neg hij))) hs

/-- **What a move means for a given instance.** -/
theorem concerns (hm : Move m r l) (i : InstanceId) : Concerns m r l i := by
  have same (s : Standing σ) (hs : r.life.instances i = some s) :
      ∃ u, r.life.instances i = some u ∧ u.state = s.state := ⟨s, hs, rfl⟩
  cases hm with
  | quiet => exact .rests rfl rfl rfl rfl same
  | place hd => exact concerns_place hd i
  | @depart _ _ d => cases d <;> exact .rests rfl rfl rfl rfl same
  | @exit _ _ _ _ d =>
    cases d <;> exact .rests rfl rfl rfl rfl fun _ hs =>
      Life.modifyInstance_state (fun _ => by rfl) hs
  | exited hst | cleanup hst | left hst | close hst | forgo hst | keep hst | atOnce hst =>
    exact .rests rfl rfl rfl (Life.awaited_popped hst rfl) same
  | change hst hj => exact concerns_change hst hj i
  | enterBare hst hj =>
    exact concerns_entering hst hj rfl rfl (filterMap_visit?_cons rfl _) rfl same
  | enter hst hj | displace hst hj =>
    exact concerns_entering hst hj rfl rfl (filterMap_visit?_cons rfl _) rfl fun _ hs =>
      Life.modifyInstance_state (fun _ => by rfl) hs
  | write =>
    exact .rests rfl rfl rfl rfl fun _ hs => Life.modifyInstance_state (fun _ => by rfl) hs
  | observe => exact .rests rfl rfl rfl rfl same

end Move

/-- A move makes no difference to an instance that is not placed by it. -/
theorem Move.unplaced (hm : Move m r l) (hs : r.life.Sound) (hi : l.placed ≤ i) :
    r.life.placed ≤ i ∧ l.edges i = r.life.edges i ∧ l.asked i = r.life.asked i := by
  have hle : r.life.placed ≤ i := Nat.le_trans hm.placed_le hi
  cases hm.concerns i with
  | rests he ha _ _ _ => exact ⟨hle, he, ha⟩
  | places _ hlt _ _ _ _ _ _ _ => exact absurd hlt (Nat.not_lt.2 hi)
  | writes hst _ _ _ _ _ _ =>
    exact absurd (hs.transits _ (hst ▸ List.mem_cons_self) i rfl) (Nat.not_lt.2 hle)
  | enters _ _ he ha _ _ _ => exact ⟨hle, he, ha⟩

end Statechart
