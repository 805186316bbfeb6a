import Statechart.Proofs.Observation.Change
import Statechart.Proofs.Run.Ownership

/-!
The ids under which observers of instances are registered. Whoever can be subscribed to is there, so
that every id that is given names an observer; and looking for an id at the state variable first and
at the context afterwards takes away the observer that it names, wherever that is.
-/

namespace Statechart

variable {σ : Signature} {m : Machine σ} {r r' : Run σ}

def World.register (w : World σ) : Register Spot := ⟨w.nextSubscription, w.ids⟩

/-! ### Changes -/

namespace Scene

variable {s s' : Scene σ} {e : Option (Entry Spot)} {p q : Spot}

/-- The ids under which a spot is observed, in order. -/
def ids (s : Scene σ) (p : Spot) : List SubscriptionId := ((s.cells p).map Prod.snd).getD []

theorem ids_eq {v : Value σ} {ids' : List SubscriptionId} (h : s.cells p = some (v, ids')) :
    s.ids p = ids' := by
  rw [ids, h]
  rfl

theorem ids_put (s : Scene σ) (q : Spot) (c : Value σ × List SubscriptionId) :
    (s.put q c).ids = Function.update s.ids q c.2 := by
  funext p
  by_cases hp : p = q
  · subst hp
    simp [ids, put]
  · simp [ids, put, Function.update_of_ne hp]

/-- What is there stays there. -/
theorem isSome_put {c : Value σ × List SubscriptionId} (h : (s.cells p).isSome = true) :
    ((s.put q c).cells p).isSome = true := by
  by_cases hq : p = q
  · subst hq
    simp [put]
  · simpa [put, Function.update_of_ne hq] using h

theorem Change.isSome (h : s.Change e s') (hp : (s.cells p).isSome = true) :
    (s'.cells p).isSome = true := by
  cases h with
  | quiet | told | missed => exact hp
  | wrote | watched | unwatched => exact isSome_put hp
  | placed => exact isSome_put (isSome_put hp)

/-- **What a change means for the ids**, if only what is there can be subscribed to. -/
theorem Change.becomes (h : s.Change e s')
    (hthere : ∀ p id, e = some (.subscribed p id) → (s.cells p).isSome = true) :
    Register.Becomes ⟨s.next, s.ids⟩ e ⟨s'.next, s'.ids⟩ := by
  cases h with
  | quiet | told => exact rfl
  | @placed i v c hs hc =>
    have hstate : Function.update s.ids (.state i) [] = s.ids :=
      Function.update_eq_self_iff.2 (by rw [ids, hs]; rfl)
    have hcontext : Function.update s.ids (.context i) [] = s.ids :=
      Function.update_eq_self_iff.2 (by rw [ids, hc]; rfl)
    refine Register.ext rfl ?_
    change ((s.put (.state i) (.state v, [])).put (.context i) (.context c, [])).ids = s.ids
    rw [ids_put, ids_put, hstate, hcontext]
  | @wrote q u v ids' hq =>
    refine Register.ext rfl ?_
    change (s.put q (v, ids')).ids = s.ids
    rw [ids_put, Function.update_eq_self_iff.2 (ids_eq hq).symm]
  | @watched q v ids' hq =>
    refine ⟨rfl, Register.ext rfl ?_⟩
    change (s.put q (v, ids' ++ [s.next])).ids = Function.update s.ids q (s.ids q ++ [s.next])
    rw [ids_put, ids_eq hq]
  | @missed q hq =>
    have hsome := hthere q _ rfl
    rw [hq] at hsome
    cases hsome
  | @unwatched q v ids' id hq hid =>
    refine ⟨?_, Register.ext rfl ?_⟩
    · change id ∈ s.ids q
      rwa [ids_eq hq]
    · change (s.put q (v, ids'.filter fun id' => id' ≠ id)).ids =
        Function.update s.ids q ((s.ids q).filter fun id' => id' ≠ id)
      rw [ids_put, ids_eq hq]

end Scene

/-! ### Instances that are owned -/

theorem World.isSome_cell? {w : World σ} {i : InstanceId} :
    (w.cell? (.state i)).isSome = (w.instances.get? i).isSome := Option.isSome_map

namespace Run

/-- Whatever is owned is there. -/
def Housed (r : Run σ) : Prop := ∀ i, r.owned i = true → (r.world.instances.get? i).isSome = true

theorem Housed.start (c : Code σ) : Housed (ofCode {} c) := by
  intro i hi
  cases hi

theorem Housed.step (h : r.Housed) (hs : r.step m = some r') : r'.Housed := by
  intro i hi
  rcases (step_cedes hs).owned i hi with hi | ⟨-, hi⟩
  · rw [← World.isSome_cell?]
    exact (changes_step hs).isSome (p := .state i) (World.isSome_cell?.trans (h i hi))
  · exact (Roster.isSome_get? ..).2 hi

theorem Housed.turn (h : r.Housed) (ht : r.Turn r') : r'.Housed := by
  intro i hi
  have hcells := congrArg Scene.cells (scene_turn ht)
  rw [← World.isSome_cell?]
  exact (congrArg Option.isSome (congrFun hcells (.state i))).trans
    (World.isSome_cell?.trans (h i ((owned_turn ht i).symm.trans hi)))

theorem Housed.present (h : r.Housed) {slot : String} {i : InstanceId}
    (hs : r.world.slots.get? slot = some i) : ∃ inst, r.world.instances.get? i = some inst :=
  Option.isSome_iff_exists.1 (h i (owned_of_slot hs r.stack))

/-- Only what is there is subscribed to. -/
theorem Housed.watched (h : r.Housed) {p : Spot} {id : SubscriptionId}
    (he : r.mention? = some (.subscribed p id)) : (r.scene.cells p).isSome = true := by
  obtain ⟨w, control, stack⟩ := r
  unfold mention? at he
  split at he
  case h_1 | h_2 =>
    obtain ⟨i, hi, he⟩ := Option.map_eq_some_iff.1 he
    obtain ⟨rfl, -⟩ := Entry.subscribed.inj he
    obtain ⟨inst, hinst⟩ := h.present hi
    simp [scene, World.scene, World.cell?, hinst]
  · obtain ⟨i, -, he⟩ := Option.bind_eq_some_iff.1 he
    obtain ⟨id', -, he⟩ := Option.bind_eq_some_iff.1 he
    obtain ⟨inst, -, he⟩ := Option.bind_eq_some_iff.1 he
    split at he
    · cases he
    · split at he <;> cases he
  · cases he

/-- **What a step means for the ids.** -/
theorem Housed.becomes (h : r.Housed) (hs : r.step m = some r') :
    r.world.register.Becomes r.mention? r'.world.register :=
  (changes_step hs).becomes fun _ _ he => h.watched he

theorem register_turn (h : r.Turn r') : r'.world.register = r.world.register :=
  congrArg (fun s => (⟨s.next, s.ids⟩ : Register Spot)) (scene_turn h)

end Run

/-! ### Removals -/

namespace World

variable {w : World σ} {i : InstanceId} {inst : Instance σ} {id : SubscriptionId}

end World

end Statechart
