import Statechart.Machine
import Mathlib.Data.List.Nodup

/-!
What a configuration reports of itself: the states in which nothing is accepted, and the transitions
that lead nowhere. Both are collected from the whole table, and agree with the look-up of a single
action.
-/

namespace Statechart

variable {σ : Signature}

/-! ### Empty tables -/

theorem Table.isEmpty_iff {κ α : Type} [DecidableEq κ] {t : Table κ α} :
    t.isEmpty = true ↔ ∀ k, t.get? k = none := by
  unfold isEmpty
  constructor
  · intro h k
    unfold get?
    rw [List.isEmpty_iff.1 h]
    rfl
  · intro h
    rw [List.isEmpty_iff]
    by_contra hne
    obtain ⟨e, he⟩ := List.exists_mem_of_ne_nil _ hne
    have hget : t.get? e.1 = some e.2 := get?_eq_some_iff.2 he
    rw [h] at hget
    cases hget

/-! ### Final states -/

namespace Config

variable {c : Config σ} {s t : σ.State} {a : σ.Action}

theorem target?_eq_some_iff :
    c.target? s a = some t ↔ ∃ d, (s, d) ∈ c.states.entries ∧ (a, t) ∈ d.transitions.entries := by
  simp only [target?, get?, Option.bind_eq_some_iff, Table.get?_eq_some_iff, StateDef.target?]

theorem contains_of_target? (h : c.target? s a = some t) : c.contains s = true := by
  obtain ⟨d, hd, -⟩ := Option.bind_eq_some_iff.1 h
  exact Option.isSome_of_eq_some hd

/-- **The final states are the declared ones that accept nothing.** -/
theorem mem_finals_iff : s ∈ c.finals ↔ c.contains s = true ∧ ∀ a, c.target? s a = none := by
  simp only [finals, List.mem_map, List.mem_filter]
  constructor
  · rintro ⟨⟨s, d⟩, ⟨hd, hfinal⟩, rfl⟩
    have hget : c.get? s = some d := Table.get?_eq_some_iff.2 hd
    refine ⟨Option.isSome_of_eq_some hget, fun a => ?_⟩
    rw [target?, hget]
    exact Table.isEmpty_iff.1 hfinal a
  · rintro ⟨hdecl, hnone⟩
    obtain ⟨d, hget⟩ := Option.isSome_iff_exists.1 hdecl
    refine ⟨(s, d), ⟨Table.get?_eq_some_iff.1 hget, Table.isEmpty_iff.2 fun a => ?_⟩, rfl⟩
    have hnone := hnone a
    rw [target?, get?, hget] at hnone
    exact hnone

/-! ### Dangling transitions -/

theorem mem_dangling_iff :
    (s, a, t) ∈ c.dangling ↔ c.target? s a = some t ∧ c.contains t = false := by
  rw [target?_eq_some_iff]
  simp only [dangling, List.mem_flatMap, List.mem_map, List.mem_filter]
  constructor
  · rintro ⟨⟨s, d⟩, hd, ⟨a, t⟩, ⟨ht, hc⟩, e⟩
    cases e
    exact ⟨⟨d, hd, ht⟩, by simpa using hc⟩
  · rintro ⟨⟨d, hd, ht⟩, hc⟩
    exact ⟨(s, d), hd, (a, t), ⟨ht, by simpa using hc⟩, rfl⟩

/-- A dangling transition is found once, since a state is declared once, and an action is mapped
once. -/
theorem nodup_dangling : c.dangling.Nodup := by
  refine List.nodup_flatMap.2 ⟨fun e _ => ?_, ?_⟩
  · refine List.Nodup.map_on (fun p hp q hq h => ?_) (e.2.transitions.nodup.of_map.filter _)
    obtain ⟨-, h⟩ := Prod.mk.inj h
    exact Prod.ext (Prod.mk.inj h).1 (Prod.mk.inj h).2
  · refine (List.pairwise_map.1 c.states.nodup).imp fun {e f} hne x hx hy => hne ?_
    obtain ⟨p, -, rfl⟩ := List.mem_map.1 hx
    obtain ⟨q, -, h⟩ := List.mem_map.1 hy
    exact (Prod.mk.inj h).1.symm

/-- **The report lists the dangling transitions of declared states**, and nothing else. -/
theorem mem_validate_iff {d : DanglingTarget} : d ∈ c.validate ↔
    ∃ s a t, c.target? s a = some t ∧ c.contains t = false ∧
      d = ⟨σ.stateName s, σ.actionName a, σ.stateName t⟩ := by
  simp only [validate, List.mem_map]
  constructor
  · rintro ⟨⟨s, a, t⟩, hm, rfl⟩
    obtain ⟨ht, hc⟩ := mem_dangling_iff.1 hm
    exact ⟨s, a, t, ht, hc, rfl⟩
  · rintro ⟨s, a, t, ht, hc, rfl⟩
    exact ⟨(s, a, t), mem_dangling_iff.2 ⟨ht, hc⟩, rfl⟩

/-- Where names tell the ids apart, nothing is listed twice. -/
theorem nodup_validate (hs : Function.Injective σ.stateName)
    (ha : Function.Injective σ.actionName) :
    c.validate.Nodup := by
  refine nodup_dangling.map fun d e h => ?_
  obtain ⟨hsource, haction, htarget⟩ := DanglingTarget.mk.inj h
  exact Prod.ext (hs hsource) (Prod.ext (ha haction) (hs htarget))

/-- Where names tell the ids apart, what is listed under the names of `s`, `a` and `t` is the
transition from `s` to `t`. -/
theorem mem_validate_names (hs : Function.Injective σ.stateName)
    (ha : Function.Injective σ.actionName) :
    ⟨σ.stateName s, σ.actionName a, σ.stateName t⟩ ∈ c.validate ↔
      c.target? s a = some t ∧ c.contains t = false := by
  rw [mem_validate_iff]
  constructor
  · rintro ⟨s', a', t', ht, hc, h⟩
    obtain ⟨hsource, haction, htarget⟩ := DanglingTarget.mk.inj h
    rw [hs hsource, ha haction, hs htarget]
    exact ⟨ht, hc⟩
  · rintro ⟨ht, hc⟩
    exact ⟨s, a, t, ht, hc, rfl⟩

end Config

/-- An instance is final in the states that accept nothing, as far as they are declared. -/
theorem Machine.isFinal_iff {m : Machine σ} {s : σ.State} (hs : m.config.contains s = true) :
    m.isFinal s = true ↔ ∀ a, m.config.target? s a = none := by
  rw [isFinal, List.contains_iff_mem, finals, Config.mem_finals_iff]
  exact and_iff_right hs

end Statechart
