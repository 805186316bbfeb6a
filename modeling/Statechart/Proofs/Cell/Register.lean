import Statechart.Cell
import Mathlib.Data.List.Nodup
import Mathlib.Data.List.Pairwise
import Mathlib.Data.List.Perm.Basic
import Mathlib.Logic.Function.Basic

/-!
Subscription ids. All places at which observers are registered draw their ids from one counter, so
as long as it does not come round, an id stands for one registration: at one place, at most once,
and never again after it has been removed.
-/

namespace Statechart

/-- What happens to subscription ids, seen from places of kind `κ`. -/
inductive Entry (κ : Type) where
  | subscribed (p : κ) (id : SubscriptionId)
  | removed (p : κ) (id : SubscriptionId)

namespace Entry

variable {κ : Type}

/-- The id that is given to an observer. -/
def given? : Entry κ → Option SubscriptionId
  | subscribed _ id => some id
  | removed .. => none

/-- The same at another place. -/
def map {κ' : Type} (f : κ → κ') : Entry κ → Entry κ'
  | subscribed p id => subscribed (f p) id
  | removed p id => removed (f p) id

variable [DecidableEq κ]

/-- The id that is given to an observer at `p`. -/
def givenAt? (p : κ) : Entry κ → Option SubscriptionId
  | subscribed q id => if q = p then some id else none
  | _ => none

/-- The id that is removed from `p`. -/
def removedFrom? (p : κ) : Entry κ → Option SubscriptionId
  | removed q id => if q = p then some id else none
  | _ => none

end Entry

section Entries

variable {κ : Type} (es : List (Entry κ))

/-- The ids that have been given, in order. -/
def given : List SubscriptionId := es.filterMap Entry.given?

variable [DecidableEq κ] (p : κ)

/-- The ids that have been given at `p`, in order. -/
def givenAt : List SubscriptionId := es.filterMap (Entry.givenAt? p)

/-- The ids that have been removed from `p`, in order. -/
def removedFrom : List SubscriptionId := es.filterMap (Entry.removedFrom? p)

/-- The id has been given at `p`, and has not been removed from it. -/
def Stands (id : SubscriptionId) : Prop := id ∈ givenAt es p ∧ id ∉ removedFrom es p

instance (id : SubscriptionId) : Decidable (Stands es p id) := inferInstanceAs (Decidable (_ ∧ _))

end Entries

/-- The id that is given next, and the ids that are registered at each place, in order. -/
@[ext]
structure Register (κ : Type) where
  next : SubscriptionId
  ids : κ → List SubscriptionId

namespace Register

variable {κ : Type} {R : Register κ} {es : List (Entry κ)} {e : Entry κ} {start id : SubscriptionId}

/-- What can happen: the id that is given is the next one, and only what is registered is
removed. -/
def Admits (R : Register κ) : Entry κ → Prop
  | .subscribed _ id => id = R.next
  | .removed p id => id ∈ R.ids p

variable [DecidableEq κ] {p q : κ}

/-- What an entry leaves. -/
def enter (R : Register κ) : Entry κ → Register κ
  | .subscribed p id => ⟨R.next + 1, Function.update R.ids p (R.ids p ++ [id])⟩
  | .removed p id => ⟨R.next, Function.update R.ids p ((R.ids p).filter fun id' => id' ≠ id)⟩

/-- **The registers that come of entries**, one after another, where there were no observers at
first. -/
inductive Log (start : SubscriptionId) : List (Entry κ) → Register κ → Prop
  | nil : Log start [] ⟨start, fun _ => []⟩
  | snoc {es : List (Entry κ)} {R : Register κ} {e : Entry κ} (h : Log start es R)
      (he : R.Admits e) : Log start (es ++ [e]) (R.enter e)

/-- What is left of something that may be an entry. -/
def Becomes (R : Register κ) (o : Option (Entry κ)) (R' : Register κ) : Prop :=
  match o with
  | none => R' = R
  | some e => R.Admits e ∧ R' = R.enter e

theorem Log.becomes {o : Option (Entry κ)} {R' : Register κ} (h : Log start es R)
    (hb : R.Becomes o R') : Log start (es ++ o.toList) R' := by
  cases o with
  | none =>
    obtain rfl : R' = R := hb
    simpa using h
  | some e =>
    obtain ⟨he, rfl⟩ := hb
    exact h.snoc he

/-! ### Registers that are part of others -/

/-- What happens to a part of a register happens to the register. -/
theorem Becomes.lift {κ' : Type} [DecidableEq κ'] {R' : Register κ} {S S' : Register κ'}
    {o : Option (Entry κ)} (hb : R.Becomes o R') (f : κ → κ') (hf : Function.Injective f)
    (hn : S.next = R.next) (hi : ∀ p, S.ids (f p) = R.ids p) (hn' : S'.next = R'.next)
    (hi' : ∀ p, S'.ids (f p) = R'.ids p) (ho : ∀ q, (∀ p, q ≠ f p) → S'.ids q = S.ids q) :
    S.Becomes (o.map (Entry.map f)) S' := by
  have hsame (h : R'.ids = R.ids) : S'.ids = S.ids := by
    funext q
    by_cases hq : ∃ p, q = f p
    · obtain ⟨p, rfl⟩ := hq
      rw [hi', hi, h]
    · exact ho q fun p hp => hq ⟨p, hp⟩
  have hupdate {p : κ} {l : List SubscriptionId} (h : R'.ids = Function.update R.ids p l) :
      S'.ids = Function.update S.ids (f p) l := by
    funext q
    by_cases hq : ∃ p, q = f p
    · obtain ⟨p', rfl⟩ := hq
      rw [hi', h]
      by_cases hp : p' = p
      · subst hp
        simp
      · rw [Function.update_of_ne hp, Function.update_of_ne fun h => hp (hf h), hi]
    · rw [ho q fun p hp => hq ⟨p, hp⟩, Function.update_of_ne fun hp => hq ⟨p, hp⟩]
  cases o with
  | none =>
    obtain rfl : R' = R := hb
    exact Register.ext (hn'.trans hn.symm) (hsame rfl)
  | some e =>
    obtain ⟨he, rfl⟩ := hb
    cases e with
    | subscribed p id =>
      refine ⟨he.trans hn.symm, Register.ext ?_ ?_⟩
      · exact hn'.trans (congrArg (· + 1) hn.symm)
      · exact (hupdate rfl).trans (by rw [← hi p]; rfl)
    | removed p id =>
      refine ⟨?_, Register.ext (hn'.trans hn.symm) ?_⟩
      · exact (congrArg (id ∈ ·) (hi p)).mpr he
      · exact (hupdate rfl).trans (by rw [← hi p]; rfl)

/-! ### The counter -/

/-- The ids are counted. -/
theorem Log.counted (h : Log start es R) :
    given es = (List.range (given es).length).map (fun k => start + UInt64.ofNat k) ∧
      R.next = start + UInt64.ofNat (given es).length := by
  induction h with
  | nil => exact ⟨rfl, (UInt64.add_zero start).symm⟩
  | @snoc es R e _ he ih =>
    cases e with
    | subscribed p id =>
      obtain rfl : id = R.next := he
      have hid : given (es ++ [.subscribed p R.next]) = given es ++ [R.next] := by
        simp [given, Entry.given?]
      rw [hid, List.length_append, List.length_singleton]
      constructor
      · rw [List.range_succ, List.map_append, ← ih.1, List.map_singleton, ← ih.2]
      · change R.next + 1 = _
        rw [ih.2, UInt64.ofNat_add, UInt64.add_assoc]
        rfl
    | removed p id =>
      have hid : given (es ++ [.removed p id]) = given es := by simp [given, Entry.given?]
      rw [hid]
      exact ih

/-- **No id is given twice**, as long as the counter does not come round. -/
theorem Log.nodup_given (h : Log start es R) (hlt : (given es).length ≤ UInt64.size) :
    (given es).Nodup := by
  rw [h.counted.1]
  refine List.nodup_range.map_on fun j hj k hk hjk => ?_
  rw [List.mem_range] at hj hk
  have hmod := congrArg UInt64.toNat ((UInt64.add_right_inj start).1 hjk)
  rwa [UInt64.toNat_ofNat_of_lt' (Nat.lt_of_lt_of_le hj hlt),
    UInt64.toNat_ofNat_of_lt' (Nat.lt_of_lt_of_le hk hlt)] at hmod

/-! ### Entries by place -/

theorem Entry.givenAt?_eq_some_iff : e.givenAt? p = some id ↔ e = .subscribed p id := by
  cases e with
  | subscribed q id' => by_cases hq : q = p <;> simp [Entry.givenAt?, hq]
  | _ => simp [Entry.givenAt?]

theorem mem_givenAt : id ∈ givenAt es p ↔ .subscribed p id ∈ es := by
  simp [givenAt, Entry.givenAt?_eq_some_iff]

theorem mem_given (h : id ∈ givenAt es p) : id ∈ given es :=
  List.mem_filterMap.2 ⟨_, mem_givenAt.1 h, rfl⟩

theorem givenAt_subscribed : givenAt (es ++ [.subscribed q id]) p =
    givenAt es p ++ if q = p then [id] else [] := by
  by_cases hq : q = p <;> simp [givenAt, Entry.givenAt?, hq]

theorem givenAt_removed : givenAt (es ++ [.removed q id]) p = givenAt es p := by
  simp [givenAt, Entry.givenAt?]

theorem removedFrom_subscribed : removedFrom (es ++ [.subscribed q id]) p = removedFrom es p := by
  simp [removedFrom, Entry.removedFrom?]

theorem removedFrom_removed : removedFrom (es ++ [.removed q id]) p =
    removedFrom es p ++ if q = p then [id] else [] := by
  by_cases hq : q = p <;> simp [removedFrom, Entry.removedFrom?, hq]

/-- An id that is given once is given at one place. -/
theorem eq_of_given (hn : (given es).Nodup) (hp : id ∈ givenAt es p) (hq : id ∈ givenAt es q) :
    p = q := by
  by_contra hne
  have hpair := List.pairwise_filterMap.1 hn
  have : Std.Symm fun e e' : Entry κ =>
      ∀ c, e.given? = some c → ∀ d, e'.given? = some d → c ≠ d :=
    ⟨fun e e' h c hc d hd => (h d hd c hc).symm⟩
  exact hpair.forall (mem_givenAt.1 hp) (mem_givenAt.1 hq)
    (fun h => hne (Entry.subscribed.inj h).1) id rfl id rfl rfl

theorem nodup_givenAt (hn : (given es).Nodup) (p : κ) : (givenAt es p).Nodup := by
  refine List.pairwise_filterMap.2 ((List.pairwise_filterMap.1 hn).imp fun h c hc d hd => ?_)
  obtain rfl := Entry.givenAt?_eq_some_iff.1 hc
  obtain rfl := Entry.givenAt?_eq_some_iff.1 hd
  exact h c rfl d rfl

/-! ### What is registered -/

/-- How the ids at every place come of what has been given there and what has been removed. -/
structure Tells (R : Register κ) (es : List (Entry κ)) : Prop where
  ids : ∀ p, R.ids p = (givenAt es p).filter fun id => id ∉ removedFrom es p
  removed : ∀ p, removedFrom es p ⊆ givenAt es p
  length : ∀ p, (R.ids p).length + (removedFrom es p).length = (givenAt es p).length

theorem Tells.mem_iff (h : R.Tells es) : id ∈ R.ids p ↔ Stands es p id := by
  rw [h.ids, List.mem_filter, decide_eq_true_iff, Stands]

theorem Tells.nodup (h : R.Tells es) (hn : (given es).Nodup) (p : κ) : (R.ids p).Nodup := by
  rw [h.ids]
  exact (nodup_givenAt hn p).filter _

/-- What is listed under an id, once, falls out of the list, and the rest stays in order. -/
theorem exists_without {γ : Type} {f : γ → SubscriptionId} {l : List γ} (hn : (l.map f).Nodup)
    (hid : id ∈ l.map f) : ∃ before x after, l = before ++ x :: after ∧ f x = id ∧
      l.filter (fun y => f y ≠ id) = before ++ after := by
  obtain ⟨x, hx, rfl⟩ := List.mem_map.1 hid
  obtain ⟨before, after, rfl⟩ := List.append_of_mem hx
  refine ⟨before, x, after, rfl, rfl, ?_⟩
  rw [List.map_append, List.map_cons, List.nodup_middle, List.nodup_cons, List.mem_append,
    not_or] at hn
  have hkeep {l : List γ} (hl : f x ∉ l.map f) : l.filter (fun y => f y ≠ f x) = l :=
    List.filter_eq_self.2 fun y hy => decide_eq_true fun he => hl (he ▸ List.mem_map_of_mem hy)
  rw [List.filter_append, List.filter_cons_of_neg (by simp), hkeep hn.1.1, hkeep hn.1.2]

/-- A new id is told as well. -/
theorem Tells.subscribed (h : R.Tells es) (hid : id ∉ given es) (p : κ) :
    (R.enter (.subscribed p id)).Tells (es ++ [.subscribed p id]) := by
  have hnew (q) : id ∉ removedFrom es q := fun hq => hid (mem_given (h.removed q hq))
  refine ⟨fun q => ?_, fun q => ?_, fun q => ?_⟩ <;> rw [givenAt_subscribed, removedFrom_subscribed]
  · rw [List.filter_append, ← h.ids]
    by_cases hq : p = q
    · subst hq
      simp [Register.enter, hnew]
    · simp [Register.enter, hq, Function.update_of_ne (Ne.symm hq)]
  · exact List.subset_append_of_subset_left _ (h.removed q)
  · have hlength := h.length q
    by_cases hq : p = q
    · subst hq
      simp only [Register.enter, Function.update_self, if_pos, List.length_append,
        List.length_singleton]
      omega
    · simpa [Register.enter, hq, Function.update_of_ne (Ne.symm hq)] using hlength

/-- Removing what is registered shortens the list by one. -/
theorem length_removed (hn : (R.ids p).Nodup) (hid : id ∈ R.ids p) :
    ((R.enter (.removed p id)).ids p).length + 1 = (R.ids p).length := by
  rw [← List.map_id' (R.ids p)] at hn hid
  obtain ⟨before, x, after, hids, -, hout⟩ := exists_without hn hid
  have henter : (R.enter (.removed p id)).ids p = (R.ids p).filter fun id' => id' ≠ id :=
    Function.update_self ..
  rw [henter, hout, hids, List.length_append, List.length_append, List.length_cons, Nat.add_assoc]

/-- A removal is told as well. -/
theorem Tells.without (h : R.Tells es) (hid : id ∈ R.ids p) (hn : (given es).Nodup) :
    (R.enter (.removed p id)).Tells (es ++ [.removed p id]) := by
  refine ⟨fun q => ?_, fun q => ?_, fun q => ?_⟩ <;> rw [givenAt_removed, removedFrom_removed]
  · by_cases hq : p = q
    · subst hq
      simp only [Register.enter, Function.update_self, if_pos, h.ids, List.filter_filter]
      refine List.filter_congr fun id' _ => ?_
      simp [and_comm]
    · simp [Register.enter, hq, Function.update_of_ne (Ne.symm hq), h.ids]
  · by_cases hq : p = q
    · subst hq
      rw [if_pos rfl]
      exact List.append_subset.2 ⟨h.removed p, by simpa using (h.mem_iff.1 hid).1⟩
    · simpa [hq] using h.removed q
  · have hlength := h.length q
    by_cases hq : p = q
    · subst hq
      have hshort := length_removed (h.nodup hn p) hid
      rw [if_pos rfl, List.length_append, List.length_singleton]
      omega
    · simpa [Register.enter, hq, Function.update_of_ne (Ne.symm hq)] using hlength

/-- An entry is told as well. -/
theorem Tells.enter (h : R.Tells es) (he : R.Admits e) (hn : (given (es ++ [e])).Nodup) :
    (R.enter e).Tells (es ++ [e]) := by
  rw [given, List.filterMap_append, ← given] at hn
  cases e with
  | subscribed p id =>
    exact h.subscribed
      (fun hid => List.disjoint_of_nodup_append hn hid (List.mem_singleton_self id)) p
  | removed p id => exact h.without he hn.of_append_left

/-- **What a register holds is told by the entries**, as long as no id is given twice. -/
theorem Log.tells (h : Log start es R) (hn : (given es).Nodup) : R.Tells es := by
  induction h with
  | nil => exact ⟨fun _ => rfl, fun _ => List.Subset.refl _, fun _ => rfl⟩
  | @snoc es R e h he ih =>
    refine (ih ?_).enter he hn
    rw [given, List.filterMap_append] at hn
    exact hn.of_append_left

/-! ### What ids name -/

/-- **An id names one registration.** -/
structure Names (R : Register κ) (es : List (Entry κ)) : Prop where
  /-- No id is given twice. -/
  distinct : (given es).Nodup
  registered : ∀ {p : κ} {id : SubscriptionId}, id ∈ R.ids p ↔ Stands es p id
  once : ∀ p, (R.ids p).Nodup
  one_place : ∀ {p q : κ} {id : SubscriptionId}, id ∈ R.ids p → id ∈ givenAt es q → p = q
  /-- The ids at a place stand in the order in which they have been given. -/
  in_order : ∀ p, R.ids p = (givenAt es p).filter fun id => id ∉ removedFrom es p
  length : ∀ p, (R.ids p).length + (removedFrom es p).length = (givenAt es p).length

/-- **As long as the counter does not come round, an id names one registration.** -/
theorem Log.names (h : Log start es R) (hlt : (given es).length ≤ UInt64.size) : R.Names es := by
  have hn := h.nodup_given hlt
  have ht := h.tells hn
  exact ⟨hn, ht.mem_iff, ht.nodup hn, fun hp hq => eq_of_given hn (ht.mem_iff.1 hp).1 hq, ht.ids,
    ht.length⟩

end Register

/-! ### Cells -/

theorem Cell.observes_iff {β : Type} {c : Cell α β} {id : SubscriptionId} :
    c.observes id = true ↔ id ∈ c.observers.map Prod.fst := by
  simp [Cell.observes]

end Statechart
