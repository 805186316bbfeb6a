/-!
Growing sequences, whose entries are numbered in the order in which they came and never leave.
Reading, changing and adding an entry walk down a balanced tree, and older versions stay as they
are. The laws say what each operation does to the entry under every number.
-/

namespace Statechart

namespace Roster

/-- A tree of numbered entries: number zero at the root, the odd numbers and the other even ones
halved in its two branches. -/
inductive Tree (α : Type) where
  | leaf
  | node (a : α) (odd even : Tree α)

namespace Tree

variable {α : Type}

def get? : Tree α → Nat → Option α
  | leaf, _ => none
  | node a _ _, 0 => some a
  | node _ odd even, k + 1 => if k % 2 = 0 then odd.get? (k / 2) else even.get? (k / 2)

/-- The tree with `a` under a number that comes next. -/
def add (a : α) : Tree α → Nat → Tree α
  | leaf, _ => node a leaf leaf
  | node _ odd even, 0 => node a odd even
  | node b odd even, k + 1 =>
    if k % 2 = 0 then node b (odd.add a (k / 2)) even else node b odd (even.add a (k / 2))

def modify (f : α → α) : Tree α → Nat → Tree α
  | leaf, _ => leaf
  | node a odd even, 0 => node (f a) odd even
  | node a odd even, k + 1 =>
    if k % 2 = 0 then node a (odd.modify f (k / 2)) even else node a odd (even.modify f (k / 2))

/-- Whether the numbers in a tree are those below `n`. -/
def Holds : Tree α → Nat → Prop
  | leaf, n => n = 0
  | node _ odd even, n => n ≠ 0 ∧ odd.Holds (n / 2) ∧ even.Holds ((n - 1) / 2)

theorem isSome_get? {t : Tree α} {n : Nat} (h : t.Holds n) (k : Nat) :
    (t.get? k).isSome ↔ k < n := by
  induction t generalizing n k with
  | leaf => simp [Holds] at h; simp [get?, h]
  | node a odd even iho ihe =>
    obtain ⟨hn, ho, he⟩ := h
    cases k with
    | zero => simp [get?]; omega
    | succ k =>
      by_cases hk : k % 2 = 0
      · simp only [get?, if_pos hk, iho ho]; omega
      · simp only [get?, if_neg hk, ihe he]; omega

theorem holds_add {t : Tree α} {n : Nat} (h : t.Holds n) (a : α) : (t.add a n).Holds (n + 1) := by
  induction t generalizing n with
  | leaf => simp [Holds] at h; simp [add, Holds, h]
  | node b odd even iho ihe =>
    obtain ⟨hn, ho, he⟩ := h
    obtain ⟨k, rfl⟩ := Nat.exists_eq_succ_of_ne_zero hn
    by_cases hk : k % 2 = 0
    · have e : (k + 1) / 2 = k / 2 := by omega
      have e' : (k + 1 + 1) / 2 = k / 2 + 1 := by omega
      simp only [Nat.succ_eq_add_one, e] at ho
      simp only [Nat.succ_eq_add_one, add, if_pos hk, Holds, e']
      refine ⟨by omega, iho ho, ?_⟩
      rwa [show (k + 1 + 1 - 1) / 2 = (k.succ - 1) / 2 by omega]
    · have e : (k + 1 + 1 - 1) / 2 = k / 2 + 1 := by omega
      have e' : (k.succ - 1) / 2 = k / 2 := by omega
      rw [e'] at he
      simp only [Nat.succ_eq_add_one, add, if_neg hk, Holds, e]
      refine ⟨by omega, ?_, ihe he⟩
      rwa [show (k + 1 + 1) / 2 = k.succ / 2 by omega]

theorem get?_add {t : Tree α} {n : Nat} (h : t.Holds n) (a : α) (k : Nat) :
    (t.add a n).get? k = if k = n then some a else t.get? k := by
  induction t generalizing n k with
  | leaf =>
    simp only [Holds] at h
    cases k <;> simp [add, get?, h]
  | node b odd even iho ihe =>
    obtain ⟨hn, ho, he⟩ := h
    obtain ⟨m, rfl⟩ := Nat.exists_eq_succ_of_ne_zero hn
    have e (hm : m % 2 = 0) : odd.Holds (m / 2) := by
      rwa [show m / 2 = m.succ / 2 by omega]
    have e' (hm : ¬ m % 2 = 0) : even.Holds (m / 2) := by
      rwa [show m / 2 = (m.succ - 1) / 2 by omega]
    cases k with
    | zero => by_cases hm : m % 2 = 0 <;> simp [add, get?, hm]
    | succ k =>
      by_cases hm : m % 2 = 0 <;> by_cases hk : k % 2 = 0 <;>
        simp only [Nat.succ_eq_add_one, add, get?, hm, hk, if_true, if_false]
      · rw [iho (e hm)]; congr 1; simp; omega
      · rw [if_neg (by omega)]
      · rw [if_neg (by omega)]
      · rw [ihe (e' hm)]; congr 1; simp; omega

theorem holds_modify {t : Tree α} {n : Nat} (h : t.Holds n) (f : α → α) (k : Nat) :
    (t.modify f k).Holds n := by
  induction t generalizing n k with
  | leaf => exact h
  | node a odd even iho ihe =>
    obtain ⟨hn, ho, he⟩ := h
    cases k with
    | zero => exact ⟨hn, ho, he⟩
    | succ k =>
      by_cases hk : k % 2 = 0
      · simp only [modify, if_pos hk]; exact ⟨hn, iho ho _, he⟩
      · simp only [modify, if_neg hk]; exact ⟨hn, ho, ihe he _⟩

theorem get?_modify (t : Tree α) (f : α → α) (j k : Nat) :
    (t.modify f j).get? k = if k = j then (t.get? k).map f else t.get? k := by
  induction t generalizing j k with
  | leaf => simp [modify, get?]
  | node a odd even iho ihe =>
    cases j <;> cases k
    · simp [modify, get?]
    · simp [modify, get?]
    · rename_i j; by_cases hj : j % 2 = 0 <;> simp [modify, get?, hj]
    · rename_i j k
      by_cases hj : j % 2 = 0 <;> by_cases hk : k % 2 = 0 <;>
        simp only [modify, get?, hj, hk, if_true, if_false]
      · rw [iho]; simp only [Nat.add_right_cancel_iff]
        congr 1; simp; omega
      · rw [if_neg (by omega)]
      · rw [if_neg (by omega)]
      · rw [ihe]; simp only [Nat.add_right_cancel_iff]
        congr 1; simp; omega

end Tree

end Roster

/-- A growing sequence of entries, numbered from zero on. -/
structure Roster (α : Type) where
  /-- How many entries there are, which is also the number of the next one. -/
  size : Nat
  tree : Roster.Tree α
  holds : tree.Holds size

namespace Roster

variable {α : Type}

def empty : Roster α := ⟨0, .leaf, rfl⟩

def get? (r : Roster α) (k : Nat) : Option α := r.tree.get? k

/-- The sequence with one more entry, under the number that was its size. -/
def push (r : Roster α) (a : α) : Roster α :=
  ⟨r.size + 1, r.tree.add a r.size, Tree.holds_add r.holds a⟩

def modify (r : Roster α) (k : Nat) (f : α → α) : Roster α :=
  ⟨r.size, r.tree.modify f k, Tree.holds_modify r.holds f k⟩

@[simp] theorem size_push (r : Roster α) (a : α) : (r.push a).size = r.size + 1 := rfl

@[simp] theorem size_modify (r : Roster α) (k : Nat) (f : α → α) : (r.modify k f).size = r.size :=
  rfl

@[simp] theorem get?_empty (k : Nat) : (empty : Roster α).get? k = none := rfl

/-- The numbers of the entries are those below the size. -/
theorem isSome_get? (r : Roster α) (k : Nat) : (r.get? k).isSome ↔ k < r.size :=
  Tree.isSome_get? r.holds k

theorem get?_eq_none_iff (r : Roster α) (k : Nat) : r.get? k = none ↔ r.size ≤ k := by
  rw [← Nat.not_lt, ← isSome_get?]; simp

theorem lt_size {r : Roster α} {k : Nat} {a : α} (h : r.get? k = some a) : k < r.size :=
  (r.isSome_get? k).1 (by simp [h])

theorem get?_push (r : Roster α) (a : α) (k : Nat) :
    (r.push a).get? k = if k = r.size then some a else r.get? k :=
  Tree.get?_add r.holds a k

theorem get?_modify (r : Roster α) (f : α → α) (j k : Nat) :
    (r.modify j f).get? k = if k = j then (r.get? k).map f else r.get? k :=
  Tree.get?_modify r.tree f j k

end Roster

end Statechart
