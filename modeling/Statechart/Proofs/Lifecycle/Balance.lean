import Statechart.Proofs.Lifecycle.Intact

/-!
The account of signals and cleanups in lifecycles in which no activation has lost its place to
another one. The signal of an activation has fired once if the activation is over, and otherwise
not at all. An effect hands back at most one cleanup, which its own activation holds until the
exit; so what has been handed back has been run, or is due in an exit that is under way, or is
still held.
-/

namespace Statechart

variable {σ : Signature} {m : Machine σ} {ok : Run σ → Prop} {r : Run σ} {l l' : Life σ}
  {k : ActivationId}

/-! ### What is counted -/

namespace Event

/-- The activation whose signal fires. -/
def fires? : Event σ → Option ActivationId
  | aborted k => some k
  | _ => none

/-- The activation whose effect hands back a cleanup. -/
def gives? : Event σ → Option ActivationId
  | cleanupGiven k => some k
  | _ => none

/-- The activation whose effect has handed back the cleanup that runs. -/
def runs? : Event σ → Option ActivationId
  | cleanupRun author _ => some author
  | cleanupAtOnce k _ => some k
  | _ => none

/-- Whether an event has no part in the account of activation `k`. -/
def Spares (k : ActivationId) (e : Event σ) : Prop :=
  e.fires? ≠ some k ∧ e.gives? ≠ some k ∧ e.runs? ≠ some k

/-- An event has no part in any account if it fires no signal, and neither hands back a cleanup nor
runs one. -/
theorem spares_of_none {e : Event σ} (hf : e.fires? = none) (hg : e.gives? = none)
    (hr : e.runs? = none) (k : ActivationId) : e.Spares k := by
  simp [Spares, hf, hg, hr]

theorem spares_aborted {j k : ActivationId} (h : j ≠ k) : (aborted j : Event σ).Spares k := by
  simp [Spares, fires?, gives?, runs?, h]

theorem spares_given {j k : ActivationId} (h : j ≠ k) : (cleanupGiven j : Event σ).Spares k := by
  simp [Spares, fires?, gives?, runs?, h]

theorem spares_run {j j' k : ActivationId} (h : j ≠ k) : (cleanupRun j j' : Event σ).Spares k := by
  simp [Spares, fires?, gives?, runs?, h]

theorem spares_atOnce {j k : ActivationId} (h : j ≠ k) (s : σ.State) :
    (cleanupAtOnce j s).Spares k := by
  simp [Spares, fires?, gives?, runs?, h]

end Event

theorem Departure.spares_event (i : InstanceId) (d : Departure σ) (k : ActivationId) :
    (d.event i).Spares k := by
  cases d <;> exact Event.spares_of_none rfl rfl rfl k

namespace Stage

/-- The exit of an activation that is under way, with the cleanup that it still has to run. -/
def exit? : Stage σ → Option (ActivationId × Option (Cleanup σ))
  | exiting k c => some (k, c)
  | _ => none

/-- The activation whose cleanup is due in an exit. -/
@[simp] def owes? : Stage σ → Option ActivationId
  | exiting _ c => c.map Cleanup.author
  | _ => none

end Stage

theorem Departure.owes?_stage (i : InstanceId) (d : Departure σ) (k : ActivationId) :
    (d.stage i).owes? ≠ some k := by
  cases d <;> nofun

/-- Whether an activation is over, and the cleanup that it holds. -/
def Tenure.lot (t : Tenure σ) : Bool × Option (Cleanup σ) := (t.aborted, t.cleanup)

namespace Life

/-- An entry is under way only once. -/
theorem Windowed.notMem_rest (h : l.Windowed) {rest : List (Stage σ)}
    (hs : l.stages = .entry k :: rest) : .entry k ∉ rest := by
  have hn := h.nodup
  rw [hs] at hn
  exact fun hm => (List.nodup_cons.1 hn).1 (List.mem_filterMap.2 ⟨_, hm, rfl⟩)

/-- How many events of a kind belong to activation `k`. -/
def tally (l : Life σ) (f : Event σ → Option ActivationId) (k : ActivationId) : Nat :=
  (l.past.filterMap f).count k

def lot (l : Life σ) (k : ActivationId) : Option (Bool × Option (Cleanup σ)) :=
  (l.activations k).map Tenure.lot

/-- The exits that are under way. -/
def exits (l : Life σ) : List (ActivationId × Option (Cleanup σ)) := l.stages.filterMap Stage.exit?

/-- How many cleanups of activation `k` are due in exits that are under way. -/
def due (l : Life σ) (k : ActivationId) : Nat :=
  (l.exits.filterMap fun e => e.2.map Cleanup.author).count k

/-- How many cleanups activation `k` holds. -/
def held (l : Life σ) (k : ActivationId) : Nat :=
  if ((l.lot k).bind Prod.snd).isSome then 1 else 0

theorem tally_note (f : Event σ → Option ActivationId) (e : Event σ) (k : ActivationId) :
    (l.note e).tally f k = l.tally f k + if f e = some k then 1 else 0 := by
  unfold tally note
  cases h : f e with
  | none => simp [h]
  | some j => simp [h, List.count_cons]

theorem due_cons (l : Life σ) (f : Stage σ) (rest : List (Stage σ)) (k : ActivationId) :
    (l.on (f :: rest)).due k = (l.on rest).due k + if f.owes? = some k then 1 else 0 := by
  unfold due exits on
  cases f with
  | exiting j c => cases c <;> simp [Stage.exit?, List.count_cons]
  | _ => simp [List.filterMap_cons, Stage.exit?]

/-- What owes nothing to `k` does not count. -/
theorem due_spared (l : Life σ) {f : Stage σ} (hf : f.owes? ≠ some k) (rest : List (Stage σ)) :
    (l.on (f :: rest)).due k = (l.on rest).due k := by
  rw [due_cons, if_neg hf, Nat.add_zero]

theorem mem_exits {c : Option (Cleanup σ)} :
    (k, c) ∈ l.exits ↔ .exiting k c ∈ l.stages := by
  rw [exits, List.mem_filterMap]
  constructor
  · rintro ⟨f, hf, he⟩
    cases f <;> cases he
    exact hf
  · exact fun h => ⟨_, h, rfl⟩

/-! ### The account of an activation -/

/-- The signal of activation `k` fires once; what its effect hands back, which it does once, is held
by `k` until the exit, is due then, and has been run in the end. -/
structure Account (l : Life σ) (k : ActivationId) : Prop where
  fired : l.tally Event.fires? k = if (l.lot k).any Prod.fst then 1 else 0
  once : l.tally Event.gives? k ≤ 1
  given : 0 < l.tally Event.gives? k → k < l.started ∧ .entry k ∉ l.stages
  own : ∀ j b c, l.lot j = some (b, some c) → j = k ∨ c.author = k →
    j = k ∧ c.author = k ∧ b = false
  balance : l.tally Event.gives? k = l.tally Event.runs? k + l.due k + l.held k

namespace Account

/-- While its entry is under way, nothing is owed to an activation. -/
theorem clear (h : l.Account k) (hk : .entry k ∈ l.stages) :
    l.tally Event.gives? k = 0 ∧ l.tally Event.runs? k = 0 ∧ l.due k = 0 ∧ l.held k = 0 := by
  have hzero : l.tally Event.gives? k = 0 := by
    by_contra hne
    exact (h.given (Nat.pos_of_ne_zero hne)).2 hk
  have := h.balance
  omega

/-- The account stays as it is when nothing that it counts is changed. -/
theorem same (h : l.Account k) (hp : l'.tally Event.fires? k = l.tally Event.fires? k ∧
      l'.tally Event.gives? k = l.tally Event.gives? k ∧
      l'.tally Event.runs? k = l.tally Event.runs? k)
    (hl : l'.lot k = l.lot k) (ho : ∀ j b c, l'.lot j = some (b, some c) →
      j = k ∨ c.author = k → l.lot j = some (b, some c))
    (hs : l.started ≤ l'.started) (hd : l'.due k = l.due k)
    (hb : k < l.started → .entry k ∈ l'.stages → .entry k ∈ l.stages) : l'.Account k where
  fired := by rw [hp.1, hl, h.fired]
  once := by
    rw [hp.2.1]
    exact h.once
  given hk := by
    rw [hp.2.1] at hk
    obtain ⟨hlt, hnot⟩ := h.given hk
    exact ⟨Nat.lt_of_lt_of_le hlt hs, fun hm => hnot (hb hlt hm)⟩
  own j b c hj hk := h.own j b c (ho j b c hj hk) hk
  balance := by
    have hh : l'.held k = l.held k := by rw [held, hl, held]
    rw [hp.2.1, hp.2.2, hd, hh, h.balance]

theorem note (h : l.Account k) {e : Event σ} (he : e.Spares k) : (l.note e).Account k := by
  refine h.same ?_ rfl (fun _ _ _ hj _ => hj) (Nat.le_refl _) rfl fun _ => id
  simp [tally_note, he.1, he.2.1, he.2.2]

theorem pop (h : l.Account k) {f : Stage σ} {rest : List (Stage σ)} (hs : l.stages = f :: rest)
    (hf : f.owes? ≠ some k) : (l.on rest).Account k := by
  refine h.same ⟨rfl, rfl, rfl⟩ rfl (fun _ _ _ hj _ => hj) (Nat.le_refl _) ?_ fun _ hk => ?_
  · have hd := l.due_spared hf rest
    rw [← hs] at hd
    exact hd.symm
  · exact hs ▸ List.mem_cons_of_mem _ hk

theorem push (h : l.Account k) {f : Stage σ} (hf : f.owes? ≠ some k) (hb : f.body? = none) :
    (l.on (f :: l.stages)).Account k := by
  refine h.same ⟨rfl, rfl, rfl⟩ rfl (fun _ _ _ hj _ => hj) (Nat.le_refl _) ?_ fun _ hk => ?_
  · exact l.due_spared hf l.stages
  · refine (List.mem_cons.1 hk).resolve_left ?_
    rintro rfl
    cases hb

theorem addInstance (h : l.Account k) (s : Standing σ) : (l.addInstance s).Account k :=
  h.same ⟨rfl, rfl, rfl⟩ rfl (fun _ _ _ hj _ => hj) (Nat.le_refl _) rfl fun _ => id

theorem modifyInstance (h : l.Account k) (i : InstanceId) (f : Standing σ → Standing σ) :
    (l.modifyInstance i f).Account k :=
  h.same ⟨rfl, rfl, rfl⟩ rfl (fun _ _ _ hj _ => hj) (Nat.le_refl _) rfl fun _ => id

/-- Other activations may change, as long as they hold nothing that belongs to `k`. -/
theorem modifyActivation (h : l.Account k) (j : ActivationId) (f : Tenure σ → Tenure σ)
    (hk : j = k → ∀ t, (f t).lot = t.lot)
    (hf : j ≠ k → ∀ t c, (f t).cleanup = some c → c.author = k → (f t).lot = t.lot) :
    (l.modifyActivation j f).Account k := by
  have hlot (j') : (l.modifyActivation j f).lot j' =
      if j' = j then (l.activations j').map fun t => (f t).lot else l.lot j' := by
    by_cases hj : j' = j <;> simp [lot, Life.modifyActivation, hj, Function.comp_def]
  refine h.same ⟨rfl, rfl, rfl⟩ ?_ (fun j' b c hj' hc => ?_) (Nat.le_refl _) rfl fun _ => id
  · rw [hlot]
    split
    · next e => simp only [hk e.symm, lot]
    · rfl
  · rw [hlot] at hj'
    split at hj'
    · next e =>
      obtain ⟨t, ht, hft⟩ := Option.map_eq_some_iff.1 hj'
      have hcleanup : (f t).cleanup = some c := congrArg Prod.snd hft
      rw [lot, ht, Option.map_some, ← hft]
      by_cases hjk : j = k
      · rw [hk hjk]
      · rw [hf hjk t c hcleanup (hc.resolve_left fun e' => hjk (e.symm.trans e'))]
    · exact hj'

theorem close (h : l.Account k) (j : ActivationId) : (l.modifyActivation j .closed).Account k :=
  h.modifyActivation j _ (fun _ _ => rfl) fun _ _ _ _ _ => rfl

/-- A new activation holds no cleanup. -/
theorem begin (h : l.Account k) (hc : l.Counted) (i : InstanceId) (s : σ.State)
    (tr : Trigger σ.Action) (p : Option σ.Payload) :
    ((l.begin i s tr p).on (.entry l.started :: l.stages)).Account k := by
  have hnone : l.lot l.started = none := by
    rw [lot, hc.activations_started]
    rfl
  have hlot (j) : ((l.begin i s tr p).on (.entry l.started :: l.stages)).lot j =
      if j = l.started then some (false, none) else l.lot j := by
    simp only [lot, Life.on, Life.begin, Life.note, Life.modifyInstance, addActivation]
    split <;> rfl
  have hold := h.note (e := .started i l.started s tr p) (Event.spares_of_none rfl rfl rfl k)
  have hdue : ((l.begin i s tr p).on (.entry l.started :: l.stages)).due k = l.due k :=
    due_spared (l.begin i s tr p) (by simp) l.stages
  refine ⟨?_, hold.once, fun hk => ?_, fun j b c hj => ?_, ?_⟩
  · rw [hlot]
    refine hold.fired.trans ?_
    by_cases hj : k = l.started
    · rw [if_pos hj, hj]
      change (if (l.lot l.started).any Prod.fst then 1 else 0) = _
      rw [hnone]
      rfl
    · rw [if_neg hj]
      rfl
  · obtain ⟨hlt, hnot⟩ := hold.given hk
    refine ⟨Nat.lt_succ_of_lt hlt, fun hm => hnot ((List.mem_cons.1 hm).resolve_left ?_)⟩
    rintro ⟨⟩
    exact Nat.lt_irrefl _ hlt
  · rw [hlot] at hj
    split at hj
    · cases hj
    · exact h.own j b c hj
  · have hheld : ((l.begin i s tr p).on (.entry l.started :: l.stages)).held k = l.held k := by
      rw [held, held, hlot]
      by_cases hj : k = l.started
      · rw [if_pos hj, hj, hnone]
        rfl
      · rw [if_neg hj]
    rw [hheld, hdue]
    exact hold.balance

/-! ### The changes that an account counts -/

/-- The exit of an activation takes its cleanup over. -/
theorem tearDown (h : l.Account k) {b : Tenure σ} (hk : l.activations k = some b)
    (hb : b.aborted = false) (i : InstanceId) (s : σ.State) :
    ((l.tearDown i k s).on (.exiting k b.cleanup :: l.stages)).Account k := by
  have hlotk : l.lot k = some (false, b.cleanup) := by
    rw [lot, hk, ← hb]
    rfl
  have hlot (j) : ((l.tearDown i k s).on (.exiting k b.cleanup :: l.stages)).lot j =
      if j = k then some (true, none) else l.lot j := by
    by_cases hj : j = k
    · simp [lot, Life.on, Life.tearDown, Life.note, Life.modifyInstance, Life.modifyActivation, hj,
        hk, Tenure.lot, Tenure.spent]
    · simp [lot, Life.on, Life.tearDown, Life.note, Life.modifyInstance, Life.modifyActivation, hj]
  have htally (f : Event σ → Option ActivationId) (hf : f (.exiting i k s) = none) :
      ((l.tearDown i k s).on (.exiting k b.cleanup :: l.stages)).tally f k =
        l.tally f k + if f (.aborted k) = some k then 1 else 0 := by
    refine (tally_note f _ k).trans (congrArg (· + _) ?_)
    refine (tally_note f _ k).trans ?_
    rw [hf]
    rfl
  have hdue : ((l.tearDown i k s).on (.exiting k b.cleanup :: l.stages)).due k =
      l.due k + if b.cleanup.map Cleanup.author = some k then 1 else 0 :=
    due_cons (l.tearDown i k s) (.exiting k b.cleanup) l.stages k
  refine ⟨?_, ?_, fun hk => ?_, fun j a c hj hjk => ?_, ?_⟩
  · rw [htally _ rfl, hlot, h.fired]
    simp [Event.fires?, hlotk]
  · rw [htally _ rfl]
    exact h.once
  · rw [htally _ rfl] at hk
    obtain ⟨hlt, hnot⟩ := h.given hk
    refine ⟨hlt, fun hm => hnot ((List.mem_cons.1 hm).resolve_left ?_)⟩
    rintro ⟨⟩
  · rw [hlot] at hj
    split at hj
    · cases hj
    · exact h.own j a c hj hjk
  · rw [htally _ rfl, htally _ rfl, h.balance, hdue, held, held, hlot, if_pos rfl, hlotk]
    -- the cleanup that `k` has held is due now
    cases hc : b.cleanup with
    | none => rfl
    | some c =>
      have hauthor := (h.own k false c (by rw [hlotk, hc]) (.inl rfl)).2.1
      simp [Event.runs?, Event.gives?, hauthor, Nat.add_assoc]

/-- Of other activations, the exit owes nothing to `k`. -/
theorem tearDown_other (h : l.Account k) {j : ActivationId} (hj : j ≠ k) {b : Tenure σ}
    (hb : l.activations j = some b) (i : InstanceId) (s : σ.State) :
    ((l.tearDown i j s).on (.exiting j b.cleanup :: l.stages)).Account k := by
  have hbegun := h.note (e := .exiting i j s) (Event.spares_of_none rfl rfl rfl k)
  have hspent := (hbegun.modifyInstance i fun st => { st with active := none }).modifyActivation j
    .spent (fun e => absurd e hj) nofun
  have habort := hspent.note (Event.spares_aborted hj)
  refine habort.push (f := .exiting j b.cleanup) (fun ho => ?_) rfl
  obtain ⟨c, hc, hauthor⟩ := Option.map_eq_some_iff.1 ho
  refine hj (h.own j b.aborted c ?_ (.inr hauthor)).1
  rw [lot, hb, ← hc]
  rfl

/-- An exit comes to a cleanup that activation `k` has handed back. -/
theorem run (h : l.Account k) {j : ActivationId} {c : Cleanup σ} {rest : List (Stage σ)}
    (hs : l.stages = .exiting j (some c) :: rest) (hc : c.author = k) :
    ((l.note (.cleanupRun c.author j)).on rest).Account k := by
  have htally (f : Event σ → Option ActivationId) :
      ((l.note (.cleanupRun c.author j)).on rest).tally f k =
        l.tally f k + if f (.cleanupRun c.author j) = some k then 1 else 0 := tally_note f _ k
  have hdue : l.due k = ((l.note (.cleanupRun c.author j)).on rest).due k + 1 := by
    have hd := l.due_cons (.exiting j (some c)) rest k
    rw [← hs] at hd
    exact hd.trans (congrArg _ (if_pos (congrArg some hc)))
  refine ⟨?_, ?_, fun hk => ?_, h.own, ?_⟩
  · rw [htally]
    exact h.fired
  · rw [htally]
    exact h.once
  · rw [htally] at hk
    obtain ⟨hlt, hnot⟩ := h.given hk
    exact ⟨hlt, fun hm => hnot (hs ▸ List.mem_cons_of_mem _ hm)⟩
  · have hb := h.balance
    have hheld : ((l.note (.cleanupRun c.author j)).on rest).held k = l.held k := rfl
    rw [hdue] at hb
    rw [htally, htally, hheld]
    simp [Event.gives?, Event.runs?, hc] at hb ⊢
    omega

/-- A cleanup that is handed back is held by the activation of its own effect. -/
theorem keep (h : l.Account k) {b : Tenure σ} {rest : List (Stage σ)}
    (hs : l.stages = .entry k :: rest) (hn : .entry k ∉ rest) (hk : l.activations k = some b)
    (hb : b.aborted = false) (hlt : k < l.started) (c : Code σ) :
    (((l.note (.cleanupGiven k)).modifyActivation k
      fun t => { t with cleanup := some ⟨k, c⟩ }).on rest).Account k := by
  have hlot (j) : (((l.note (.cleanupGiven k)).modifyActivation k
      fun t => { t with cleanup := some ⟨k, c⟩ }).on rest).lot j =
      if j = k then some (false, some ⟨k, c⟩) else l.lot j := by
    by_cases hj : j = k
    · simp [lot, Life.on, Life.note, Life.modifyActivation, hj, hk, hb, Tenure.lot]
    · simp [lot, Life.on, Life.note, Life.modifyActivation, hj]
  have htally (f : Event σ → Option ActivationId) :
      (((l.note (.cleanupGiven k)).modifyActivation k
        fun t => { t with cleanup := some ⟨k, c⟩ }).on rest).tally f k =
        l.tally f k + if f (.cleanupGiven k) = some k then 1 else 0 := tally_note f _ k
  have hdue : (((l.note (.cleanupGiven k)).modifyActivation k
      fun t => { t with cleanup := some ⟨k, c⟩ }).on rest).due k = l.due k := by
    have hd := l.due_spared (f := .entry k) (k := k) (by simp) rest
    rw [← hs] at hd
    exact hd.symm
  have hlotk : l.lot k = some (false, b.cleanup) := by
    rw [lot, hk, ← hb]
    rfl
  obtain ⟨hgives, hruns, hzero, -⟩ := h.clear (hs ▸ List.mem_cons_self)
  refine ⟨?_, ?_, fun _ => ⟨hlt, hn⟩, fun j a c' hj hjk => ?_, ?_⟩
  · rw [htally, hlot, h.fired]
    simp [Event.fires?, hlotk]
  · rw [htally, hgives]
    simp [Event.gives?]
  · rw [hlot] at hj
    split at hj
    · next e =>
      cases hj
      exact ⟨e, rfl, rfl⟩
    · exact h.own j a c' hj hjk
  · rw [htally, htally, hdue, held, hlot]
    simp [Event.gives?, Event.runs?, hgives, hruns, hzero]

/-- A cleanup that is handed back too late runs at once. -/
theorem atOnce (h : l.Account k) {rest : List (Stage σ)} (hs : l.stages = .entry k :: rest)
    (hn : .entry k ∉ rest) (hlt : k < l.started) (s : σ.State) :
    (((l.note (.cleanupGiven k)).note (.cleanupAtOnce k s)).on rest).Account k := by
  have htally (f : Event σ → Option ActivationId) :
      (((l.note (.cleanupGiven k)).note (.cleanupAtOnce k s)).on rest).tally f k =
        (l.tally f k + if f (.cleanupGiven k) = some k then 1 else 0) +
          if f (.cleanupAtOnce k s) = some k then 1 else 0 :=
    (tally_note f _ k).trans (congrArg (· + _) (tally_note f _ k))
  have hdue : (((l.note (.cleanupGiven k)).note (.cleanupAtOnce k s)).on rest).due k =
      l.due k := by
    have hd := l.due_spared (f := .entry k) (k := k) (by simp) rest
    rw [← hs] at hd
    exact hd.symm
  have hheld :
    (((l.note (.cleanupGiven k)).note (.cleanupAtOnce k s)).on rest).held k = l.held k := rfl
  have hgives := (h.clear (hs ▸ List.mem_cons_self)).1
  refine ⟨?_, ?_, fun _ => ⟨hlt, hn⟩, h.own, ?_⟩
  · rw [htally]
    exact h.fired
  · rw [htally, hgives]
    simp [Event.gives?]
  · have hb := h.balance
    rw [htally, htally, hdue, hheld]
    simp only [Event.gives?, Event.runs?, if_true, reduceCtorEq, if_false]
    omega

/-- **An account is kept as long as its activation does not lose its place.** -/
theorem move (h : r.life.Account k) (hs : r.life.Sound)
    (hl : ∀ t, r.life.activations k = some t → r.life.LiveAt t.owner) (hm : Move m r l) :
    l.Account k := by
  have started {k : ActivationId} {b : Tenure σ} (hk : r.life.activations k = some b) :
      k < r.life.started := (hs.started k).1 (by simp [hk])
  cases hm with
  | quiet => exact h
  | place _ =>
    exact ((h.note (Event.spares_of_none rfl rfl rfl k)).addInstance _).push (by simp) rfl
  | @depart i s d _ _ _ =>
    exact (h.note (d.spares_event i k)).push (d.owes?_stage i k) (d.body?_stage i)
  | @exit i s j b d hi ha hj hd =>
    have hdeparted := (h.note (d.spares_event i k)).push (d.owes?_stage i k) (d.body?_stage i)
    by_cases hjk : j = k
    · subst hjk
      obtain ⟨b', hb', -, hb⟩ := hs.active i s j hi ha
      obtain rfl := Option.some.inj (hj.symm.trans hb')
      exact hdeparted.tearDown (b := b) hj hb i s.state
    · exact hdeparted.tearDown_other hjk (b := b) hj i s.state
  | exited hst => exact h.pop hst (by simp)
  | @cleanup j c rest e wakers stack hst hr hsk =>
    by_cases hc : c.author = k
    · exact h.run hst hc
    · exact (h.note (Event.spares_run hc)).pop hst (by simp [hc])
  | left hst => exact h.pop hst (by simp)
  | @change i t a p rest s hst hi =>
    have hwrote := h.note (e := .wrote i s.state t a p) (Event.spares_of_none rfl rfl rfl k)
    exact ((hwrote.modifyInstance _ _).pop hst (by simp)).push (by simp) rfl
  | enterBare hst hi he => exact (h.note (Event.spares_of_none rfl rfl rfl k)).pop hst (by simp)
  | enter hst hi he ha => exact (h.pop hst (by simp)).begin (hs.toCounted.pop hst) _ _ _ _
  | @displace i tr p rest s c j hst hi he ha =>
    have hlost := (h.note (e := .displaced j) (Event.spares_of_none rfl rfl rfl k)).pop hst
      (by simp)
    exact hlost.begin ((hs.toCounted.note (.displaced j)).pop hst) i s.state tr p
  | close hst => exact (h.close _).pop hst (by simp)
  | @forgo j rest b s hst hj hb hi ha =>
    have hjk : j ≠ k := by
      -- an activation that is not aborted is the live one of its instance
      rintro rfl
      have := hl b hj j b s hj rfl hb hi
      rw [ha] at this
      cases this
    exact ((h.close j).note (Event.spares_given hjk)).pop hst (by simp)
  | @keep j rest b s j' c stack hst hr hsk hj hb hi ha =>
    by_cases hjk : j = k
    · subst hjk
      obtain rfl : j = j' := Option.some.inj ((hl b hj j b s hj rfl hb hi).symm.trans ha)
      have hclosed : (r.life.modifyActivation j .closed).activations j = some b.closed :=
        modifyActivation_eq_some.2 ⟨b, hj, if_pos rfl⟩
      exact (h.close j).keep hst (hs.notMem_rest hst) hclosed hb (started hj) c
    · -- the activation that takes the cleanup is the one that hands it back
      have hj' : j' ≠ k := by
        rintro rfl
        obtain ⟨t, ht, hto, -⟩ := hs.active _ s j' hi ha
        have := hl t ht j b s hj hto.symm hb (hto ▸ hi)
        exact hjk (Option.some.inj (this.symm.trans ha))
      refine (((h.close j).note (Event.spares_given hjk)).modifyActivation j' _
        (fun e => absurd e hj') fun _ t d hd hauthor => ?_).pop hst (by simp)
      cases hd
      exact absurd hauthor hjk
  | @atOnce j rest b c stack hst hr hsk hj hb =>
    by_cases hjk : j = k
    · subst hjk
      exact (h.close j).atOnce hst (hs.notMem_rest hst) (started hj) _
    · exact (((h.close j).note (Event.spares_given hjk)).note
        (Event.spares_atOnce hjk b.state)).pop hst (by simp)
  | write hj hb ho hi =>
    exact (h.note (Event.spares_of_none rfl rfl rfl k)).modifyInstance _ _
  | observe ho => exact h.modifyActivation _ _ (fun _ _ => by rfl) fun _ _ _ _ _ => by rfl

end Account

theorem Account.empty (k : ActivationId) : (empty : Life σ).Account k := by
  refine ⟨rfl, Nat.zero_le _, fun hk => ?_, nofun, rfl⟩
  cases hk

/-! ### All accounts together -/

/-- Signals fire once, and cleanups are handed back once and stay with whoever they belong to. -/
structure Balanced (l : Life σ) : Prop where
  fired : ∀ k, l.tally Event.fires? k = if (l.lot k).any Prod.fst then 1 else 0
  once : ∀ k, l.tally Event.gives? k ≤ 1
  given : ∀ k, 0 < l.tally Event.gives? k → k < l.started ∧ .entry k ∉ l.stages
  own : ∀ k b c, l.lot k = some (b, some c) → c.author = k ∧ b = false
  mine : ∀ k c, (k, some c) ∈ l.exits → c.author = k
  balance : ∀ k, l.tally Event.gives? k = l.tally Event.runs? k + l.due k + l.held k

namespace Balanced

theorem of_accounts (h : ∀ k, l.Account k) (hm : ∀ k c, (k, some c) ∈ l.exits → c.author = k) :
    l.Balanced where
  fired k := (h k).fired
  once k := (h k).once
  given k := (h k).given
  own k b c hk := ((h k).own k b c hk (.inl rfl)).2
  mine := hm
  balance k := (h k).balance

theorem account (h : l.Balanced) (k : ActivationId) : l.Account k where
  fired := h.fired k
  once := h.once k
  given := h.given k
  own j b c hj hk := by
    obtain ⟨hauthor, hb⟩ := h.own j b c hj
    obtain rfl : j = k := hk.elim id hauthor.symm.trans
    exact ⟨rfl, hauthor, hb⟩
  balance := h.balance k

theorem move (h : r.life.Balanced) (hs : r.life.Sound) (hl : r.life.Led) (hm : Move m r l) :
    l.Balanced := by
  refine .of_accounts (fun k => (h.account k).move hs (fun t _ => hl.liveAt t.owner) hm)
    fun k c hk => ?_
  rcases hm.stage (mem_exits.1 hk) with hold | hnew
  · exact h.mine k c (mem_exits.2 hold)
  · obtain ⟨-, b, hb, hc⟩ := hnew.exiting
    refine (h.own k b.aborted c ?_).1
    rw [lot, hb, ← hc]
    rfl

end Balanced

theorem Balanced.empty : (empty : Life σ).Balanced := .of_accounts .empty nofun

end Life

/-! ### The account of a run -/

namespace Run

/-- How many events of a kind belong to activation `k`. -/
def tally (r : Run σ) (f : Event σ → Option ActivationId) (k : ActivationId) : Nat :=
  (r.world.journal.filterMap f).count k

/-- How often the signal of activation `k` has fired. -/
def aborts (r : Run σ) (k : ActivationId) : Nat := r.tally Event.fires? k

/-- How many cleanups the effect of activation `k` has handed back. -/
def cleanupsGiven (r : Run σ) (k : ActivationId) : Nat := r.tally Event.gives? k

/-- How many times a cleanup was run that the effect of activation `k` has handed back. -/
def cleanupsRun (r : Run σ) (k : ActivationId) : Nat := r.tally Event.runs? k

theorem tally_life {f : Event σ → Option ActivationId} (hf : ∀ e, e.vital = false → f e = none)
    (r : Run σ) (k : ActivationId) : r.life.tally f k = r.tally f k :=
  congrArg (List.count k) (filterMap_past hf)

theorem aborts_life (r : Run σ) (k : ActivationId) : r.life.tally Event.fires? k = r.aborts k :=
  tally_life (fun e he => by cases e <;> first | rfl | cases he) r k

theorem cleanupsGiven_life (r : Run σ) (k : ActivationId) :
    r.life.tally Event.gives? k = r.cleanupsGiven k :=
  tally_life (fun e he => by cases e <;> first | rfl | cases he) r k

theorem cleanupsRun_life (r : Run σ) (k : ActivationId) :
    r.life.tally Event.runs? k = r.cleanupsRun k :=
  tally_life (fun e he => by cases e <;> first | rfl | cases he) r k

end Run

/-- **The account of a run is balanced as long as no activation has lost its place.** -/
theorem Reach.balanced (h : Reach m ok r) (hi : r.life.Intact) : r.life.Balanced := by
  refine h.life_induction (P := fun l => l.Intact → l.Balanced) (fun _ => .empty)
    (fun r l hr _ ih hm hi => ?_) hi
  have hbefore := hi.before hm
  exact (ih hbefore).move hr.sound (hr.lawful hbefore).toLed hm

end Statechart
