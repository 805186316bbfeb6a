import Statechart.Proofs.Lifecycle.Sound
import Statechart.Proofs.Loop.Confined

/-!
What is stored with an activation, to be run when it is exited. As long as activations are given
nothing else to keep than code that keeps to itself, this is all that they store, and a stored
cleanup was handed back by the activation itself.
-/

namespace Statechart

variable {σ : Signature} {m : Machine σ} {r : Run σ} {l : Life σ}

/-- What has ended hands over scripts only. -/
def Ending.Own (e : Ending σ) : Prop := ∀ o, e = .ok o → (Code.finish o).Own

/-- What happens next is no other code on an activation than a script, and no other outcome of a
body than that of a script. -/
def Run.Scripted (r : Run σ) : Prop :=
  match r.control, r.stack with
  | .code t c, _ => ∀ k, t.activation? = some k → c.Own
  | .ended e, .body _ :: _ => e.Own
  | _, _ => True

theorem Run.Scripted.confined (h : r.Scripted) : r.Confined := by
  obtain ⟨w, control, stack⟩ := r
  intro c hc
  unfold Run.given? at hc
  split at hc
  · next t o next _ hcontrol =>
    obtain rfl : control = _ := hcontrol
    obtain ⟨k, hk, rfl⟩ := Option.map_eq_some_iff.1 hc
    cases h k hk with
    | onAbort ho _ => exact ho.confined
  · next c' k stack' hcontrol hs =>
    obtain rfl : control = _ := hcontrol
    obtain rfl : stack = _ := hs
    obtain rfl := Option.some.inj hc
    cases h _ rfl with
    | cleanup hc => exact hc.confined
  · cases hc

/-- Whatever is stored with an activation is its own, and keeps to itself. -/
def Tenure.Confined (k : ActivationId) (t : Tenure σ) : Prop :=
  (∀ c, t.observer = some c → c.Confined) ∧
    ∀ c, t.cleanup = some c → c.author = k ∧ c.code.Confined

def World.Confined (w : World σ) : Prop :=
  ∀ k a, w.activations.get? k = some a → a.tenure.Confined k

def Life.Confined (l : Life σ) : Prop := ∀ k t, l.activations k = some t → t.Confined k

theorem Tenure.confined_new (i : InstanceId) (s : σ.State) (k : ActivationId) :
    ({ owner := i, state := s } : Tenure σ).Confined k :=
  ⟨by rintro _ ⟨⟩, by rintro _ ⟨⟩⟩

theorem Tenure.confined_spent {k : ActivationId} {t : Tenure σ} (h : t.Confined k) :
    t.spent.Confined k := by
  refine ⟨fun c hc => ?_, by rintro _ ⟨⟩⟩
  unfold spent at hc
  split at hc
  · exact h.1 c hc
  · cases hc

/-- A change of one activation keeps what is stored with the others. -/
theorem Life.Confined.modify (h : l.Confined) (k : ActivationId) {f : Tenure σ → Tenure σ}
    (hf : ∀ t, l.activations k = some t → (f t).Confined k) :
    (l.modifyActivation k f).Confined := by
  intro j t hj
  obtain ⟨u, hu, rfl⟩ := modifyActivation_eq_some.1 hj
  split
  · next e => exact e ▸ hf u (e ▸ hu)
  · exact h j u hu

theorem Life.Confined.move (h : r.life.Confined) (hs : r.life.Sound) (hr : r.Confined)
    (hm : Move m r l) : l.Confined := by
  have closed (k : ActivationId) : (r.life.modifyActivation k .closed).Confined :=
    h.modify k fun t ht => h k t ht
  have started {i s} : (r.life.addActivation { owner := i, state := s }).Confined := by
    intro j t hj
    simp only [addActivation] at hj
    split at hj
    · obtain rfl := Option.some.inj hj
      exact Tenure.confined_new _ _ _
    · exact h j t hj
  cases hm
  case exit k b d hi ha hk hd => exact h.modify k fun t ht => Tenure.confined_spent (h k t ht)
  case enter => exact started
  case displace => exact started
  case close => exact closed _
  case forgo => exact closed _
  case atOnce => exact closed _
  case keep k rest b s j c stack hst hc hbody hk hb hi ha =>
    -- the entry that is under way belongs to the live activation
    obtain rfl : j = k :=
      Option.some.inj (ha.symm.trans (hs.live k b s (hst ▸ List.mem_cons_self) hk hb hi))
    refine (closed j).modify j fun t ht => ⟨((closed j) j t ht).1, ?_⟩
    rintro _ ⟨⟩
    refine ⟨rfl, ?_⟩
    exact hr c (by rw [Run.given?, hc, hbody])
  case observe k o ho =>
    refine h.modify k fun t ht => ⟨?_, (h k t ht).2⟩
    rintro c rfl
    obtain ⟨t', next, hc, ht'⟩ := ho c rfl
    exact hr c (by simp [Run.given?, hc, ht'])
  all_goals exact h

/-- **Whatever activations store is their own and keeps to itself**, if they are given nothing
else. -/
theorem Reach.confined {ok : Run σ → Prop} (h : Reach m ok r) (hok : ∀ r, ok r → r.Confined) :
    r.world.Confined := by
  have hl : r.life.Confined :=
    h.life_induction (by rintro _ _ ⟨⟩) fun r l hr ho ih hm => ih.move hr.sound (hok _ ho) hm
  exact fun k a hk => hl k a.tenure (World.life_activations hk)

/-! ### Entries of placed instances -/

/-- Only instances that have been placed are entered. -/
def Life.Visited (l : Life σ) : Prop := ∀ e ∈ l.past, ∀ i v, e.visit? i = some v → i < l.placed

theorem Life.Visited.move (h : r.life.Visited) (hc : r.life.Counted) (hm : Move m r l) :
    l.Visited := by
  have entered {i tr p rest} (hs : r.life.stages = .entering i tr p :: rest) :
      i < r.life.placed := hc.transits _ (hs ▸ List.mem_cons_self) i rfl
  have hd (i j : InstanceId) (d : Departure σ) : (d.event i).visit? j = none := by cases d <;> rfl
  unfold Visited at *
  intro e he i v hv
  cases hm
  case quiet => exact h e he i v hv
  all_goals
    clear hc
    generalize r.life = l at *
    simp only [Life.note, Life.on, addInstance, modifyInstance, modifyActivation, Life.begin,
      Life.tearDown, addActivation] at he ⊢
    grind [Event.visit?]

theorem Reach.visits_eq_nil {ok : Run σ → Prop} (h : Reach m ok r) :
    r.world.visits r.world.instances.size = [] := by
  have hl : r.life.Visited :=
    h.life_induction (by rintro _ ⟨⟩) fun r l hr _ ih hm => ih.move hr.sound.toCounted hm
  refine List.filterMap_eq_nil_iff.2 fun e he => ?_
  cases hv : e.visit? r.world.instances.size with
  | none => rfl
  | some v =>
    have hvital : e.vital = true := by cases e <;> first | rfl | cases hv
    have hp := (Run.mem_past hvital).2 (List.mem_reverse.1 he)
    exact absurd (hl e hp _ v hv) (Nat.lt_irrefl _)

end Statechart
