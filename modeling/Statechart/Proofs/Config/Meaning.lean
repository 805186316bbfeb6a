import Statechart.Proofs.Config.Reordering
import Statechart.Proofs.Run.Reach

/-!
What the builder makes of a description: the first fault in a fixed order of precedence, or the
machine that the lines describe. The order of the declarations matters to neither, and a declaration
that is refused leaves no trace in the configuration.
-/

namespace Statechart

variable {σ : Signature}

/-- **What comes of a description**, by cases on what its lines lack. -/
structure Description.Explained (ds : Description σ) (context : σ.Context) : Prop where
  missing : ds.initials = [] → ds.build context = .error .missingInitialState
  repeated : ds.initials ≠ [] → ¬ ds.declared.Nodup →
    ∃ s, ds.Repeats s ∧ ds.build context = .error (.duplicateState (σ.stateName s))
  unknown : ∀ s, ds.initials.getLast? = some s → ds.declared.Nodup → s ∉ ds.declared →
    ds.build context = .error (.unknownInitialState (σ.stateName s))
  built : ∀ s, ds.initials.getLast? = some s → ds.declared.Nodup → s ∈ ds.declared →
    ∃ m, ds.build context = .ok m ∧ ds.Means context m
  reordered : ∀ ds', ds.Reordered ds' → SameVerdict (ds.build context) (ds'.build context)
  exchanged : ∀ ds', ds.Exchanged ds' → SameVerdict (ds.build context) (ds'.build context)

/-- The declaration of a state is refused: what is handed back is the declaration itself, and a
builder keeps the configuration that it has. -/
structure Config.Refuses (c : Config σ) (s : σ.State) (d : StateDef σ) : Prop where
  declared : c.contains s = true
  handedBack : c.insert s d = .error (s, d)
  kept : ∀ b : Builder σ, b.config = c → (b.state s d).config = c

theorem Config.refuses {c : Config σ} {s : σ.State} {d : StateDef σ} {e : σ.State × StateDef σ}
    (h : c.insert s d = .error e) : c.Refuses s d := by
  have hc : c.contains s = true := by
    by_contra hc
    rw [insert, if_neg hc] at h
    cases h
  have hback : c.insert s d = .error (s, d) := if_pos hc
  refine ⟨hc, hback, ?_⟩
  rintro b rfl
  rw [Builder.state, hback]

/-- **The builder makes of a description what its lines mean, in whichever order the states are
declared.** A declaration that is refused is handed back; it changes nothing of what a configuration
answers afterwards. -/
theorem Description.explained (ds : Description σ) (context : σ.Context) :
    ds.Explained context ∧
      (∀ (c : Config σ) (s : σ.State) (d : StateDef σ) (e : σ.State × StateDef σ),
        c.insert s d = .error e → c.Refuses s d) ∧
      ∀ (t : Script.ConfigSession) (s : String) (d : StateDef Script.plain)
        (e : String × StateDef Script.plain), t.config.insert s d = .error e →
          t.perform (.insert s d) = (t, .rejected s (Script.shownDef d)) := by
  refine ⟨⟨build_missing, fun hi hd => ?_, fun s => build_unknown, fun s => build_means,
    fun ds' h => h.sameVerdict, fun ds' h => h.reordered.sameVerdict⟩,
    fun c s d e => Config.refuses, fun t s d e h => ?_⟩
  · obtain ⟨s, hs⟩ := repeats_of_not_nodup hd
    exact ⟨s, hs, build_repeated hi hs⟩
  · rw [Script.ConfigSession.perform, (Config.refuses h).handedBack]

namespace Lamp

/-- A lamp, the lit state first. -/
def described : Description sig :=
  [.stateWith true [.on () true, .on () false], .state false [.on () true], .initial true,
    .initial false]

/-- A lamp, the lit state last. -/
def redescribed : Description sig :=
  [.state false [.on () true], .stateWith true [.on () true, .on () false], .initial true,
    .initial false]

/-- A lamp that may break when it is pressed or dropped. -/
def fragile (clauses : Clauses Script.plain) : Description Script.plain :=
  [.state "off" clauses, .state "on" [], .state "broken" [], .initial "off"]

end Lamp

/-- Of the two targets of the lit lamp the last one counts, whichever state is declared first. It
does not matter either whether a lamp is told first what to do when it is pressed or when it is
dropped. -/
theorem lamp_described :
    (∃ m, Lamp.described.build (0 : Nat) = .ok m ∧ m.config.target? true () = some false ∧
      m.initialState = false) ∧
    SameVerdict (Lamp.described.build (0 : Nat)) (Lamp.redescribed.build (0 : Nat)) ∧
    Lamp.machine.config.Refuses false {} ∧
    SameVerdict ((Lamp.fragile [.on "press" "on", .on "drop" "broken"]).build {})
      ((Lamp.fragile [.on "drop" "broken", .on "press" "on"]).build {}) := by
  obtain ⟨h, hrefuses, -⟩ := Description.explained Lamp.described (0 : Nat)
  have hexchanged : (Lamp.fragile [.on "press" "on", .on "drop" "broken"]).Exchanged
      (Lamp.fragile [.on "drop" "broken", .on "press" "on"]) :=
    @Description.Exchanged.pairs _ [] _ _ _ "off" [] [] _ _ _ _ (by decide) rfl rfl
  refine ⟨?_, h.reordered _ (.of_perm (.swap ..) rfl rfl rfl), hrefuses _ _ _ (false, {}) rfl,
    (Description.explained _ _).1.exchanged _ hexchanged⟩
  obtain ⟨m, hm, hmeans⟩ := h.built false rfl (by decide) (.tail _ (.head _))
  exact ⟨m, hm, hmeans.target? true _ (.head _) (), Option.some.inj hmeans.initialState.symm⟩

end Statechart
