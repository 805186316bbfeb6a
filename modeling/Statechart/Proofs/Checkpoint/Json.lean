import Statechart.Checkpoint
import Statechart.Proofs.Codec.Json
import Statechart.Proofs.Codec.Timestamp

/-!
Checkpoints as JSON. A checkpoint is read back from its text, whatever its parts are; a text that is
spelled in another way denotes the checkpoint that its values denote, and is normalised by reading
and writing it once.
-/

namespace Statechart

/-- The text of a point in time denotes that point. -/
theorem Timestamp.legible_codec : Timestamp.codec.Legible := by
  refine fun t => ⟨_, rfl, .text _, ?_⟩
  simp only [codec, Json.string?_encode, Option.bind_some, String.toList_ofList, ofText?_text]

namespace Checkpoint

variable {S C : Type} {states : Codec S} {contexts : Codec C}

theorem version?_ofInt (n : UInt32) : version? (.ofInt n.toNat) = some n := by
  have hlt : 0 ≤ (n.toNat : Int) ∧ (n.toNat : Int).toNat < UInt32.size :=
    ⟨Int.natCast_nonneg _, n.toNat_lt⟩
  rw [version?, Json.int?_ofInt]
  exact (if_pos hlt).trans (congrArg some n.ofNat_toNat)

/-- The tree of a checkpoint is written, and is read back as the checkpoint. -/
theorem exists_tree (hs : states.Legible) (hc : contexts.Legible) (c : Checkpoint S C) :
    ∃ v, c.tree states contexts = .ok v ∧ v.Written ∧ ofTree? states contexts v = some c := by
  obtain ⟨timestamp, ht, wt, rt⟩ := Timestamp.legible_codec c.timestamp
  obtain ⟨state, hstate, ws, rs⟩ := hs c.state
  obtain ⟨context, hcontext, wc, rc⟩ := hc c.context
  let values : List Json := [.ofInt c.version.toNat, .ofString c.id, timestamp, state, context]
  have htree : c.tree states contexts = .ok (Json.ofRecord fields values) := by
    simp only [tree, ht, hstate, hcontext]
    rfl
  have hrecord := Json.record?_ofRecord (show fields.Nodup by decide) values rfl
  refine ⟨_, htree, Json.written_ofRecord fields ?_, ?_⟩
  · simp only [values, List.mem_cons, List.not_mem_nil, or_false, forall_eq_or_imp, forall_eq]
    exact ⟨.int _, .text _, wt, ws, wc⟩
  · simp only [ofTree?, hrecord, values, List.map_cons, List.map_nil, Option.bind_eq_bind,
      Option.bind_some, version?_ofInt, Json.string?_ofString, rt, rs, rc]
    rfl

/-- **Checkpoints as JSON texts.** -/
structure RoundTrips (states : Codec S) (contexts : Codec C) : Prop where
  /-- Every checkpoint has a text, which is read as the checkpoint if its version is known. -/
  written : ∀ c : Checkpoint S C, ∃ text, c.toJson states contexts = .ok text ∧
    ofJson states contexts text =
      if c.version = 1 then .ok c else .error (.unsupportedVersion c.version 1)
  /-- The text of a checkpoint that was read from any text is read as the same checkpoint, and what
  is read from it has that text. -/
  normal : ∀ (s : String) (c : Checkpoint S C), ofJson states contexts s = .ok c →
    ∃ text, c.toJson states contexts = .ok text ∧ ofJson states contexts text = .ok c ∧
      (ofJson states contexts text).bind (toJson states contexts) = .ok text

/-- Only a checkpoint of the known version is read. -/
theorem version_of_ofJson {s : String} {c : Checkpoint S C} (h : ofJson states contexts s = .ok c) :
    c.version = 1 := by
  rw [ofJson] at h
  split at h
  · cases h
  · next c' _ =>
    rw [checkVersion] at h
    split at h
    · next hversion =>
      obtain rfl := Except.ok.inj h
      exact hversion
    · cases h

theorem roundTrips (hs : states.Legible) (hc : contexts.Legible) : RoundTrips states contexts := by
  have written (c : Checkpoint S C) : ∃ text, c.toJson states contexts = .ok text ∧
      ofJson states contexts text = c.checkVersion := by
    obtain ⟨v, htree, hwritten, hread⟩ := exists_tree hs hc c
    refine ⟨String.ofList v.print, by rw [toJson, htree], ?_⟩
    rw [ofJson, String.toList_ofList, hwritten.ofText?_print, Option.bind_some, hread]
  constructor
  · exact written
  · intro s c hread
    obtain ⟨text, htext, hback⟩ := written c
    have hok : c.checkVersion = .ok c := if_pos (version_of_ofJson hread)
    rw [hok] at hback
    exact ⟨text, htext, hback, by rw [hback]; exact htext⟩

/-- **Checkpoints survive their JSON text**, for all codecs of states and contexts that are legible;
and so do those of texts, of the members of any list of different names, and of the contexts of
scripts. -/
theorem json_round_trip :
    (∀ {S C : Type} {states : Codec S} {contexts : Codec C},
      states.Legible → contexts.Legible → RoundTrips states contexts) ∧
    RoundTrips Codec.text Script.Ctx.codec ∧
    ∀ names : List String, names.Nodup → RoundTrips (@Member.codec names) Script.Ctx.codec :=
  ⟨roundTrips, roundTrips Codec.legible_text Script.Ctx.legible_codec,
    fun _ hn => roundTrips (Member.legible_codec hn) Script.Ctx.legible_codec⟩

/-- A checkpoint of another version, in the year before the first, of an instance over two names. -/
def ancient : Checkpoint (Member ["off", "on"]) Script.Ctx where
  version := 2
  id := "\"\\\n"
  timestamp := ⟨-62167219201, 999999999, by decide⟩
  state := ⟨1⟩
  context := ⟨Int64.minValue, none, ["", "\t"]⟩

/-- This checkpoint has a text that is refused for its version, and with the known version it is
read back. -/
theorem ancient_round_trip :
    (∃ text, ancient.toJson Member.codec Script.Ctx.codec = .ok text ∧
      ofJson (@Member.codec ["off", "on"]) Script.Ctx.codec text =
        .error (.unsupportedVersion 2 1)) ∧
    ∃ text, toJson Member.codec Script.Ctx.codec { ancient with version := 1 } = .ok text ∧
      ofJson Member.codec Script.Ctx.codec text = .ok { ancient with version := 1 } :=
  have h := json_round_trip.2.2 ["off", "on"] (by decide)
  ⟨h.written ancient, h.written { ancient with version := 1 }⟩

end Checkpoint

end Statechart
