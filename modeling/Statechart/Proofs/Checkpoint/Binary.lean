import Statechart.Checkpoint
import Statechart.Proofs.Codec.Binary
import Statechart.Proofs.Codec.Timestamp

/-!
Checkpoints as bytes. The bytes of a checkpoint say where they end, so that what follows them does
not matter and nothing that is cut off is read; and a checkpoint has one written form, but for its
time, which is written as a text that may be spelled in several ways.
-/

namespace Statechart

open Binary (Bytes TextFits)

variable {S C : Type} {states : Codec S} {contexts : Codec C} {fs : S → Prop} {fc : C → Prop}

/-! ### The text of a point in time -/

namespace Timestamp

theorem utf8ByteSize_ofList_le (s : List Char) : (String.ofList s).utf8ByteSize ≤ 4 * s.length := by
  induction s with
  | nil => simp
  | cons c s ih =>
    have hc := c.utf8Size_le_four
    rw [String.ofList_cons, String.utf8ByteSize_append, String.utf8ByteSize_singleton,
      List.length_cons]
    omega

theorem length_yearText_le (year : Int) (h : year.natAbs < 10 ^ 9) :
    (yearText year).length ≤ 10 := by
  have hdigits : (Nat.toDigits 10 year.natAbs).length ≤ 9 :=
    (Nat.length_toDigits_le_iff (by decide) (by decide)).2 h
  unfold yearText
  split
  · simp
  · simp only [List.length_cons, Text.padded, List.length_append, List.length_replicate]
    omega

theorem length_fractionText_le (nanos : Nat) : (fractionText nanos).length ≤ 10 := by
  unfold fractionText
  split
  · simp
  · split
    · simp
    · split <;> simp

/-- The text of a point in time is short. -/
theorem textFits_text (t : Timestamp) : TextFits (String.ofList t.text) := by
  obtain ⟨hfirst, hlast, -, -⟩ := id t.representable
  have hnumber : (t.seconds / 86400).natAbs < 10 ^ 9 - 2000 := by
    have h1 : firstSecond = -8334601228800 := by decide
    have h2 : lastSecond = 8210266876799 := by decide
    omega
  have hyear := Calendar.Date.natAbs_year_le (t.seconds / 86400)
  have hlen : t.text.length ≤ 40 := by
    rw [text_eq]
    have h1 := length_yearText_le (Calendar.Date.ofNumber (t.seconds / 86400)).year (by omega)
    have h2 := length_fractionText_le
      (if perSecond ≤ t.nanos then t.nanos - perSecond else t.nanos)
    simp only [dateText, timeText, List.length_append, List.length_cons, Text.length_fixed,
      List.length_nil]
    omega
  have hsize := utf8ByteSize_ofList_le t.text
  unfold TextFits
  have : UInt64.size = 18446744073709551616 := rfl
  omega

end Timestamp

/-! ### Checkpoints -/

namespace Checkpoint

/-- The bytes of a checkpoint with the text `time` in the place of the text of its time. -/
def spelled (states : Codec S) (contexts : Codec C) (c : Checkpoint S C) (time : String) :
    Except String Bytes := do
  let state ← states.toBytes c.state
  let context ← contexts.toBytes c.context
  return Binary.ofWord c.version ++ Binary.ofText c.id ++ Binary.ofText time ++ state ++ context

/-- The parts of the checkpoint fit: the length of its id fits a word, and the state and the context
are among those that have a written form. -/
def Fits (fs : S → Prop) (fc : C → Prop) (c : Checkpoint S C) : Prop :=
  TextFits c.id ∧ fs c.state ∧ fc c.context

theorem encoded_eq_spelled (c : Checkpoint S C) :
    c.encoded states contexts = c.spelled states contexts (String.ofList c.timestamp.text) := rfl

theorem spelled_eq {ws : S → Bytes} {wc : C → Bytes}
    (hs : ∀ a, fs a → states.toBytes a = .ok (ws a))
    (hc : ∀ a, fc a → contexts.toBytes a = .ok (wc a)) {c : Checkpoint S C} (hfits : c.Fits fs fc)
    (time : String) : c.spelled states contexts time = .ok (Binary.ofWord c.version ++
      Binary.ofText c.id ++ Binary.ofText time ++ ws c.state ++ wc c.context) := by
  simp only [spelled, hs _ hfits.2.1, hc _ hfits.2.2]
  rfl

/-- **A checkpoint is read from the front of some bytes if and only if they begin with the bytes of
the checkpoint, up to the spelling of its time.** -/
theorem decode?_eq_some_iff (hs : states.Framed fs) (hc : contexts.Framed fc)
    {c : Checkpoint S C} {s rest : Bytes} :
    decode? states contexts s = some (c, rest) ↔ c.Fits fs fc ∧ ∃ time b, TextFits time ∧
      Timestamp.ofText? time.toList = some c.timestamp ∧
      c.spelled states contexts time = .ok b ∧ s = b ++ rest := by
  obtain ⟨ws, hws, hrs⟩ := hs
  obtain ⟨wc, hwc, hrc⟩ := hc
  simp only [decode?, Timestamp.codec, Option.bind_eq_bind, Option.bind_assoc,
    Binary.exact_word.bind_eq_some_iff, Binary.exact_text.bind_eq_some_iff, true_and]
  constructor
  · rintro ⟨version, _, rfl, id, _, hid, rfl, time, _, htime, rfl, h⟩
    obtain ⟨timestamp, ht, h⟩ := Option.bind_eq_some_iff.1 h
    obtain ⟨state, _, hstate, rfl, h⟩ := hrs.bind_eq_some_iff.1 h
    obtain ⟨context, _, hcontext, rfl, ⟨⟩⟩ := hrc.bind_eq_some_iff.1 h
    have hfits : Fits fs fc ⟨version, id, timestamp, state, context⟩ := ⟨hid, hstate, hcontext⟩
    exact ⟨hfits, time, _, htime, ht, spelled_eq hws hwc hfits time, by simp⟩
  · rintro ⟨hfits, time, b, htime, ht, hb, rfl⟩
    rw [spelled_eq hws hwc hfits time] at hb
    obtain rfl := Except.ok.inj hb
    refine ⟨c.version, _, by rw [List.append_assoc, List.append_assoc, List.append_assoc,
      List.append_assoc], c.id, _, hfits.1, rfl, time, _, htime, rfl, ?_⟩
    refine Option.bind_eq_some_iff.2 ⟨c.timestamp, ht, ?_⟩
    refine hrs.bind_eq_some_iff.2 ⟨c.state, _, hfits.2.1, rfl, ?_⟩
    exact hrc.bind_eq_some_iff.2 ⟨c.context, rest, hfits.2.2, rfl, rfl⟩

/-- What the version of a checkpoint makes of reading it. -/
theorem checkVersion_eq (c : Checkpoint S C) : c.checkVersion =
    if c.version = 1 then .ok c else .error (.unsupportedVersion c.version 1) := rfl

/-- **The format of the bytes of a checkpoint.** -/
structure Canonical (states : Codec S) (contexts : Codec C) (fs : S → Prop) (fc : C → Prop) :
    Prop where
  /-- A checkpoint whose parts fit has bytes. With anything behind them they are read as the
  checkpoint, if its version is known, and no part of them that is cut off is read at all. -/
  delimited : ∀ c : Checkpoint S C, c.Fits fs fc → ∃ b, c.toBinary states contexts = .ok b ∧
    (∀ t, ofBinary states contexts (b ++ t) =
      if c.version = 1 then .ok c else .error (.unsupportedVersion c.version 1)) ∧
    ∀ s, s <+: b → s ≠ b → ofBinary states contexts s = .error .deserializationFailed
  /-- Bytes that are read as a checkpoint begin with the bytes of the checkpoint, with some text
  that denotes its time. -/
  spelled : ∀ (c : Checkpoint S C) s, ofBinary states contexts s = .ok c →
    c.version = 1 ∧ c.Fits fs fc ∧ ∃ time b rest,
      Timestamp.ofText? time.toList = some c.timestamp ∧
      c.spelled states contexts time = .ok b ∧ s = b ++ rest

theorem canonical (hs : states.Framed fs) (hc : contexts.Framed fc) :
    Canonical states contexts fs fc := by
  constructor
  · intro c hfits
    obtain ⟨b, hb⟩ : ∃ b, c.spelled states contexts (String.ofList c.timestamp.text) = .ok b := by
      have ⟨ws, hws, _⟩ := hs
      have ⟨wc, hwc, _⟩ := hc
      exact ⟨_, spelled_eq hws hwc hfits _⟩
    have hread (t : Bytes) : decode? states contexts (b ++ t) = some (c, t) :=
      (decode?_eq_some_iff hs hc).2 ⟨hfits, _, b, c.timestamp.textFits_text, by
        rw [String.toList_ofList, Timestamp.ofText?_text], hb, rfl⟩
    refine ⟨b, by rw [toBinary, encoded_eq_spelled, hb], fun t => ?_, fun s hsb hne => ?_⟩
    · rw [ofBinary, hread]
      exact c.checkVersion_eq
    · -- what is read from a part would be read from the whole, and leave nothing over
      obtain ⟨t, rfl⟩ := hsb
      cases hd : decode? states contexts s with
      | none => rw [ofBinary, hd]
      | some e =>
        obtain ⟨c', rest⟩ := e
        obtain ⟨hfits', time, b', htime, ht, hb', rfl⟩ := (decode?_eq_some_iff hs hc).1 hd
        have hwhole : decode? states contexts (b' ++ rest ++ t) = some (c', rest ++ t) :=
          (decode?_eq_some_iff hs hc).2
            ⟨hfits', time, b', htime, ht, hb', List.append_assoc ..⟩
        have hnil := hread []
        rw [List.append_nil, hwhole] at hnil
        have hrest : rest ++ t = [] := (Prod.mk.inj (Option.some.inj hnil)).2
        rw [(List.append_eq_nil_iff.1 hrest).2, List.append_nil] at hne
        exact absurd rfl hne
  · intro c s hread
    rw [ofBinary] at hread
    split at hread
    · cases hread
    · next c' rest hd =>
      rw [checkVersion_eq] at hread
      split at hread
      · next hversion =>
        obtain rfl := Except.ok.inj hread
        obtain ⟨hfits, time, b, -, ht, hb, rfl⟩ := (decode?_eq_some_iff hs hc).1 hd
        exact ⟨hversion, hfits, time, b, rest, ht, hb, rfl⟩
      · cases hread

/-- **The bytes of checkpoints are self-delimiting and canonical**, for all codecs of states and
contexts that are framed; and so are those of texts, of the members of any list of names, and of the
contexts of scripts. -/
theorem binary_canonical :
    (∀ {S C : Type} {states : Codec S} {contexts : Codec C} {fs : S → Prop} {fc : C → Prop},
      states.Framed fs → contexts.Framed fc → Canonical states contexts fs fc) ∧
    Canonical Codec.text Script.Ctx.codec TextFits Script.Ctx.Fits ∧
    ∀ names : List String, Canonical (@Member.codec names) Script.Ctx.codec
      (fun a => (a.index : Nat) < UInt32.size) Script.Ctx.Fits :=
  ⟨canonical, canonical Codec.framed_text Script.Ctx.framed_codec,
    fun names => canonical (Member.framed_codec names) Script.Ctx.framed_codec⟩

/-- A checkpoint in the middle of a leap second. -/
def leaping : Checkpoint String Script.Ctx where
  version := 1
  id := "a"
  timestamp := ⟨1483228799, 1500000000, by decide⟩
  state := "on"
  context := ⟨3, some "x", ["y", ""]⟩

theorem leaping_fits : leaping.Fits TextFits Script.Ctx.Fits := by
  refine ⟨by decide, by decide, ?_, by decide, ?_⟩
  · rintro _ ⟨⟩
    decide
  · intro t ht
    simp only [leaping, List.mem_cons, List.not_mem_nil, or_false] at ht
    rcases ht with rfl | rfl <;> decide

/-- This checkpoint is read from its bytes with a byte behind them, and not without the last one. -/
theorem leaping_delimited : ∃ b, leaping.toBinary Codec.text Script.Ctx.codec = .ok b ∧
    ofBinary Codec.text Script.Ctx.codec (b ++ [7]) = .ok leaping ∧
    ofBinary Codec.text Script.Ctx.codec b.dropLast = .error .deserializationFailed := by
  obtain ⟨b, hb, hread, hcut⟩ := binary_canonical.2.1.delimited leaping leaping_fits
  refine ⟨b, hb, hread [7], hcut _ (List.dropLast_prefix b) fun h => ?_⟩
  -- only the empty text is its own part without the last byte, and it is no checkpoint
  have hlen := congrArg List.length h
  rw [List.length_dropLast] at hlen
  obtain rfl : b = [] := List.eq_nil_of_length_eq_zero (by omega)
  cases hread []

end Checkpoint

end Statechart
