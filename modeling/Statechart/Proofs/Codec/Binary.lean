import Statechart.Member
import Statechart.Script.Context
import Mathlib.Algebra.Group.Nat.Defs
import Mathlib.Tactic.Common

/-!
Readers of bytes take exactly what the writers write. `Exact` says this of a reader and a writer as
one equivalence, so that the laws of a record come from those of its fields: a value is read from
the front of some bytes if and only if they begin with its written form.
-/

namespace Statechart.Binary

variable {α β : Type} {fits : α → Prop} {write : α → Bytes} {read : Bytes → Option (α × Bytes)}

/-- **The reader takes from the front of the bytes what is written of the values that fit**, and
nothing else. -/
def Exact (fits : α → Prop) (write : α → Bytes) (read : Bytes → Option (α × Bytes)) : Prop :=
  ∀ a s rest, read s = some (a, rest) ↔ fits a ∧ s = write a ++ rest

/-- A reader that goes on after an exact one. -/
theorem Exact.bind_eq_some_iff (h : Exact fits write read) {f : α × Bytes → Option β} {s : Bytes}
    {b : β} :
    (read s).bind f = some b ↔ ∃ a rest, fits a ∧ s = write a ++ rest ∧ f (a, rest) = some b := by
  rw [Option.bind_eq_some_iff]
  constructor
  · rintro ⟨⟨a, rest⟩, hread, hf⟩
    obtain ⟨hfits, hs⟩ := (h a s rest).1 hread
    exact ⟨a, rest, hfits, hs, hf⟩
  · rintro ⟨a, rest, hfits, hs, hf⟩
    exact ⟨(a, rest), (h a s rest).2 ⟨hfits, hs⟩, hf⟩

/-! ### Numbers -/

theorem exact_nat (width : Nat) : Exact (· < 256 ^ width) (ofNat width) (readNat width) := by
  intro n s rest
  induction width generalizing n s with
  | zero =>
    simp only [readNat, ofNat, Option.some.injEq, Prod.mk.injEq, List.nil_append, Nat.pow_zero]
    exact and_congr_left' ⟨by omega, by omega⟩
  | succ width ih =>
    cases s with
    | nil => simp [readNat, ofNat]
    | cons b s =>
      simp only [readNat, ofNat, List.cons_append, List.cons.injEq, Option.map_eq_some_iff,
        Prod.exists, Prod.mk.injEq]
      have hb : b.toNat < 256 := b.toNat_lt
      constructor
      · rintro ⟨q, rest', hread, rfl, rfl⟩
        obtain ⟨hq, rfl⟩ := (ih q s).1 hread
        have hdiv : (b.toNat + 256 * q) / 256 = q := by omega
        refine ⟨by rw [Nat.pow_succ]; omega, ?_, by rw [hdiv]⟩
        rw [← UInt8.toNat_inj, UInt8.toNat_ofNat']
        omega
      · rintro ⟨hn, rfl, rfl⟩
        have hq : n / 256 < 256 ^ width := by rw [Nat.pow_succ] at hn; omega
        refine ⟨n / 256, rest, (ih _ _).2 ⟨hq, rfl⟩, ?_, rfl⟩
        rw [UInt8.toNat_ofNat']
        omega

theorem exact_word : Exact (fun _ => True) ofWord readWord := by
  intro n s rest
  simp only [readWord, ofWord, Option.map_eq_some_iff, Prod.exists, Prod.mk.injEq, true_and]
  constructor
  · rintro ⟨q, rest', hread, rfl, rfl⟩
    obtain ⟨hq, rfl⟩ := (exact_nat 4 q s rest').1 hread
    rw [UInt32.toNat_ofNat_of_lt' hq]
  · rintro rfl
    exact ⟨n.toNat, rest, (exact_nat 4 _ _ _).2 ⟨n.toNat_lt, rfl⟩, UInt32.ofNat_toNat, rfl⟩

theorem exact_int : Exact (fun _ => True) ofInt readInt := by
  intro n s rest
  simp only [readInt, ofInt, Option.map_eq_some_iff, Prod.exists, Prod.mk.injEq, true_and]
  constructor
  · rintro ⟨q, rest', hread, rfl, rfl⟩
    obtain ⟨hq, rfl⟩ := (exact_nat 8 q s rest').1 hread
    rw [UInt64.toUInt64_toInt64, UInt64.toNat_ofNat_of_lt' hq]
  · rintro rfl
    refine ⟨n.toUInt64.toNat, rest, (exact_nat 8 _ _ _).2 ⟨n.toUInt64.toNat_lt, rfl⟩, ?_, rfl⟩
    rw [UInt64.ofNat_toNat, Int64.toInt64_toUInt64]

/-! ### Texts -/

theorem toList_loop (bytes : ByteArray) (i : Nat) (r : List UInt8) :
    ByteArray.toList.loop bytes i r = r.reverse ++ bytes.data.toList.drop i := by
  fun_induction ByteArray.toList.loop bytes i r with
  | case1 i r h ih =>
    have h' : i < bytes.data.toList.length := h
    have hget : bytes.get! i = bytes.data.toList[i] := by
      rw [Array.getElem_toList]
      exact getElem!_pos bytes.data i h
    rw [ih, List.drop_eq_getElem_cons h', hget, List.reverse_cons, List.append_assoc]
    rfl
  | case2 i r h =>
    have h' : bytes.data.toList.length ≤ i := Nat.le_of_not_lt h
    rw [List.drop_eq_nil_of_le h', List.append_nil]

theorem toList_eq (bytes : ByteArray) : bytes.toList = bytes.data.toList := by
  rw [ByteArray.toList, toList_loop]
  rfl

theorem length_toList (s : String) : s.toByteArray.toList.length = s.utf8ByteSize := by
  rw [toList_eq]
  rfl

/-- Bytes are the text of which they are the bytes. -/
theorem fromUTF8?_eq_some_iff {bytes : List UInt8} {s : String} :
    String.fromUTF8? ⟨bytes.toArray⟩ = some s ↔ s.toByteArray.toList = bytes := by
  rw [toList_eq]
  constructor
  · intro h
    unfold String.fromUTF8? at h
    split at h
    · obtain rfl := Option.some.inj h
      rfl
    · cases h
  · rintro rfl
    exact dif_pos s.isValidUTF8

/-- The length of the text fits a word. -/
def TextFits (s : String) : Prop := s.utf8ByteSize < UInt64.size

instance (s : String) : Decidable (TextFits s) := by unfold TextFits; infer_instance

theorem exact_text : Exact TextFits ofText readText := by
  intro text s rest
  simp only [readText, Option.bind_eq_bind, (exact_nat 8).bind_eq_some_iff]
  constructor
  · rintro ⟨n, s, hn, rfl, hs⟩
    split at hs
    · cases hs
    · next hlen =>
      obtain ⟨_, htext, ⟨⟩⟩ := Option.bind_eq_some_iff.1 hs
      have hbytes := fromUTF8?_eq_some_iff.1 htext
      have hsize : text.utf8ByteSize = n := by
        rw [← length_toList, hbytes, List.length_take] at *
        omega
      refine ⟨?_, ?_⟩
      · rw [TextFits, hsize]
        exact hn
      · rw [ofText, hbytes, List.length_take, Nat.min_eq_left ?_, List.append_assoc,
          List.take_append_drop]
        rw [List.length_take] at hlen
        omega
  · rintro ⟨hfits, rfl⟩
    have hlen := length_toList text
    refine ⟨text.utf8ByteSize, text.toByteArray.toList ++ rest, hfits, ?_, ?_⟩
    · rw [ofText, hlen, List.append_assoc]
    · rw [← hlen, List.take_left, if_neg (Nat.lt_irrefl _), fromUTF8?_eq_some_iff.2 rfl,
        Option.bind_some, List.drop_left]
      rfl

/-! ### Values that may be absent, and lists -/

theorem Exact.option (h : Exact fits write read) :
    Exact (fun o => ∀ a ∈ o, fits a) (ofOption write) (readOption read) := by
  intro o s rest
  constructor
  · intro hread
    unfold readOption at hread
    split at hread
    · obtain ⟨rfl, rfl⟩ := Prod.mk.inj (Option.some.inj hread)
      exact ⟨by rintro _ ⟨⟩, rfl⟩
    · next s =>
      obtain ⟨⟨a, rest'⟩, ha, heq⟩ := Option.map_eq_some_iff.1 hread
      obtain ⟨rfl, rfl⟩ := Prod.mk.inj heq
      obtain ⟨hfits, rfl⟩ := (h a s rest').1 ha
      refine ⟨?_, rfl⟩
      rintro _ ⟨⟩
      exact hfits
    · cases hread
  · rintro ⟨hfits, rfl⟩
    cases o with
    | none => rfl
    | some a =>
      have ha := (h a (write a ++ rest) rest).2 ⟨hfits a rfl, rfl⟩
      simp [ofOption, readOption, ha]

theorem Exact.many (h : Exact fits write read) (n : Nat) :
    Exact (fun items => items.length = n ∧ ∀ a ∈ items, fits a)
      (fun items => items.flatMap write) (readMany read n) := by
  intro items s rest
  induction n generalizing items s with
  | zero =>
    simp only [readMany, Option.some.injEq, Prod.mk.injEq, List.length_eq_zero_iff]
    constructor
    · rintro ⟨rfl, rfl⟩
      simp
    · rintro ⟨⟨rfl, -⟩, rfl⟩
      simp
  | succ n ih =>
    have hstep : readMany read (n + 1) s =
        (read s).bind fun e => (readMany read n e.2).map fun e' => (e.1 :: e'.1, e'.2) := by
      rw [readMany]
      cases read s <;> rfl
    rw [hstep, h.bind_eq_some_iff]
    constructor
    · rintro ⟨a, s, hfits, rfl, hs⟩
      obtain ⟨⟨tail, rest'⟩, htail, heq⟩ := Option.map_eq_some_iff.1 hs
      obtain ⟨rfl, rfl⟩ := Prod.mk.inj heq
      obtain ⟨⟨hlen, hall⟩, rfl⟩ := (ih tail s).1 htail
      exact ⟨⟨by simp [hlen], by simpa using ⟨hfits, hall⟩⟩, by simp⟩
    · rintro ⟨⟨hlen, hall⟩, rfl⟩
      cases items with
      | nil => cases hlen
      | cons a tail =>
        refine ⟨a, tail.flatMap write ++ rest, hall a List.mem_cons_self, by simp, ?_⟩
        have htail := (ih tail (tail.flatMap write ++ rest)).2
          ⟨⟨Nat.succ.inj hlen, fun b hb => hall b (List.mem_cons_of_mem _ hb)⟩, rfl⟩
        simp [htail]

/-- The values fit, and their number fits a word. -/
def ItemsFit (fits : α → Prop) (items : List α) : Prop :=
  items.length < UInt64.size ∧ ∀ a ∈ items, fits a

theorem Exact.items (h : Exact fits write read) :
    Exact (ItemsFit fits) (ofItems write) (readItems read) := by
  intro items s rest
  simp only [readItems, Option.bind_eq_bind, (exact_nat 8).bind_eq_some_iff]
  constructor
  · rintro ⟨n, s, hn, rfl, hs⟩
    obtain ⟨⟨rfl, hall⟩, rfl⟩ := (h.many n items s rest).1 hs
    exact ⟨⟨hn, hall⟩, by rw [ofItems, List.append_assoc]⟩
  · rintro ⟨⟨hn, hall⟩, rfl⟩
    exact ⟨items.length, items.flatMap write ++ rest, hn, by rw [ofItems, List.append_assoc],
      (h.many _ items _ rest).2 ⟨⟨rfl, hall⟩, rfl⟩⟩

end Statechart.Binary

namespace Statechart

open Binary (Bytes TextFits ItemsFit)

/-! ### Codecs -/

/-- **The written form of a value that fits is read back, whatever follows it**, and no other bytes
are read as the value. -/
def Codec.Framed {α : Type} (c : Codec α) (fits : α → Prop) : Prop :=
  ∃ write, (∀ a, fits a → c.toBytes a = .ok (write a)) ∧ Binary.Exact fits write c.ofBytes?

theorem Codec.framed_text : Codec.text.Framed TextFits :=
  ⟨Binary.ofText, fun _ _ => rfl, Binary.exact_text⟩

/-- A member is framed if its position fits a word. -/
theorem Member.framed_codec (names : List String) :
    (@Member.codec names).Framed fun a => (a.index : Nat) < UInt32.size := by
  refine ⟨fun a => Binary.ofWord (UInt32.ofNat a.index), fun _ _ => rfl, fun a s rest => ?_⟩
  simp only [codec, Option.bind_eq_bind, Binary.exact_word.bind_eq_some_iff, ofIndex?, true_and]
  constructor
  · rintro ⟨n, s, rfl, hs⟩
    obtain ⟨b, hb, heq⟩ := Option.bind_eq_some_iff.1 hs
    split at hb
    · obtain rfl := Option.some.inj hb
      obtain ⟨rfl, rfl⟩ := Prod.mk.inj (Option.some.inj heq)
      exact ⟨n.toNat_lt, by rw [UInt32.ofNat_toNat]⟩
    · cases hb
  · rintro ⟨hfits, rfl⟩
    refine ⟨UInt32.ofNat a.index, rest, rfl, ?_⟩
    have hn : (UInt32.ofNat a.index).toNat = a.index := UInt32.toNat_ofNat_of_lt' hfits
    simp [hn]

namespace Script.Ctx

/-- The texts of the context fit, and so does the number of its items. -/
def Fits (c : Ctx) : Prop := (∀ t ∈ c.tag, TextFits t) ∧ ItemsFit TextFits c.items

theorem framed_codec : codec.Framed Fits := by
  refine ⟨encoded, fun _ _ => rfl, fun c s rest => ?_⟩
  simp only [codec, decode?, Option.bind_eq_bind, Binary.exact_int.bind_eq_some_iff,
    Binary.exact_text.option.bind_eq_some_iff, Binary.exact_text.items.bind_eq_some_iff, true_and]
  constructor
  · rintro ⟨n, _, rfl, tag, _, htag, rfl, items, _, hitems, rfl, ⟨⟩⟩
    exact ⟨⟨htag, hitems⟩, by simp [encoded]⟩
  · rintro ⟨⟨htag, hitems⟩, rfl⟩
    exact ⟨c.n, _, by rw [encoded, List.append_assoc, List.append_assoc], c.tag, _, htag, rfl,
      c.items, _, hitems, rfl, rfl⟩

end Script.Ctx

end Statechart
