import Statechart.Json.Reader
import Statechart.Member
import Statechart.Script.Context
import Mathlib.Tactic.Common

/-!
What is printed as JSON is read back. The reader takes any JSON text; the laws are about the trees
that values are written as, and about each part of the reader in front of whatever may follow a
printed value.
-/

namespace Statechart.Json

/-! ### Texts -/

theorem hexValue?_digitChar {n : Nat} (h : n < 16) : hexValue? (Nat.digitChar n) = some n := by
  have hall : ∀ n < 16, hexValue? (Nat.digitChar n) = some n := by decide
  exact hall n h

/-- A control is read from its number. -/
theorem hex4?_control {n : Nat} (h : n < 32) :
    hex4? '0' '0' (Nat.digitChar (n / 16)) (Nat.digitChar (n % 16)) = some n := by
  have h0 : hexValue? '0' = some 0 := rfl
  simp only [hex4?, h0, hexValue?_digitChar (show n / 16 < 16 by omega),
    hexValue?_digitChar (show n % 16 < 16 by omega), Option.bind_eq_bind, Option.bind_some]
  congr 1
  omega

/-- How a character stands between quotes. -/
inductive Escape (c : Char) : List Char → Prop
  | letter {l : Char} (h : unescape? l = some c) : Escape c ['\\', l]
  | number (h : c.toNat < 32) :
      Escape c ['\\', 'u', '0', '0', Nat.digitChar (c.toNat / 16), Nat.digitChar (c.toNat % 16)]
  | plain (hq : c ≠ '"') (hb : c ≠ '\\') (h : ¬ c.toNat < 32) : Escape c [c]

theorem escape_escape (c : Char) : Escape c (escape c) := by
  unfold escape
  split
  · next h =>
    subst h
    exact .letter rfl
  next hq =>
  split
  · next h =>
    subst h
    exact .letter rfl
  next hb =>
  split
  · next h =>
    subst h
    exact .letter rfl
  split
  · next h =>
    subst h
    exact .letter rfl
  split
  · next h =>
    subst h
    exact .letter rfl
  split
  · next h =>
    subst h
    exact .letter rfl
  split
  · next h =>
    subst h
    exact .letter rfl
  split
  · next h => exact .number h
  · next h => exact .plain hq hb h

theorem Escape.ne_u {c l : Char} (h : unescape? l = some c) : l ≠ 'u' := by
  rintro rfl
  cases h

theorem Escape.decode_append {c : Char} {e : List Char} (h : Escape c e) (s : List Char) :
    decode (e ++ s) = (decode s).map (c :: ·) := by
  cases h with
  | @letter l h =>
    have hu := ne_u h
    rw [List.cons_append, List.cons_append, List.nil_append, decode, h]
    · cases decode s <;> rfl
    · exact fun _ _ _ _ _ hl _ => hu hl
  | number h =>
    simp only [List.cons_append, List.nil_append, decode, hex4?_control h, Option.bind_eq_bind,
      Option.bind_some]
    rw [if_neg (by omega), if_neg (by omega), Char.ofNat_toNat]
    cases decode s <;> rfl
  | plain _ hb _ =>
    rw [List.cons_append, List.nil_append, decode]
    · cases decode s <;> rfl
    · exact fun _ _ _ _ _ hc _ => hb hc
    · exact fun _ _ hc _ => hb hc

theorem Escape.scanText_append {c : Char} {e : List Char} (h : Escape c e) (s : List Char) :
    scanText (e ++ s) = (scanText s).map fun r => (e ++ r.1, r.2) := by
  cases h with
  | @letter l h =>
    have hu := ne_u h
    rw [List.cons_append, List.cons_append, List.nil_append, scanText, h]
    · cases scanText s <;> rfl
    · exact fun _ _ _ _ _ hl _ => hu hl
  | number h =>
    simp only [List.cons_append, List.nil_append, scanText, hex4?_control h, Option.bind_eq_bind,
      Option.bind_some]
    cases scanText s <;> rfl
  | plain hq hb h =>
    rw [List.cons_append, List.nil_append, scanText]
    · rw [if_neg (not_or.2 ⟨hb, h⟩)]
      cases scanText s <;> rfl
    · exact fun hc => hq hc
    · exact fun _ _ _ _ _ hc _ => hb hc
    · exact fun _ _ hc _ => hb hc

/-- **A text is what stands between its quotes.** -/
theorem decode_encode (s : List Char) : decode (encode s) = some s := by
  induction s with
  | nil => rfl
  | cons c s ih =>
    rw [encode, List.flatMap_cons, (escape_escape c).decode_append]
    exact congrArg (Option.map (c :: ·)) ih

/-- A quoted text ends at its closing quote. -/
theorem scanText_encode (s rest : List Char) :
    scanText (encode s ++ '"' :: rest) = some (encode s, rest) := by
  induction s with
  | nil => rfl
  | cons c s ih =>
    rw [encode, List.flatMap_cons, List.append_assoc, (escape_escape c).scanText_append]
    exact congrArg (Option.map fun r => (escape c ++ r.1, r.2)) ih

@[simp] theorem string?_encode (s : List Char) :
    (text (encode s)).string? = some (String.ofList s) := by
  rw [string?, decode_encode]
  rfl

@[simp] theorem string?_ofString (s : String) : (ofString s).string? = some s := by
  rw [ofString, string?_encode, String.ofList_toList]

/-! ### Numbers -/

/-- What may follow a printed value: nothing, or a sign of the surrounding structure. -/
def Stops (s : List Char) : Prop := ∀ c ∈ s.head?, c = ',' ∨ c = ']' ∨ c = '}'

theorem stops_nil : Stops [] := nofun

theorem stops_cons {c : Char} (h : c = ',' ∨ c = ']' ∨ c = '}') (s : List Char) :
    Stops (c :: s) := by
  rintro _ ⟨⟩
  exact h

theorem isDigit_toDigits {n : Nat} {c : Char} (h : c ∈ Nat.toDigits 10 n) : c.isDigit = true :=
  Nat.isDigit_of_mem_toDigits (by decide) (by decide) h

/-- A number has no zero in front, unless it is zero. -/
theorem head?_toDigits {n : Nat} (h : 0 < n) : (Nat.toDigits 10 n).head? ≠ some '0' := by
  induction n using Nat.strongRecOn with
  | ind n ih =>
    rw [Nat.toDigits_eq_if (by decide)]
    split
    · simp only [List.head?_cons, ne_eq, Option.some.injEq, Nat.digitChar_eq_zero]
      omega
    · have hrec := ih (n / 10) (by omega) (by omega)
      cases hd : Nat.toDigits 10 (n / 10) with
      | nil => exact absurd hd Nat.toDigits_ne_nil
      | cons c s => rwa [hd] at hrec

theorem splitDigits_append {digits rest : List Char} (hd : ∀ c ∈ digits, c.isDigit = true)
    (hr : Stops rest) : splitDigits (digits ++ rest) = (digits, rest) := by
  have hrest : rest.takeWhile Char.isDigit = [] ∧ rest.dropWhile Char.isDigit = rest := by
    cases rest with
    | nil => exact ⟨rfl, rfl⟩
    | cons c rest =>
      have hc : c.isDigit = false := by
        rcases hr c rfl with rfl | rfl | rfl <;> rfl
      simp [hc]
  rw [splitDigits, List.takeWhile_append_of_pos hd, List.dropWhile_append_of_pos hd, hrest.1,
    hrest.2, List.append_nil]

theorem scanWhole_toDigits (n : Nat) {rest : List Char} (hr : Stops rest) :
    scanWhole (Nat.toDigits 10 n ++ rest) = some (Nat.toDigits 10 n, rest) := by
  unfold scanWhole
  rw [splitDigits_append (fun _ => isDigit_toDigits) hr]
  split
  · next h => exact absurd (Prod.mk.inj h).1 Nat.toDigits_ne_nil
  · next _ _ _ h =>
    -- two digits with a zero in front
    have hdigits := (Prod.mk.inj h).1
    rcases Nat.eq_zero_or_pos n with rfl | hn
    · cases hdigits
    · exact absurd (by rw [hdigits]; rfl) (head?_toDigits hn)
  · rfl

theorem scanFraction_of_stops {rest : List Char} (hr : Stops rest) :
    scanFraction rest = some ([], rest) := by
  unfold scanFraction
  split
  · rcases hr _ rfl with h | h | h <;> cases h
  · rfl

theorem scanExponent_of_stops {rest : List Char} (hr : Stops rest) :
    scanExponent rest = some ([], rest) := by
  unfold scanExponent
  split
  · next c _ =>
    have hc : ¬ (c = 'e' ∨ c = 'E') := by
      rcases hr c rfl with rfl | rfl | rfl <;> decide
    rw [if_neg hc]
  · rfl

/-- The digits of an integer, with its sign. -/
def integer (n : Int) : List Char :=
  if n < 0 then '-' :: Nat.toDigits 10 n.natAbs else Nat.toDigits 10 n.natAbs

theorem ofInt_eq (n : Int) : ofInt n = number (integer n) := rfl

theorem ne_dash_of_toDigits {n : Nat} {c : Char} {s : List Char} (h : Nat.toDigits 10 n = c :: s) :
    c ≠ '-' := by
  rintro rfl
  exact absurd (isDigit_toDigits (h ▸ List.mem_cons_self)) (by decide)

theorem scanNumber_integer (n : Int) {rest : List Char} (hr : Stops rest) :
    scanNumber (integer n ++ rest) = some (integer n, rest) := by
  have hscan := scanWhole_toDigits n.natAbs hr
  unfold integer
  split
  · simp [scanNumber, hscan, scanFraction_of_stops hr, scanExponent_of_stops hr]
  · unfold scanNumber
    split
    next sign s h =>
    split at h
    · next h' =>
      -- the first character is a digit
      obtain ⟨c, s, hc⟩ :=
        List.exists_cons_of_ne_nil (Nat.toDigits_ne_nil (n := n.natAbs) (b := 10))
      rw [hc] at h'
      exact absurd (List.cons.inj h').1 (ne_dash_of_toDigits hc)
    · obtain ⟨rfl, rfl⟩ := Prod.mk.inj h
      simp [hscan, scanFraction_of_stops hr, scanExponent_of_stops hr]

/-- **An integer is read back from its digits.** -/
@[simp] theorem int?_ofInt (n : Int) : (ofInt n).int? = some n := by
  have hall : (Nat.toDigits 10 n.natAbs).all Char.isDigit = true :=
    List.all_eq_true.2 fun _ => isDigit_toDigits
  rw [ofInt_eq, integer]
  split
  · next h =>
    have hne : Nat.toDigits 10 n.natAbs ≠ ['0'] := by
      intro hz
      exact head?_toDigits (n := n.natAbs) (by omega) (by rw [hz]; rfl)
    rw [int?, if_pos ⟨hall, hne⟩, Nat.ofDigitChars_ten_toDigits]
    congr 1
    omega
  · unfold int?
    split
    · next h => exact absurd rfl (ne_dash_of_toDigits (number.inj h))
    · next h =>
      obtain rfl := number.inj h
      rw [if_pos hall, Nat.ofDigitChars_ten_toDigits]
      congr 1
      omega
    · next h => exact absurd rfl (h _)

/-! ### Trees -/

/-- The trees that values are written as: the numbers are integers, and the texts are those of some
characters. -/
inductive Written : Json → Prop
  | null : Written null
  | bool (b : Bool) : Written (bool b)
  | int (n : Int) : Written (ofInt n)
  | text (s : List Char) : Written (text (encode s))
  | array {items : List Json} (h : ∀ v ∈ items, Written v) : Written (array items)
  | object {members : List (List Char × Json)} (hn : ∀ e ∈ members, ∃ s, e.1 = encode s)
      (h : ∀ e ∈ members, Written e.2) : Written (object members)

theorem skip_cons {c : Char} (h : isBlank c = false) (s : List Char) : skip (c :: s) = c :: s := by
  simp [skip, h]

/-- Whether a character may stand at the front of a printed value. -/
def starts (c : Char) : Bool :=
  c = 'n' || c = 't' || c = 'f' || c = '-' || c.isDigit || c = '"' || c = '[' || c = '\x7b'

theorem isBlank_of_starts {c : Char} (h : starts c = true) : isBlank c = false := by
  by_contra hb
  simp only [Bool.not_eq_false, isBlank, Bool.or_eq_true, decide_eq_true_eq] at hb
  rcases hb with ((rfl | rfl) | rfl) | rfl <;> exact absurd h (by decide)

theorem integer_cons (n : Int) : ∃ c s, integer n = c :: s ∧ (c = '-' ∨ c.isDigit = true) := by
  unfold integer
  split
  · exact ⟨_, _, rfl, .inl rfl⟩
  · obtain ⟨c, s, hc⟩ := List.exists_cons_of_ne_nil (Nat.toDigits_ne_nil (n := n.natAbs) (b := 10))
    exact ⟨c, s, hc, .inr (isDigit_toDigits (hc ▸ List.mem_cons_self))⟩

/-- The front of a printed value. -/
theorem Written.print_cons {v : Json} (h : v.Written) :
    ∃ c s, v.print = c :: s ∧ starts c = true := by
  cases h with
  | null => exact ⟨_, _, rfl, rfl⟩
  | bool b => cases b <;> exact ⟨_, _, rfl, rfl⟩
  | int n =>
    obtain ⟨c, s, hc, hd⟩ := integer_cons n
    refine ⟨c, s, by rw [ofInt_eq, print, hc], ?_⟩
    rcases hd with rfl | hd
    · rfl
    · simp [starts, hd]
  | text s => exact ⟨_, _, rfl, rfl⟩
  | array => exact ⟨_, _, rfl, rfl⟩
  | object => exact ⟨_, _, rfl, rfl⟩

/-! ### Reading what is printed -/

/-- The value is read from its printed form, in front of whatever may follow it there. -/
def Reads (v : Json) : Prop :=
  ∀ fuel rest, v.print.length ≤ fuel → Stops rest →
    readValue fuel (v.print ++ rest) = some (v, rest)

theorem Written.print_ne_nil {v : Json} (h : v.Written) : v.print ≠ [] := by
  obtain ⟨c, s, hc, -⟩ := h.print_cons
  simp [hc]

theorem Written.skip_append {v : Json} (h : v.Written) (rest : List Char) :
    skip (v.print ++ rest) = v.print ++ rest := by
  obtain ⟨c, s, hc, hstarts⟩ := h.print_cons
  rw [hc]
  exact skip_cons (isBlank_of_starts hstarts) _

theorem reads_int (n : Int) : Reads (ofInt n) := by
  intro fuel rest hfuel hrest
  obtain ⟨c, s, hc, hd⟩ := integer_cons n
  have hscan := scanNumber_integer n hrest
  have hskip := (Written.int n).skip_append rest
  rw [ofInt_eq, print] at hfuel hskip ⊢
  rw [hc] at hfuel
  rw [hc, List.cons_append] at hskip hscan ⊢
  cases fuel with
  | zero => simp at hfuel
  | succ fuel =>
    rw [readValue, hskip]
    -- a number starts with none of the other signs
    have hne (d : Char) (hd' : d ≠ '-') (hdigit : d.isDigit = false) : c ≠ d := by
      rintro rfl
      rcases hd with rfl | hd
      · exact hd' rfl
      · simp [hd] at hdigit
    split
    iterate 6 next h => exact absurd (List.cons.inj h).1 (hne _ (by decide) rfl)
    rw [hscan]
    rfl

/-- The items of an array are read up to its end. -/
theorem readItems_print {items : List Json} (hne : items ≠ []) (hw : ∀ v ∈ items, v.Written)
    (ih : ∀ v ∈ items, Reads v) (fuel : Nat) (hfuel : (printItems items).length < fuel)
    (rest : List Char) :
    readItems fuel (printItems items ++ ']' :: rest) = some (items, rest) := by
  induction items generalizing fuel with
  | nil => exact absurd rfl hne
  | cons v items ihItems =>
    cases fuel with
    | zero => simp at hfuel
    | succ fuel =>
      cases items with
      | nil =>
        rw [printItems] at hfuel ⊢
        have hv := ih v List.mem_cons_self fuel (']' :: rest) (by omega) (stops_cons (by simp) _)
        simp [readItems, hv, skip_cons (show isBlank ']' = false from rfl)]
      | cons v' items =>
        have hpos : 0 < v.print.length :=
          List.length_pos_iff.2 (hw v List.mem_cons_self).print_ne_nil
        rw [printItems, List.length_append, List.length_cons] at hfuel
        · rw [printItems, List.append_assoc, List.cons_append]
          · have hv := ih v List.mem_cons_self fuel
              (',' :: (printItems (v' :: items) ++ ']' :: rest)) (by omega) (stops_cons (by simp) _)
            have htail := ihItems (List.cons_ne_nil _ _)
              (fun w h => hw w (List.mem_cons_of_mem _ h))
              (fun w h => ih w (List.mem_cons_of_mem _ h)) fuel (by omega)
            simp [readItems, hv, htail, skip_cons (show isBlank ',' = false from rfl)]
          · exact nofun
        · exact nofun

/-- The members of an object are read up to its end. -/
theorem readMembers_print {members : List (List Char × Json)} (hne : members ≠ [])
    (hn : ∀ e ∈ members, ∃ s, e.1 = encode s) (ih : ∀ e ∈ members, Reads e.2) (fuel : Nat)
    (hfuel : (printMembers members).length < fuel) (rest : List Char) :
    readMembers fuel (printMembers members ++ '}' :: rest) = some (members, rest) := by
  induction members generalizing fuel with
  | nil => exact absurd rfl hne
  | cons e members ihMembers =>
    obtain ⟨name, v⟩ := e
    obtain ⟨s, rfl⟩ : ∃ s, name = encode s := hn (name, v) List.mem_cons_self
    have hquote : isBlank '"' = false := rfl
    have hcolon : isBlank ':' = false := rfl
    cases fuel with
    | zero => simp at hfuel
    | succ fuel =>
      cases members with
      | nil =>
        simp only [printMembers, List.length_append, List.length_cons] at hfuel
        have hv := ih (encode s, v) List.mem_cons_self fuel ('}' :: rest) (by dsimp only; omega)
          (stops_cons (by simp) _)
        simp [printMembers, readMembers, skip_cons hquote, skip_cons hcolon, scanText_encode, hv,
          skip_cons (show isBlank '}' = false from rfl)]
      | cons e' members =>
        simp only [printMembers, List.length_append, List.length_cons] at hfuel
        have hv := ih (encode s, v) List.mem_cons_self fuel
          (',' :: (printMembers (e' :: members) ++ '}' :: rest)) (by dsimp only; omega)
          (stops_cons (by simp) _)
        have htail := ihMembers (List.cons_ne_nil _ _) (fun e h => hn e (List.mem_cons_of_mem _ h))
          (fun e h => ih e (List.mem_cons_of_mem _ h)) fuel (by omega)
        simp [printMembers, readMembers, skip_cons hquote, skip_cons hcolon, scanText_encode, hv,
          htail, skip_cons (show isBlank ',' = false from rfl)]

/-- The front of the items of an array that has some. -/
theorem printItems_cons {items : List Json} (hne : items ≠ []) (hw : ∀ v ∈ items, v.Written) :
    ∃ c s, printItems items = c :: s ∧ starts c = true := by
  cases items with
  | nil => exact absurd rfl hne
  | cons v items =>
    obtain ⟨c, s, hc, hstarts⟩ := (hw v List.mem_cons_self).print_cons
    cases items with
    | nil => exact ⟨c, s, by rw [printItems, hc], hstarts⟩
    | cons v' items => exact ⟨c, _, by simp only [printItems, hc]; rfl, hstarts⟩

theorem reads_array {items : List Json} (hw : ∀ v ∈ items, v.Written) (ih : ∀ v ∈ items, Reads v) :
    Reads (array items) := by
  intro fuel rest hfuel _
  simp only [print, List.length_append, List.length_cons, List.length_nil] at hfuel
  cases fuel with
  | zero => omega
  | succ fuel =>
    have hopen : isBlank '[' = false := rfl
    by_cases hne : items = []
    · subst hne
      simp [print, printItems, readValue, skip_cons hopen,
        skip_cons (show isBlank ']' = false from rfl)]
    · have hread := readItems_print hne hw ih fuel (by omega) rest
      obtain ⟨c, s, hc, hstarts⟩ := printItems_cons hne hw
      have hend : c ≠ ']' := by
        rintro rfl
        exact absurd hstarts (by decide)
      rw [hc, List.cons_append] at hread
      simp [print, readValue, skip_cons hopen, hc, skip_cons (isBlank_of_starts hstarts), hread,
        hend]

theorem reads_object {members : List (List Char × Json)} (hn : ∀ e ∈ members, ∃ s, e.1 = encode s)
    (ih : ∀ e ∈ members, Reads e.2) : Reads (object members) := by
  intro fuel rest hfuel _
  simp only [print, List.length_append, List.length_cons, List.length_nil] at hfuel
  cases fuel with
  | zero => omega
  | succ fuel =>
    have hopen : isBlank '{' = false := rfl
    by_cases hne : members = []
    · subst hne
      simp [print, printMembers, readValue, skip_cons hopen,
        skip_cons (show isBlank '}' = false from rfl)]
    · have hread := readMembers_print hne hn ih fuel (by omega) rest
      obtain ⟨s, hs⟩ : ∃ s, printMembers members = '"' :: s := by
        cases members with
        | nil => exact absurd rfl hne
        | cons e members => cases members <;> exact ⟨_, by simp only [printMembers]; rfl⟩
      rw [hs, List.cons_append] at hread
      simp [print, readValue, skip_cons hopen, hs, skip_cons (show isBlank '"' = false from rfl),
        hread]

/-- **A value is read from its printed form**, and nothing of what follows it. -/
theorem Written.reads {v : Json} (h : v.Written) : Reads v := by
  induction h with
  | null =>
    intro fuel rest hfuel _
    cases fuel with
    | zero => simp [print] at hfuel
    | succ fuel => simp [print, readValue, skip_cons (show isBlank 'n' = false from rfl)]
  | bool b =>
    intro fuel rest hfuel _
    cases fuel with
    | zero => cases b <;> simp [print] at hfuel
    | succ fuel =>
      cases b
      · simp [print, readValue, skip_cons (show isBlank 'f' = false from rfl)]
      · simp [print, readValue, skip_cons (show isBlank 't' = false from rfl)]
  | int n => exact reads_int n
  | text s =>
    intro fuel rest hfuel _
    cases fuel with
    | zero => simp [print] at hfuel
    | succ fuel =>
      simp [print, readValue, skip_cons (show isBlank '"' = false from rfl), scanText_encode]
  | array h ih => exact reads_array h ih
  | object hn _ ih => exact reads_object hn ih

/-- The text of a value denotes the value. -/
theorem Written.ofText?_print {v : Json} (h : v.Written) : ofText? v.print = some v := by
  have hread := h.reads (v.print.length + 1) [] (Nat.le_succ _) stops_nil
  rw [List.append_nil] at hread
  rw [ofText?, hread]
  rfl

/-! ### Records -/

theorem mapM_eq_some_map {α β : Type} {f : α → Option β} {g : α → β} {l : List α}
    (h : ∀ a ∈ l, f a = some (g a)) : l.mapM f = some (l.map g) := by
  induction l with
  | nil => rfl
  | cons a l ih =>
    rw [List.mapM_cons, h a List.mem_cons_self, ih fun b hb => h b (List.mem_cons_of_mem _ hb)]
    rfl

/-- A member is found by its name, if the names differ. -/
theorem member?_of_mem {members : List (String × Json)} (hn : (members.map Prod.fst).Nodup)
    {e : String × Json} (he : e ∈ members) : member? members e.1 = some (some e.2) := by
  induction members with
  | nil => cases he
  | cons d members ih =>
    rw [List.map_cons, List.nodup_cons] at hn
    rcases List.mem_cons.1 he with rfl | he'
    · have hnone : members.filter (fun d => d.1 = e.1) = [] := by
        refine List.filter_eq_nil_iff.2 fun d hd => ?_
        rw [decide_eq_true_eq]
        exact fun heq => hn.1 (heq ▸ List.mem_map_of_mem hd)
      rw [member?, List.filter_cons_of_pos (by simp), hnone]
    · have hne : d.1 ≠ e.1 := fun heq => hn.1 (heq ▸ List.mem_map_of_mem he')
      have hrec := ih hn.2 he'
      rwa [member?, List.filter_cons_of_neg (by simpa using hne)]

/-- An object with these fields. -/
def ofRecord (fields : List String) (values : List Json) : Json :=
  object ((fields.map fun f => encode f.toList).zip values)

theorem written_ofRecord (fields : List String) {values : List Json} (h : ∀ v ∈ values, v.Written) :
    (ofRecord fields values).Written := by
  refine .object (fun e he => ?_) fun e he => h _ (List.of_mem_zip he).2
  obtain ⟨f, -, hf⟩ := List.mem_map.1 (List.of_mem_zip he).1
  exact ⟨f.toList, hf.symm⟩

/-- **The values of a record are read from its fields.** -/
theorem record?_ofRecord {fields : List String} (hn : fields.Nodup) (values : List Json)
    (hlen : values.length = fields.length) :
    (ofRecord fields values).record? fields = some (values.map some) := by
  have hnames : ((fields.map fun f => encode f.toList).zip values).mapM
      (fun e => (decode e.1).map fun name => (String.ofList name, e.2)) =
        some (fields.zip values) := by
    rw [List.zip_map_left, List.mapM_map]
    have hid : fields.zip values = (fields.zip values).map id := (List.map_id _).symm
    conv => rhs; rw [hid]
    refine mapM_eq_some_map fun e _ => ?_
    simp [decode_encode]
  have hfst : (fields.zip values).map Prod.fst = fields := List.map_fst_zip (by omega)
  have hsnd : (fields.zip values).map Prod.snd = values := List.map_snd_zip (by omega)
  have hvalues : fields.mapM (member? (fields.zip values)) =
      some ((fields.zip values).map fun e => some e.2) := by
    conv => lhs; arg 2; rw [← hfst]
    rw [List.mapM_map]
    exact mapM_eq_some_map fun e he => member?_of_mem (hfst.symm ▸ hn) he
  have hmap : values.map some = (fields.zip values).map fun e => some e.2 := by
    conv => lhs; rw [← hsnd]
    rw [List.map_map]
    rfl
  rw [ofRecord, record?, hnames, hmap]
  exact hvalues

end Statechart.Json

namespace Statechart

/-! ### Codecs -/

/-- **Every value is written, and is read back from what is written.** -/
def Codec.Legible {α : Type} (c : Codec α) : Prop :=
  ∀ a, ∃ v, c.toJson a = .ok v ∧ v.Written ∧ c.ofJson? v = some a

theorem Codec.legible_text : Codec.text.Legible :=
  fun s => ⟨_, rfl, .text _, Json.string?_ofString s⟩

theorem Member.ofName?_name {names : List String} (hn : names.Nodup) (m : Member names) :
    ofName? m.name = some m := by
  have hfind : names.findFinIdx? (· = m.name) = some m.index := by
    rw [List.findFinIdx?_eq_some_iff]
    refine ⟨by simp [name], fun j hj => ?_⟩
    have hne : names[j] ≠ names[m.index] := by
      intro heq
      have hidx : j.val = m.index.val := (List.getElem_inj hn).1 heq
      exact Nat.ne_of_lt hj hidx
    exact fun h => hne (of_decide_eq_true h)
  rw [ofName?, hfind]
  rfl

/-- Members are read back by their names, if these differ. -/
theorem Member.legible_codec {names : List String} (hn : names.Nodup) :
    (@Member.codec names).Legible := by
  refine fun m => ⟨_, rfl, .text _, ?_⟩
  have hread : (@codec names).ofJson? (.ofString m.name) =
    (Json.ofString m.name).string?.bind ofName? := rfl
  rw [hread, Json.string?_ofString, Option.bind_some, ofName?_name hn]

namespace Script.Ctx

theorem counter?_ofInt (n : Int64) : counter? (.ofInt n.toInt) = some n := by
  have hle : Int64.minValue.toInt ≤ n.toInt ∧ n.toInt ≤ Int64.maxValue.toInt :=
    ⟨Int64.minValue_le_toInt n, Int64.toInt_le n⟩
  rw [counter?, Json.int?_ofInt]
  exact (if_pos hle).trans (congrArg some n.ofInt_toInt)

theorem written_tag (tag : Option String) : ((tag.map Json.ofString).getD .null).Written := by
  cases tag with
  | none => exact .null
  | some t => exact .text _

theorem tag?_tag (tag : Option String) : tag? ((tag.map Json.ofString).getD .null) = some tag := by
  cases tag with
  | none => rfl
  | some t =>
    have htag : tag? (.ofString t) = (Json.ofString t).string?.map some := rfl
    rw [Option.map_some, Option.getD_some, htag, Json.string?_ofString]
    rfl

theorem legible_codec : codec.Legible := by
  refine fun c => ⟨c.tree, rfl, ?_, ?_⟩
  · refine Json.written_ofRecord fields ?_
    simp only [List.mem_cons, List.not_mem_nil, or_false, forall_eq_or_imp, forall_eq]
    refine ⟨.int _, written_tag _, .array fun v hv => ?_⟩
    obtain ⟨t, -, rfl⟩ := List.mem_map.1 hv
    exact .text _
  · have hrecord := Json.record?_ofRecord (show fields.Nodup by decide)
      [.ofInt c.n.toInt, (c.tag.map Json.ofString).getD .null,
        .array (c.items.map Json.ofString)] rfl
    have hitems : (c.items.map Json.ofString).mapM Json.string? = some c.items := by
      rw [List.mapM_map, Json.mapM_eq_some_map (g := id) (by simp), List.map_id]
    have htree : c.tree = Json.ofRecord fields [.ofInt c.n.toInt,
      (c.tag.map Json.ofString).getD .null, .array (c.items.map Json.ofString)] := rfl
    simp only [codec, ofTree?, htree, hrecord, List.map_cons, List.map_nil, Option.bind_eq_bind,
      Option.bind_some, counter?_ofInt, Option.getD_some, tag?_tag, Json.items?, hitems]
    rfl

end Script.Ctx

end Statechart
