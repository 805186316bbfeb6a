import Statechart.Proofs.Codec.Calendar
import Statechart.Timestamp.Reader

/-!
Points in time are read back from their text. The reader takes more than what is written, so the
laws say what each of its parts does in front of a text that a written one may be followed by.
-/

namespace Statechart

namespace Text

/-! ### Runs of digits -/

/-- No digit stands at the front. -/
def Undigited (s : List Char) : Prop := ∀ c ∈ s.head?, c.isDigit = false

theorem takeWhile_isDigit_take {s : List Char} (h : Undigited s) (n : Nat) :
    (s.take n).takeWhile Char.isDigit = [] := by
  cases s with
  | nil => simp
  | cons c s =>
    cases n with
    | zero => simp
    | succ n => simp [h c rfl]

/-- **A run of digits is read up to its end**, which is where there are no more digits, or as many
as may be read. -/
theorem readDigits_append {most : Nat} {digits rest : List Char}
    (hd : ∀ c ∈ digits, c.isDigit = true) (hne : digits ≠ []) (hlen : digits.length ≤ most)
    (hend : digits.length = most ∨ Undigited rest) :
    readDigits most (digits ++ rest) = some (digits, rest) := by
  have hrest : (rest.take (most - digits.length)).takeWhile Char.isDigit = [] := by
    rcases hend with rfl | h
    · simp
    · exact takeWhile_isDigit_take h _
  have htake : ((digits ++ rest).take most).takeWhile Char.isDigit = digits := by
    rw [List.take_append, List.take_of_length_le hlen, List.takeWhile_append_of_pos hd, hrest,
      List.append_nil]
  simp [readDigits, htake, hne]

theorem readNumber_append {most : Nat} {digits rest : List Char}
    (hd : ∀ c ∈ digits, c.isDigit = true) (hne : digits ≠ []) (hlen : digits.length ≤ most)
    (hend : digits.length = most ∨ Undigited rest) :
    readNumber most (digits ++ rest) = some (value digits, rest) := by
  rw [readNumber, readDigits_append hd hne hlen hend]
  rfl

/-! ### Written numbers -/

@[simp] theorem length_fixed (width n : Nat) : (fixed width n).length = width := by
  induction width generalizing n with
  | zero => rfl
  | succ width ih => simp [fixed, ih]

theorem isDigit_fixed (width n : Nat) : ∀ c ∈ fixed width n, c.isDigit = true := by
  induction width generalizing n with
  | zero => simp [fixed]
  | succ width ih =>
    intro c hc
    rcases List.mem_append.1 hc with hc | hc
    · exact ih _ c hc
    · obtain rfl := List.mem_singleton.1 hc
      simp [Nat.isDigit_digitChar, Nat.mod_lt]

theorem value_fixed (width n : Nat) : value (fixed width n) = n % 10 ^ width := by
  unfold value
  induction width generalizing n with
  | zero => simp [fixed, Nat.mod_one]
  | succ width ih =>
    rw [fixed, Nat.ofDigitChars_append,
      Nat.ofDigitChars_cons_digitChar_of_lt_ten (Nat.mod_lt _ (by decide)), Nat.ofDigitChars_nil,
      ih, Nat.pow_succ', Nat.mod_mul, Nat.add_comm]

theorem isDigit_padded (width n : Nat) : ∀ c ∈ padded width n, c.isDigit = true := by
  intro c hc
  rcases List.mem_append.1 hc with hc | hc
  · rw [List.eq_of_mem_replicate hc]
    decide
  · exact Nat.isDigit_of_mem_toDigits (by decide) (by decide) hc

theorem value_padded (width n : Nat) : value (padded width n) = n := by
  simp only [value, padded, Nat.ofDigitChars_append, Nat.ofDigitChars_replicate_zero, Nat.mul_zero]
  exact Nat.ofDigitChars_ten_toDigits

theorem padded_ne_nil (width n : Nat) : padded width n ≠ [] := by
  simp [padded, Nat.toDigits_ne_nil]

/-! ### Blanks -/

theorem isBlank_of_isDigit {c : Char} (h : c.isDigit = true) : isBlank c = false := by
  simp only [Char.isDigit, Bool.and_eq_true, decide_eq_true_eq, UInt32.le_iff_toNat_le] at h
  change 48 ≤ c.toNat ∧ c.toNat ≤ 57 at h
  simp only [isBlank, Bool.or_eq_false_iff, Bool.and_eq_false_imp, decide_eq_false_iff_not,
    decide_eq_true_eq]
  omega

@[simp] theorem skipBlanks_nil : skipBlanks [] = [] := rfl

theorem skipBlanks_cons {c : Char} (h : isBlank c = false) (s : List Char) :
    skipBlanks (c :: s) = c :: s := by
  simp [skipBlanks, h]

theorem skipBlanks_digits {digits : List Char} (hd : ∀ c ∈ digits, c.isDigit = true)
    (hne : digits ≠ []) (s : List Char) : skipBlanks (digits ++ s) = digits ++ s := by
  cases digits with
  | nil => exact absurd rfl hne
  | cons c digits => exact skipBlanks_cons (isBlank_of_isDigit (hd c List.mem_cons_self)) _

end Text

namespace Timestamp

open Text

/-! ### The parts of a text -/

theorem readYear_digits {digits : List Char} (hd : ∀ c ∈ digits, c.isDigit = true)
    (hlen : digits.length = 4) (rest : List Char) :
    readYear (digits ++ rest) = some ((value digits : Int), rest) := by
  have hne : digits ≠ [] := by
    rintro rfl
    cases hlen
  have hread : readNumber 4 (digits ++ rest) = some (value digits, rest) :=
    readNumber_append hd hne (Nat.le_of_eq hlen) (.inl hlen)
  unfold readYear
  split
  · next h =>
    -- a sign is no digit
    cases digits with
    | nil => exact absurd rfl hne
    | cons c digits =>
      obtain ⟨rfl, -⟩ := List.cons.inj h
      exact absurd (hd _ List.mem_cons_self) (by decide)
  · next h =>
    cases digits with
    | nil => exact absurd rfl hne
    | cons c digits =>
      obtain ⟨rfl, -⟩ := List.cons.inj h
      exact absurd (hd _ List.mem_cons_self) (by decide)
  · rw [hread]
    rfl

theorem readYear_yearText (year : Int) {rest : List Char} (hr : Undigited rest) :
    readYear (yearText year ++ rest) = some (year, rest) := by
  have hread : readNumber (padded 4 year.natAbs ++ rest).length (padded 4 year.natAbs ++ rest) =
      some (year.natAbs, rest) := by
    rw [readNumber_append (isDigit_padded 4 _) (padded_ne_nil 4 _) (by simp) (.inr hr),
      value_padded]
  unfold yearText
  split
  · next h =>
    rw [readYear_digits (isDigit_fixed 4 _) (length_fixed 4 _), value_fixed,
      Nat.mod_eq_of_lt (by omega), Int.toNat_of_nonneg h.1]
  · next h =>
    by_cases hneg : year < 0
    · simp only [hneg, if_true, List.cons_append, readYear, hread, Option.map_some]
      congr 2
      omega
    · simp only [hneg, if_false, List.cons_append, readYear, hread, Option.map_some]
      congr 2
      omega

theorem readField_fixed {n : Nat} (h : n < 100) (rest : List Char) :
    readField (fixed 2 n ++ rest) = some (n, rest) := by
  have hne : fixed 2 n ≠ [] := by simp [fixed]
  rw [readField, skipBlanks_digits (isDigit_fixed 2 n) hne,
    readNumber_append (isDigit_fixed 2 n) hne (Nat.le_of_eq (length_fixed 2 n))
      (.inl (length_fixed 2 n)), value_fixed]
  exact congrArg (fun k => some (k, rest)) (Nat.mod_eq_of_lt h)

theorem yearText_head (year : Int) (s : List Char) :
    skipBlanks (yearText year ++ s) = yearText year ++ s := by
  unfold yearText
  split
  · exact skipBlanks_digits (isDigit_fixed 4 _) (by simp [fixed]) s
  · rw [List.cons_append]
    refine skipBlanks_cons ?_ _
    split <;> decide

/-- The written form of a date. -/
def dateText (d : Calendar.Date) : List Char :=
  yearText d.year ++ '-' :: fixed 2 d.month ++ '-' :: fixed 2 d.day

theorem readDate_dateText {d : Calendar.Date} (h : d.Exists) (rest : List Char) :
    readDate (dateText d ++ rest) = some (d, rest) := by
  obtain ⟨-, hmonth, -, hday⟩ := id h
  have hday : d.day < 100 := by
    have : Calendar.monthLength d.year d.month ≤ 31 := by
      unfold Calendar.monthLength
      split <;> (try split) <;> decide
    omega
  have hundigited (s : List Char) : Undigited ('-' :: s) := by
    rintro _ ⟨⟩
    rfl
  have hdash (s : List Char) : skipBlanks ('-' :: s) = '-' :: s := skipBlanks_cons rfl s
  simp only [readDate, dateText, List.append_assoc, List.cons_append, yearText_head,
    readYear_yearText d.year (hundigited _), hdash, expect, if_true,
    readField_fixed (show d.month < 100 by omega), readField_fixed hday, Option.bind_eq_bind,
    Option.bind_some]
  exact if_pos h

theorem readFraction_digits {digits rest : List Char} (hd : ∀ c ∈ digits, c.isDigit = true)
    (hne : digits ≠ []) (hlen : digits.length ≤ 9) (hr : Undigited rest) :
    readFraction ('.' :: (digits ++ rest)) =
      some (value digits * 10 ^ (9 - digits.length), rest) := by
  have hread : readDigits (digits ++ rest).length (digits ++ rest) = some (digits, rest) :=
    readDigits_append hd hne (by simp) (.inr hr)
  simp only [readFraction, hread, Option.bind_eq_bind, Option.bind_some,
    List.take_of_length_le hlen]
  rfl

theorem readFraction_fractionText {nanos : Nat} (h : nanos < perSecond) {rest : List Char}
    (hr : Undigited rest) (hdot : ∀ s, rest ≠ '.' :: s) :
    readFraction (fractionText nanos ++ rest) = some (nanos, rest) := by
  have fraction (width n : Nat) (hw : 0 < width ∧ width ≤ 9) :
      readFraction ('.' :: fixed width n ++ rest) =
        some (n % 10 ^ width * 10 ^ (9 - width), rest) := by
    have hne : fixed width n ≠ [] := by
      intro h
      have := length_fixed width n
      rw [h] at this
      exact absurd this (by simp; omega)
    rw [List.cons_append, readFraction_digits (isDigit_fixed width n) hne
      (by rw [length_fixed]; exact hw.2) hr, value_fixed, length_fixed]
  unfold perSecond at h
  unfold fractionText
  split
  · next h0 =>
    subst h0
    unfold readFraction
    split
    · next hs => exact absurd hs (hdot _)
    · rfl
  · split
    · rw [fraction 3 _ (by decide)]
      congr 2
      omega
    · split
      · rw [fraction 6 _ (by decide)]
        congr 2
        omega
      · rw [fraction 9 _ (by decide)]
        congr 2
        omega

/-- The written form of a time of day. -/
def timeText (hour minute second nanos : Nat) : List Char :=
  fixed 2 hour ++ ':' :: fixed 2 minute ++ ':' :: fixed 2 second ++ fractionText nanos

/-- The second sixty is a leap second, which is the last of its minute. -/
theorem readTime_timeText {hour minute second nanos : Nat} (hh : hour < 24) (hm : minute < 60)
    (hs : second ≤ 60) (hn : nanos < perSecond) {rest : List Char} (hr : Undigited rest)
    (hdot : ∀ s, rest ≠ '.' :: s) :
    readTime (timeText hour minute second nanos ++ rest) =
      if second = 60 then some (hour * 3600 + minute * 60 + 59, nanos + perSecond, rest)
      else some (hour * 3600 + minute * 60 + second, nanos, rest) := by
  have hcolon (s : List Char) : skipBlanks (':' :: s) = ':' :: s := skipBlanks_cons rfl s
  simp only [readTime, timeText, List.append_assoc, List.cons_append,
    readField_fixed (show hour < 100 by omega), readField_fixed (show minute < 100 by omega),
    readField_fixed (show second < 100 by omega), hcolon, expect, if_true,
    readFraction_fractionText hn hr hdot, Option.bind_eq_bind, Option.bind_some]
  rw [if_pos ⟨hh, hm, hs⟩]

/-! ### Round trip -/

theorem text_eq (t : Timestamp) : t.text =
    dateText (Calendar.Date.ofNumber (t.seconds / 86400)) ++ 'T' ::
      (timeText ((t.seconds % 86400).toNat / 3600) ((t.seconds % 86400).toNat / 60 % 60)
        ((t.seconds % 86400).toNat % 60 + if perSecond ≤ t.nanos then 1 else 0)
        (if perSecond ≤ t.nanos then t.nanos - perSecond else t.nanos) ++ ['Z']) := by
  simp [text, dateText, timeText]

theorem ofParts?_self (t : Timestamp) : ofParts? t.seconds t.nanos = some t := by
  rw [ofParts?, dif_pos t.representable]

/-- **A point in time is read back from its text.** -/
theorem ofText?_text (t : Timestamp) : ofText? t.text = some t := by
  obtain ⟨-, -, hnanos, hleap⟩ := id t.representable
  have hdate := Calendar.Date.exists_ofNumber (t.seconds / 86400)
  have hnumber := Calendar.Date.number_ofNumber (t.seconds / 86400)
  -- the time of day, with the leap second in its minute
  have htime : readTime (timeText ((t.seconds % 86400).toNat / 3600)
      ((t.seconds % 86400).toNat / 60 % 60)
      ((t.seconds % 86400).toNat % 60 + if perSecond ≤ t.nanos then 1 else 0)
      (if perSecond ≤ t.nanos then t.nanos - perSecond else t.nanos) ++ ['Z']) =
        some ((t.seconds % 86400).toNat, t.nanos, ['Z']) := by
    have hZ : Undigited ['Z'] := by rintro _ ⟨⟩; rfl
    have hn : (if perSecond ≤ t.nanos then t.nanos - perSecond else t.nanos) < perSecond := by
      split <;> omega
    rw [readTime_timeText (by omega) (by omega) (by split <;> omega) hn hZ (by simp)]
    by_cases hl : perSecond ≤ t.nanos
    · have hsec : (t.seconds % 86400).toNat % 60 = 59 := by
        have := hleap hl
        omega
      simp only [hl, if_true, hsec]
      congr 2
      · omega
      · congr 1
        omega
    · simp only [hl, if_false, Nat.add_zero]
      rw [if_neg (by omega)]
      congr 2
      omega
  have hseconds : t.seconds / 86400 * 86400 + (t.seconds % 86400).toNat = t.seconds := by
    omega
  rw [text_eq, ofText?, readDate_dateText hdate]
  simp only [readSeparator, Option.bind_eq_bind, Option.bind_some, htime, hnumber, hseconds]
  simp [skipBlanks_cons (show isBlank 'Z' = false from rfl), readOffset, ofParts?_self]

end Timestamp

end Statechart
