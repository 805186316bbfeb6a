import Statechart.Calendar
import Mathlib.Tactic.IntervalCases

/-!
Day numbers and dates. The date of a day number is found by estimating the year within a cycle of
four hundred years, and by lines of slope 153/5 through the months. The main statements say that the
estimate is right: the date exists, and its number is the one that it was made from.
-/

namespace Statechart.Calendar

/-- The day `d` of a cycle by its place: the century `e`, the group `i` of four years in it, the
year `t` of these, and the day `v` of the year. Only a leap year has a day 365. -/
structure Place (d e i t v : Int) : Prop where
  eq : d = 36524 * e + 1461 * i + 365 * t + v
  century : 0 ≤ e ∧ e ≤ 3
  group : 0 ≤ i ∧ i ≤ 24
  year : 0 ≤ t ∧ t ≤ 3
  day : 0 ≤ v ∧ v ≤ 365
  leap : v = 365 → t = 3 ∧ (i = 24 → e = 3)

theorem exists_place {d : Int} (h0 : 0 ≤ d) (h1 : d < cycle) : ∃ e i t v, Place d e i t v := by
  unfold cycle at h1
  obtain ⟨e, he⟩ : ∃ e, e = min (d / 36524) 3 := ⟨_, rfl⟩
  obtain ⟨r, hr⟩ : ∃ r, r = d - 36524 * e := ⟨_, rfl⟩
  obtain ⟨i, hi⟩ : ∃ i, i = r / 1461 := ⟨_, rfl⟩
  obtain ⟨s, hs⟩ : ∃ s, s = r - 1461 * i := ⟨_, rfl⟩
  obtain ⟨t, ht⟩ : ∃ t, t = min (s / 365) 3 := ⟨_, rfl⟩
  exact ⟨e, i, t, s - 365 * t, by omega, by omega, by omega, by omega, by omega, by omega⟩

namespace Place

variable {d e i t v : Int}

/-- **The estimate of the year is right.** What is taken off for leap days is one day too much or
too little at most, and only where this does not move the year. -/
theorem estimate (h : Place d e i t v) :
    (d - d / 1460 + d / 36524 - d / 146096) / 365 = 100 * e + 4 * i + t := by
  obtain ⟨hd, he, hi, ht, hv, hl⟩ := h
  have hcentury : d / 36524 - d / 146096 = e := by
    by_cases hlast : d = 146096
    · omega
    · have hlt : d < 36524 * (e + 1) := by omega
      have hq : d / 36524 = e := by omega
      have hd' : d < 146096 := by omega
      omega
  have hgroup : d / 1460 = 25 * e + i ∧ v < 365 ∨ d / 1460 = 25 * e + i + 1 ∧ 0 < v := by
    have hsplit : d = 1460 * (25 * e + i) + (24 * e + i + 365 * t + v) := by omega
    have hlt : 24 * e + i + 365 * t + v < 2920 := by omega
    by_cases hs : 24 * e + i + 365 * t + v < 1460
    · exact .inl ⟨by omega, by omega⟩
    · exact .inr ⟨by omega, by omega⟩
  omega

/-- The days of the cycle before the year. -/
theorem before (h : Place d e i t v) :
    365 * (100 * e + 4 * i + t) + (100 * e + 4 * i + t) / 4 - (100 * e + 4 * i + t) / 100 =
      d - v := by
  obtain ⟨hd, he, hi, ht, hv, -⟩ := h
  have h4 : (100 * e + 4 * i + t) / 4 = 25 * e + i := by omega
  have h100 : (100 * e + 4 * i + t) / 100 = e := by omega
  rw [h4, h100]
  omega

/-- Where a year has a day 365, the next one, in which this day falls, is a leap year. -/
theorem isLeap (h : Place d e i t v) (hv : v = 365) (c : Int) :
    isLeap (400 * c + (100 * e + 4 * i + t) + 1) = true := by
  obtain ⟨-, he, hi, -, -, hl⟩ := h
  obtain ⟨rfl, hlast⟩ := hl hv
  have h4 : (400 * c + (100 * e + 4 * i + 3) + 1) % 4 = 0 := by omega
  have h100 : (400 * c + (100 * e + 4 * i + 3) + 1) % 100 ≠ 0 ∨
      (400 * c + (100 * e + 4 * i + 3) + 1) % 400 = 0 := by
    by_cases hi' : i = 24
    · right
      have he' := hlast hi'
      omega
    · left
      omega
  simpa [Calendar.isLeap, h4] using h100

end Place

/-! ### Years that begin in March -/

/-- The month in which a day of a year that begins in March falls, counted from March. -/
def marchMonth (v : Int) : Int := (5 * v + 2) / 153

/-- The date of the day `v` of the year `y`, which begins in March. -/
def Date.ofMarch (y v : Int) : Date :=
  let m := marchMonth v
  let month := if m < 10 then m + 3 else m - 9
  ⟨y + (if month ≤ 2 then 1 else 0), month.toNat, (v - (153 * m + 2) / 5 + 1).toNat⟩

theorem marchMonth_bounds {v : Int} (h0 : 0 ≤ v) (h1 : v ≤ 365) :
    0 ≤ marchMonth v ∧ marchMonth v ≤ 11 := by
  unfold marchMonth
  omega

/-- The days of a month lie between its first day and the first day of the next month. -/
theorem marchMonth_spec (v : Int) :
    (153 * marchMonth v + 2) / 5 ≤ v ∧ v < (153 * (marchMonth v + 1) + 2) / 5 := by
  unfold marchMonth
  omega

theorem Date.exists_ofMarch {y v : Int} (h0 : 0 ≤ v) (h1 : v ≤ 365)
    (hl : v = 365 → isLeap (y + 1) = true) : (Date.ofMarch y v).Exists := by
  obtain ⟨hm0, hm1⟩ := marchMonth_bounds h0 h1
  obtain ⟨hlo, hhi⟩ := marchMonth_spec v
  unfold Date.Exists Date.ofMarch
  generalize marchMonth v = m at *
  interval_cases m <;> simp only [monthLength] <;> simp <;> try omega
  -- the last month, February, has a day more in a leap year
  split
  · omega
  · next hy =>
    have hv : v ≠ 365 := fun hv => hy (hl hv)
    omega

theorem Date.number_ofMarch {y v : Int} (h0 : 0 ≤ v) (h1 : v ≤ 365) :
    (Date.ofMarch y v).number =
      y / 400 * cycle + (y % 400 * 365 + y % 400 / 4 - y % 400 / 100 + v) - epoch := by
  obtain ⟨hm0, hm1⟩ := marchMonth_bounds h0 h1
  obtain ⟨hlo, hhi⟩ := marchMonth_spec v
  unfold Date.number Date.ofMarch
  generalize marchMonth v = m at *
  interval_cases m <;> simp <;> omega

/-! ### Dates of day numbers -/

theorem Date.ofNumber_eq {n e i t v : Int} (h : Place ((n + epoch) % cycle) e i t v) :
    Date.ofNumber n = Date.ofMarch (400 * ((n + epoch) / cycle) + (100 * e + 4 * i + t)) v := by
  have hv : (n + epoch) % cycle - (365 * (100 * e + 4 * i + t) + (100 * e + 4 * i + t) / 4 -
      (100 * e + 4 * i + t) / 100) = v := by
    rw [h.before]
    omega
  simp only [Date.ofNumber, h.estimate, hv, Date.ofMarch, marchMonth]
  congr 1
  omega

theorem exists_place_of_number (n : Int) : ∃ e i t v, Place ((n + epoch) % cycle) e i t v :=
  exists_place (Int.emod_nonneg _ (by decide)) (Int.emod_lt_of_pos _ (by decide))

/-- **The date of a day number exists.** -/
theorem Date.exists_ofNumber (n : Int) : (Date.ofNumber n).Exists := by
  obtain ⟨e, i, t, v, h⟩ := exists_place_of_number n
  rw [ofNumber_eq h]
  exact exists_ofMarch h.day.1 h.day.2 fun hv => h.isLeap hv _

/-- **A day number is the number of its date.** -/
theorem Date.number_ofNumber (n : Int) : (Date.ofNumber n).number = n := by
  obtain ⟨e, i, t, v, h⟩ := exists_place_of_number n
  rw [ofNumber_eq h, number_ofMarch h.day.1 h.day.2]
  have hy : (400 * ((n + epoch) / cycle) + (100 * e + 4 * i + t)) % 400 =
      100 * e + 4 * i + t := by
    have := h.century
    have := h.group
    have := h.year
    omega
  have hq : (400 * ((n + epoch) / cycle) + (100 * e + 4 * i + t)) / 400 = (n + epoch) / cycle := by
    omega
  have hbefore := h.before
  have hdiv := Int.mul_ediv_add_emod (n + epoch) cycle
  rw [hy, hq, Int.mul_comm _ cycle]
  omega

/-- A year is not farther away than its days. -/
theorem Date.natAbs_year_le (n : Int) : (Date.ofNumber n).year.natAbs ≤ n.natAbs + 2000 := by
  obtain ⟨e, i, t, v, h⟩ := exists_place_of_number n
  rw [ofNumber_eq h]
  obtain ⟨-, he, hi, ht, -, -⟩ := h
  simp only [ofMarch, epoch, cycle]
  split <;> omega

end Statechart.Calendar
