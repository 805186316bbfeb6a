import Statechart.Calendar
import Statechart.Text

/-!
Points in time in UTC, to the nanosecond and with leap seconds, and their written form.
-/

namespace Statechart

namespace Timestamp

def perSecond : Nat := 1000000000

/-- The first representable second: the first one of the year -262143. -/
def firstSecond : Int := (Calendar.Date.mk (-262143) 1 1).number * 86400

/-- The last representable second: the last one of the year 262142. -/
def lastSecond : Int := (Calendar.Date.mk 262142 12 31).number * 86400 + 86399

/-- Whether a second and the nanoseconds in it denote a point in time. Nanoseconds beyond the first
thousand million belong to a leap second, which is the last one of a minute. -/
def Representable (seconds : Int) (nanos : Nat) : Prop :=
  firstSecond ≤ seconds ∧ seconds ≤ lastSecond ∧ nanos < 2 * perSecond ∧
    (perSecond ≤ nanos → seconds % 60 = 59)

instance (seconds : Int) (nanos : Nat) : Decidable (Representable seconds nanos) := by
  unfold Representable; infer_instance

end Timestamp

structure Timestamp where
  /-- The seconds since 1970-01-01T00:00:00Z. -/
  seconds : Int
  /-- The nanoseconds since the second; in a leap second they go on beyond a thousand million. -/
  nanos : Nat
  representable : Timestamp.Representable seconds nanos

namespace Timestamp

instance : DecidableEq Timestamp := fun a b =>
  if h : a.seconds = b.seconds ∧ a.nanos = b.nanos then
    isTrue (by cases a; cases b; simp_all)
  else isFalse (by rintro rfl; exact h ⟨rfl, rfl⟩)

/-- The point in time with these seconds and nanoseconds, if there is one. -/
def ofParts? (seconds : Int) (nanos : Nat) : Option Timestamp :=
  if h : Representable seconds nanos then some ⟨seconds, nanos, h⟩ else none

/-- 1970-01-01T00:00:00Z. -/
def epoch : Timestamp := ⟨0, 0, by decide⟩

/-- The digits of a year: four for the years from zero to 9999, else a sign and at least four. -/
def yearText (year : Int) : List Char :=
  if 0 ≤ year ∧ year ≤ 9999 then Text.fixed 4 year.toNat
  else (if year < 0 then '-' else '+') :: Text.padded 4 year.natAbs

/-- The digits of a fraction of a second: none, three, six or nine. -/
def fractionText (nanos : Nat) : List Char :=
  if nanos = 0 then []
  else if nanos % 1000000 = 0 then '.' :: Text.fixed 3 (nanos / 1000000)
  else if nanos % 1000 = 0 then '.' :: Text.fixed 6 (nanos / 1000)
  else '.' :: Text.fixed 9 nanos

/-- The written form, `2024-01-02T03:04:05.678Z`. A leap second is the sixtieth of its minute. -/
def text (t : Timestamp) : List Char :=
  let date := Calendar.Date.ofNumber (t.seconds / 86400)
  let inDay := (t.seconds % 86400).toNat
  let leap := perSecond ≤ t.nanos
  let second := inDay % 60 + if leap then 1 else 0
  let nanos := if leap then t.nanos - perSecond else t.nanos
  yearText date.year ++ '-' :: Text.fixed 2 date.month ++ '-' :: Text.fixed 2 date.day ++
    'T' :: Text.fixed 2 (inDay / 3600) ++ ':' :: Text.fixed 2 (inDay / 60 % 60) ++
    ':' :: Text.fixed 2 second ++ fractionText nanos ++ ['Z']

end Timestamp

end Statechart
