import Mathlib.Algebra.Ring.Nat
import Mathlib.Data.Nat.Basic
import Mathlib.Order.Bounds.Basic

/-! The proleptic Gregorian calendar of `datetime`, to the microsecond. A date that does
not exist cannot be built. Instants are counted from the first day of year 1. -/

namespace Base

def isLeap (year : ℕ) : Bool := year % 4 = 0 && (year % 100 ≠ 0 || year % 400 = 0)

def daysInMonth (year month : ℕ) : ℕ :=
  if month = 2 then (if isLeap year then 29 else 28)
  else if month ∈ [4, 6, 9, 11] then 30
  else 31

structure Date where
  year : ℕ
  month : ℕ
  day : ℕ
  year_mem : 1 ≤ year ∧ year ≤ 9999
  month_mem : 1 ≤ month ∧ month ≤ 12
  day_mem : 1 ≤ day ∧ day ≤ daysInMonth year month
deriving DecidableEq

structure Time where
  hour : ℕ
  minute : ℕ
  second : ℕ
  microsecond : ℕ
  hour_lt : hour < 24
  minute_lt : minute < 60
  second_lt : second < 60
  microsecond_lt : microsecond < 1000000
deriving DecidableEq

structure DateTime where
  date : Date
  time : Time
deriving DecidableEq

def daysBeforeYear (year : ℕ) : ℕ :=
  (year - 1) * 365 + (year - 1) / 4 - (year - 1) / 100 + (year - 1) / 400

def daysBeforeMonth (year month : ℕ) : ℕ :=
  ((List.range month).map fun m => if m = 0 then 0 else daysInMonth year m).sum

namespace Date

def toOrdinal (d : Date) : ℕ := daysBeforeYear d.year + daysBeforeMonth d.year d.month + d.day

def isLastOfMonth (d : Date) : Bool := d.day = daysInMonth d.year d.month

/-- The same month, another day, if the month has it. -/
def withDay (d : Date) (day : ℕ) : Option Date :=
  if h : 1 ≤ day ∧ day ≤ daysInMonth d.year d.month then
    some ⟨d.year, d.month, day, d.year_mem, d.month_mem, h⟩
  else none

theorem withDay_succ_eq_none_iff (d : Date) :
    d.withDay (d.day + 1) = none ↔ d.isLastOfMonth = true := by
  have hday := d.day_mem
  unfold withDay isLastOfMonth
  split_ifs with h
  · simp only [decide_eq_true_eq, false_iff]
    omega
  · simp only [decide_eq_true_eq, true_iff]
    omega

/-- Days of one month follow each other. -/
theorem toOrdinal_withDay_succ {d d' : Date} (h : d.withDay (d.day + 1) = some d') :
    d'.toOrdinal = d.toOrdinal + 1 := by
  unfold withDay at h
  split_ifs at h
  obtain rfl := Option.some.inj h
  rfl

end Date

def microsPerDay : ℕ := 24 * 60 * 60 * 1000000

def Time.micros (t : Time) : ℕ :=
  ((t.hour * 60 + t.minute) * 60 + t.second) * 1000000 + t.microsecond

theorem Time.micros_lt (t : Time) : t.micros < microsPerDay := by
  have hh := t.hour_lt
  have hm := t.minute_lt
  have hs := t.second_lt
  have hu := t.microsecond_lt
  unfold Time.micros microsPerDay
  omega

/-- Microseconds since the beginning of the calendar. -/
def DateTime.instant (dt : DateTime) : ℕ := dt.date.toOrdinal * microsPerDay + dt.time.micros

/-- The time of day of an instant, in microseconds. -/
def timeOfDay (u : ℕ) : ℕ := u % microsPerDay

@[simp] theorem DateTime.timeOfDay_instant (dt : DateTime) :
    timeOfDay dt.instant = dt.time.micros := by
  rw [timeOfDay, DateTime.instant, Nat.mul_add_mod_of_lt dt.time.micros_lt]

/-- Later today, or else tomorrow: the next time the clock shows `t`. -/
theorem isLeast_timeOfDay (day : ℕ) {now t : ℕ} (hnow : now < microsPerDay) (ht : t < microsPerDay) :
    IsLeast {u | day * microsPerDay + now < u ∧ timeOfDay u = t}
      ((if now < t then day else day + 1) * microsPerDay + t) := by
  constructor
  · refine ⟨?_, Nat.mul_add_mod_of_lt ht⟩
    split_ifs with h
    · exact Nat.add_lt_add_left h _
    · rw [Nat.succ_mul]
      omega
  · rintro u ⟨hlt, rfl⟩
    have hu : u / microsPerDay * microsPerDay + timeOfDay u = u := Nat.div_add_mod' u microsPerDay
    have hmod : timeOfDay u < microsPerDay := ht
    -- the day of `u`, and which one it can be
    have hday : (if now < timeOfDay u then day else day + 1) ≤ u / microsPerDay := by
      rw [← hu] at hlt
      split_ifs with h
      · by_contra hlow
        have hsucc := Nat.mul_le_mul_right microsPerDay (Nat.succ_le_of_lt (not_le.1 hlow))
        rw [Nat.succ_mul] at hsucc
        omega
      · by_contra hlow
        have hsame := Nat.mul_le_mul_right microsPerDay (Nat.le_of_lt_succ (not_le.1 hlow))
        omega
    calc (if now < timeOfDay u then day else day + 1) * microsPerDay + timeOfDay u
        ≤ u / microsPerDay * microsPerDay + timeOfDay u :=
          Nat.add_le_add_right (Nat.mul_le_mul_right _ hday) _
      _ = u := hu

end Base
