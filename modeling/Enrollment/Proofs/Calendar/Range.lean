import Enrollment.Calendar.Instant

/-! # The range of the calendar

From the first day of the calendar to the last every day has a date, and no date lies outside.
-/

namespace Enrollment.Calendar

def yearLength (year : Int) : Nat := if isLeap year then 366 else 365

theorem yearStart_succ (year : Int) : yearStart (year + 1) = yearStart year + yearLength year := by
  simp only [yearStart, yearLength]
  split
  · next h =>
    have hRule : year % 4 = 0 ∧ (year % 100 ≠ 0 ∨ year % 400 = 0) := by simpa [isLeap] using h
    omega
  · next h =>
    have hRule : ¬(year % 4 = 0 ∧ (year % 100 ≠ 0 ∨ year % 400 = 0)) := by simpa [isLeap] using h
    omega

theorem daysBeforeMonth_succ (year : Int) {month : Nat} (h : 1 ≤ month) :
    daysBeforeMonth year (month + 1) = daysBeforeMonth year month + monthLength year month := by
  obtain ⟨m, rfl⟩ := Nat.exists_eq_add_of_le' h
  rw [daysBeforeMonth, daysBeforeMonth, Nat.add_sub_cancel, Nat.add_sub_cancel, List.range_succ,
    List.foldl_append]
  rfl

theorem daysBeforeMonth_mono (year : Int) {month later : Nat} (hFirst : 1 ≤ month)
    (h : month ≤ later) : daysBeforeMonth year month ≤ daysBeforeMonth year later := by
  induction h with
  | refl => exact Nat.le_refl _
  | step hLater ih =>
    rw [daysBeforeMonth_succ year (Nat.le_trans hFirst hLater)]
    omega

theorem daysBeforeMonth_thirteen (year : Int) : daysBeforeMonth year 13 = yearLength year := by
  unfold yearLength
  cases h : isLeap year <;> simp [daysBeforeMonth, List.range_succ, monthLength, h]

/-- A quantity that starts at or below a value and ends above it passes the value at some step. -/
theorem exists_step {f : Nat → Int} {n : Nat} {x : Int} (hFirst : f 0 ≤ x) (hLast : x < f n) :
    ∃ k < n, f k ≤ x ∧ x < f (k + 1) := by
  induction n with
  | zero => omega
  | succ n ih =>
    by_cases h : x < f n
    · obtain ⟨k, hk, hStep⟩ := ih h
      exact ⟨k, by omega, hStep⟩
    · exact ⟨n, by omega, by omega, hLast⟩

theorem isDate_iff {year : Int} {month day : Nat} : isDate year month day = true ↔
    (1 ≤ month ∧ month ≤ 12) ∧ 1 ≤ day ∧ day ≤ monthLength year month := by
  simp [isDate, and_assoc]

/-- A day that has a date in the calendar. -/
def HasDate (day : Int) : Prop :=
  ∃ year month dayOfMonth, -9999 ≤ year ∧ year ≤ 9999 ∧ isDate year month dayOfMonth = true ∧
    dayNumber year month dayOfMonth = day

theorem yearStart_mono {year later : Int} (h : year ≤ later) : yearStart year ≤ yearStart later := by
  simp only [yearStart]
  omega

theorem dayNumber_lt {year : Int} {month day : Nat} (h : isDate year month day = true) :
    yearStart year ≤ dayNumber year month day ∧ dayNumber year month day < yearStart (year + 1) := by
  obtain ⟨⟨hFirst, hLast⟩, hDay, hLength⟩ := isDate_iff.mp h
  have hMonth := daysBeforeMonth_succ year hFirst
  have hYear : daysBeforeMonth year (month + 1) ≤ daysBeforeMonth year 13 :=
    daysBeforeMonth_mono year (by omega) (by omega)
  rw [daysBeforeMonth_thirteen] at hYear
  rw [yearStart_succ, dayNumber]
  omega

theorem exists_dayNumber {year day : Int} (hFirst : yearStart year ≤ day)
    (hLast : day < yearStart (year + 1)) :
    ∃ month dayOfMonth, isDate year month dayOfMonth = true ∧
      dayNumber year month dayOfMonth = day := by
  have hStart : yearStart year + daysBeforeMonth year (0 + 1) ≤ day := by
    simpa [daysBeforeMonth] using hFirst
  have hEnd : day < yearStart year + daysBeforeMonth year (12 + 1) := by
    rwa [daysBeforeMonth_thirteen, ← yearStart_succ]
  obtain ⟨m, hm, hAfter, hBefore⟩ :=
    exists_step (f := fun m => yearStart year + daysBeforeMonth year (m + 1)) hStart hEnd
  rw [daysBeforeMonth_succ year (by omega)] at hBefore
  refine ⟨m + 1, (day - (yearStart year + daysBeforeMonth year (m + 1))).toNat + 1,
    isDate_iff.mpr ?_, ?_⟩
  · omega
  · rw [dayNumber]
    omega

theorem hasDate_iff (day : Int) :
    HasDate day ↔ yearStart (-9999) ≤ day ∧ day < yearStart 10000 := by
  constructor
  · rintro ⟨year, month, dayOfMonth, hMin, hMax, hDate, rfl⟩
    obtain ⟨hFirst, hLast⟩ := dayNumber_lt hDate
    have hLow : yearStart (-9999) ≤ yearStart year := yearStart_mono hMin
    have hHigh : yearStart (year + 1) ≤ yearStart 10000 := yearStart_mono (by omega)
    omega
  · rintro ⟨hFirst, hLast⟩
    have hBottom : (-9999 : Int) + (0 : Nat) = -9999 := by omega
    have hTop : (-9999 : Int) + (19999 : Nat) = 10000 := by omega
    rw [← hBottom] at hFirst
    rw [← hTop] at hLast
    obtain ⟨k, hk, hAfter, hBefore⟩ := exists_step (f := fun k => yearStart (-9999 + k)) hFirst hLast
    rw [Int.natCast_succ, ← Int.add_assoc] at hBefore
    obtain ⟨month, dayOfMonth, hDate, hNumber⟩ := exists_dayNumber hAfter hBefore
    exact ⟨-9999 + k, month, dayOfMonth, by omega, by omega, hDate, hNumber⟩

/-- An instant is in range when the day on its own clock has a date. -/
theorem Instant.inRange_iff (t : Instant) :
    t.inRange = true ↔ HasDate ((t.unixSeconds + t.offset) / 86400) := by
  rw [hasDate_iff, inRange, firstSecond, lastSecond, minYear, maxYear, secondsPerDay,
    Bool.and_eq_true, decide_eq_true_eq, decide_eq_true_eq]
  generalize yearStart (-9999) = first
  generalize hLast : yearStart (9999 + 1) = last
  rw [show yearStart 10000 = last from hLast]
  omega

/-- The day of an instant in UTC. -/
def Instant.utcDay (i : Instant) : Int := i.unixSeconds / secondsPerDay

theorem le_lastDay_iff (day : Int) : day ≤ dayNumber 9999 12 31 ↔ day < yearStart 10000 := by
  have hLast : dayNumber 9999 12 31 = yearStart 10000 - 1 := by decide
  omega

theorem inRange_utc_iff (nanos : Int) :
    (⟨nanos, 0⟩ : Instant).inRange = true ↔ HasDate (⟨nanos, 0⟩ : Instant).utcDay := by
  rw [Instant.inRange_iff, Int.add_zero]
  rfl

end Enrollment.Calendar
