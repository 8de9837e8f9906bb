import Enrollment.Calendar.Instant

/-! # Renewal schedules

A scan runs once a day at a time of day in UTC.
-/

namespace Enrollment

structure TimeOfDay where
  hour : Nat
  minute : Nat
  second : Nat
  nanosecond : Nat
  hour_lt : hour < 24
  minute_lt : minute < 60
  second_lt : second < 60
  nanosecond_lt : nanosecond < 1000000000
  deriving DecidableEq, Repr

inductive TimeOfDayError where
  | hour
  | minute
  deriving DecidableEq, Repr

namespace TimeOfDay

/-- The start of a minute. -/
def ofHourMinute (hour minute : Nat) : Except TimeOfDayError TimeOfDay :=
  if hour_lt : hour < 24 then
    if minute_lt : minute < 60 then
      .ok { hour, minute, second := 0, nanosecond := 0, hour_lt, minute_lt,
            second_lt := by decide, nanosecond_lt := by decide }
    else .error .minute
  else .error .hour

def secondOfDay (t : TimeOfDay) : Int := 3600 * t.hour + 60 * t.minute + t.second

/-- This time on the day of an instant in UTC. -/
def onDayOf (t : TimeOfDay) (utc : Calendar.Instant) : Calendar.Instant :=
  let day := utc.unixSeconds / Calendar.secondsPerDay
  .ofUnix (day * Calendar.secondsPerDay + t.secondOfDay) t.nanosecond 0

/-- The first time of this kind that is later than `now`, unless it is past the calendar. -/
def nextAfter? (t : TimeOfDay) (now : Calendar.Instant) : Option Calendar.Instant :=
  match now.toUtc? with
  | none => none
  | some utc =>
    let today := t.onDayOf utc
    if utc < today then some today else today.addSpan? (.ofDays 1)

/-- How long it is until that time. -/
def delay? (t : TimeOfDay) (now : Calendar.Instant) : Option Calendar.Span :=
  (t.nextAfter? now).map fun next => next.since now

/-- The time of the run after the one at `slot`, which was over when the clock read `clock`. A clock
that has been set back does not bring the same run again. -/
def following? (t : TimeOfDay) (slot clock : Calendar.Instant) : Option Calendar.Instant :=
  t.nextAfter? (if clock < slot then slot else clock)

end TimeOfDay

structure RenewalSchedule where
  time : TimeOfDay
  threshold : Calendar.Span
  deriving DecidableEq, Repr

end Enrollment
