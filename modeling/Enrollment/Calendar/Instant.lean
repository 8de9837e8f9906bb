import Enrollment.Calendar.Day

/-! # Instants and spans

An instant is a point of time together with the offset of the clock that showed it. Instants are
compared by the point of time alone, while the range of the calendar binds the local time.
-/

namespace Enrollment.Calendar

def nanosPerSecond : Int := 1000000000

/-- A length of time, possibly negative, in nanoseconds. -/
structure Span where
  nanos : Int
  deriving DecidableEq, Repr

namespace Span

def ofSeconds (seconds : Int) : Span := ⟨seconds * nanosPerSecond⟩

def ofDays (days : Int) : Span := ofSeconds (days * secondsPerDay)

def wholeSeconds (s : Span) : Int := s.nanos.tdiv nanosPerSecond

def subsecNanos (s : Span) : Int := s.nanos.tmod nanosPerSecond

def isNegative (s : Span) : Bool := s.nanos < 0

end Span

/-- Nanoseconds since the start of 1970 in UTC, and seconds that the local clock is ahead. -/
structure Instant where
  nanos : Int
  offset : Int
  deriving DecidableEq, Repr

namespace Instant

def ofUnix (seconds nanos offset : Int) : Instant := ⟨seconds * nanosPerSecond + nanos, offset⟩

def unixSeconds (t : Instant) : Int := t.nanos / nanosPerSecond

def subsecNanos (t : Instant) : Int := t.nanos % nanosPerSecond

/-- Whether the local time is in the calendar. -/
def inRange (t : Instant) : Bool :=
  let localSecond := t.unixSeconds + t.offset
  firstSecond ≤ localSecond && localSecond ≤ lastSecond

def addSpan? (t : Instant) (s : Span) : Option Instant :=
  let later : Instant := ⟨t.nanos + s.nanos, t.offset⟩
  if later.inRange then some later else none

def since (t earlier : Instant) : Span := ⟨t.nanos - earlier.nanos⟩

/-- The same point of time on a clock at UTC, when its date is in the calendar. -/
def toUtc? (t : Instant) : Option Instant :=
  let utc : Instant := ⟨t.nanos, 0⟩
  if utc.inRange then some utc else none

instance : LE Instant := ⟨fun a b => a.nanos ≤ b.nanos⟩

instance : LT Instant := ⟨fun a b => a.nanos < b.nanos⟩

instance (a b : Instant) : Decidable (a ≤ b) := inferInstanceAs (Decidable (a.nanos ≤ b.nanos))

instance (a b : Instant) : Decidable (a < b) := inferInstanceAs (Decidable (a.nanos < b.nanos))

end Instant

end Enrollment.Calendar
