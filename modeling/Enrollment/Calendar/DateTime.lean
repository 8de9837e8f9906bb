import Enrollment.Calendar.Instant
import Enrollment.Json.Reader

/-! # Date-times in documents

A date-time has the form `2024-07-01T12:00:00.5+02:00`. Any byte may stand between date and time;
of a fraction nine digits count. A second 60 is read as the last nanosecond before it, and only at
the end of a month in UTC.
-/

namespace Enrollment.Calendar

namespace DateTime

/-- Exactly `n` decimal digits. -/
def digits : Nat → Bytes → Option (Nat × Bytes)
  | 0, bytes => some (0, bytes)
  | n + 1, b :: rest => do
    let d ← Json.digit? b
    let (value, rest) ← digits n rest
    return (d * Nat.pow 10 n + value, rest)
  | _ + 1, [] => none

def byte (b : UInt8) : Bytes → Option Bytes
  | c :: rest => if c = b then some rest else none
  | [] => none

def dash : UInt8 := 0x2D

def colon : UInt8 := 0x3A

/-- A fraction in nanoseconds; the text may have none. -/
def fraction (bytes : Bytes) : Option (Nat × Bytes) :=
  match byte 0x2E bytes with
  | none => some (0, bytes)
  | some rest =>
    match Json.scanDigits rest with
    | ([], _) => none
    | (ds, rest) =>
      let kept := ds.take 9
      some (kept.foldl (fun n d => n * 10 + d) 0 * Nat.pow 10 (9 - kept.length), rest)

/-- The offset in seconds. -/
def offset : Bytes → Option (Int × Bytes)
  | [] => none
  | b :: rest =>
    if b = 0x5A ∨ b = 0x7A then some (0, rest)
    else if b = 0x2B ∨ b = 0x2D then do
      let (hours, rest) ← digits 2 rest
      let rest ← byte colon rest
      let (minutes, rest) ← digits 2 rest
      if 23 < hours ∨ 59 < minutes then none
      let seconds : Int := hours * 3600 + minutes * 60
      return (if b = 0x2D then -seconds else seconds, rest)
    else none

/-- Whether an instant is in the last second of a month in UTC. -/
def endsMonth (t : Instant) (year : Int) : Bool :=
  let next := t.unixSeconds + 1
  next % secondsPerDay = 0 &&
    [year - 1, year, year + 1].any fun y =>
      (List.range 12).any fun m => dayNumber y (m + 1) 1 = next / secondsPerDay

def parse? (bytes : Bytes) : Option Instant := do
  let (year, rest) ← digits 4 bytes
  let rest ← byte dash rest
  let (month, rest) ← digits 2 rest
  let rest ← byte dash rest
  let (day, rest) ← digits 2 rest
  let rest ← match rest with
    | _ :: rest => some rest
    | [] => none
  let (hour, rest) ← digits 2 rest
  let rest ← byte colon rest
  let (minute, rest) ← digits 2 rest
  let rest ← byte colon rest
  let (second, rest) ← digits 2 rest
  let (nanos, rest) ← fraction rest
  let (offset, rest) ← offset rest
  if rest ≠ [] then none
  let leap := second = 60
  let (second, nanos) := if leap then (59, 999999999) else (second, nanos)
  if isDate year month day = false ∨ 23 < hour ∨ 59 < minute ∨ 59 < second then none
  let localSecond := dayNumber year month day * secondsPerDay +
    (hour * 3600 + minute * 60 + second : Nat)
  let t := Instant.ofUnix (localSecond - offset) nanos offset
  if leap ∧ endsMonth t year = false then none
  return t

def reader : Json.Reader Instant :=
  Json.Reader.textAs "an RFC3339-formatted `OffsetDateTime`" fun s =>
    match parse? (Utf8.encode s) with
    | some t => .ok t
    | none => .error .dateTime

end DateTime

end Enrollment.Calendar
