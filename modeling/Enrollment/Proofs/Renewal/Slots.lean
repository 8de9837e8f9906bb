import Enrollment.Issuing.Renewing
import Enrollment.Proofs.Calendar.Range
import Enrollment.Proofs.Procedure.Completion

/-! # The slots of renewal

A slot is an instant at which a clock at UTC shows the time of day of a schedule. The next run is at
the first slot later than now, and there is none when that slot lies past the calendar. A scheduler
goes on from slot to later slot, whatever the clock reads in between.
-/

namespace Enrollment

open Calendar (Instant Span HasDate dayNumber yearStart hasDate_iff)

namespace TimeOfDay

variable {t : TimeOfDay} {now later slot other next clock i : Instant}

/-- A clock at UTC shows a time of day. -/
structure ShownAt (t : TimeOfDay) (i : Instant) : Prop where
  hour_eq : i.unixSeconds / 3600 % 24 = t.hour
  minute_eq : i.unixSeconds / 60 % 60 = t.minute
  second_eq : i.unixSeconds % 60 = t.second
  nanosecond_eq : i.subsecNanos = t.nanosecond

/-- The first slot later than `now`, on a clock at UTC. -/
structure FirstAfter (t : TimeOfDay) (now slot : Instant) : Prop where
  utc : slot.offset = 0
  shown : t.ShownAt slot
  later : now < slot
  least : ∀ other, t.ShownAt other → now < other → slot ≤ other

def nanoOfDay (t : TimeOfDay) : Int := t.secondOfDay * 1000000000 + t.nanosecond

theorem nanoOfDay_bounds (t : TimeOfDay) : 0 ≤ t.nanoOfDay ∧ t.nanoOfDay < 86400000000000 := by
  have hHour := t.hour_lt
  have hMinute := t.minute_lt
  have hSecond := t.second_lt
  have hNano := t.nanosecond_lt
  simp only [nanoOfDay, secondOfDay]
  omega

theorem shownAt_iff : t.ShownAt i ↔ i.nanos % 86400000000000 = t.nanoOfDay := by
  have hHour := t.hour_lt
  have hMinute := t.minute_lt
  have hSecond := t.second_lt
  have hNano := t.nanosecond_lt
  constructor
  · rintro ⟨h₁, h₂, h₃, h₄⟩
    simp only [Instant.unixSeconds, Instant.subsecNanos, Calendar.nanosPerSecond] at h₁ h₂ h₃ h₄
    simp only [nanoOfDay, secondOfDay]
    omega
  · intro h
    simp only [nanoOfDay, secondOfDay] at h
    constructor <;>
      simp only [Instant.unixSeconds, Instant.subsecNanos, Calendar.nanosPerSecond] <;> omega

theorem nanos_onDayOf (t : TimeOfDay) (i : Instant) :
    (t.onDayOf i).nanos = i.utcDay * 86400000000000 + t.nanoOfDay := by
  simp only [onDayOf, Instant.ofUnix, Instant.utcDay, nanoOfDay, Calendar.secondsPerDay,
    Calendar.nanosPerSecond]
  omega

theorem utcDay_eq (i : Instant) : i.utcDay = i.nanos / 86400000000000 := by
  simp only [Instant.utcDay, Instant.unixSeconds, Calendar.secondsPerDay, Calendar.nanosPerSecond]
  omega

/-- The first slot after an instant, be it in the calendar or not. -/
def slotAfter (t : TimeOfDay) (now : Instant) : Instant :=
  if now < t.onDayOf now then t.onDayOf now else ⟨(t.onDayOf now).nanos + 86400000000000, 0⟩

theorem nanos_slotAfter (t : TimeOfDay) (now : Instant) :
    (t.slotAfter now).nanos % 86400000000000 = t.nanoOfDay ∧
      now.nanos < (t.slotAfter now).nanos ∧
      (t.slotAfter now).nanos ≤ now.nanos + 86400000000000 := by
  have hBounds := t.nanoOfDay_bounds
  have hToday := t.nanos_onDayOf now
  rw [utcDay_eq] at hToday
  unfold slotAfter
  split
  · next h =>
    change now.nanos < _ at h
    omega
  · next h =>
    change ¬now.nanos < _ at h
    dsimp only
    omega

theorem firstAfter_slotAfter (t : TimeOfDay) (now : Instant) :
    t.FirstAfter now (t.slotAfter now) := by
  obtain ⟨hShown, hLater, hDay⟩ := t.nanos_slotAfter now
  constructor
  · unfold slotAfter
    split <;> rfl
  · exact shownAt_iff.mpr hShown
  · exact hLater
  · intro other hOther hAfter
    have hOther := shownAt_iff.mp hOther
    change now.nanos < other.nanos at hAfter
    change (t.slotAfter now).nanos ≤ other.nanos
    omega

theorem FirstAfter.unique (h : t.FirstAfter now slot) (hOther : t.FirstAfter now other) :
    slot = other := by
  have hLe : slot.nanos ≤ other.nanos := h.least other hOther.shown hOther.later
  have hGe : other.nanos ≤ slot.nanos := hOther.least slot h.shown h.later
  obtain ⟨nanos, offset⟩ := slot
  obtain ⟨nanos', offset'⟩ := other
  obtain rfl : offset = 0 := h.utc
  obtain rfl : offset' = 0 := hOther.utc
  congr
  exact Int.le_antisymm hLe hGe

theorem firstAfter_iff : t.FirstAfter now slot ↔ slot = t.slotAfter now := by
  constructor
  · intro h
    exact h.unique (t.firstAfter_slotAfter now)
  · rintro rfl
    exact t.firstAfter_slotAfter now

theorem slotAfter_mono (h : now ≤ later) : t.slotAfter now ≤ t.slotAfter later := by
  obtain ⟨-, hShown, hLater, -⟩ := t.firstAfter_slotAfter later
  apply (t.firstAfter_slotAfter now).least _ hShown
  exact Int.lt_of_le_of_lt h hLater

theorem slotAfter_slotAfter (t : TimeOfDay) (now : Instant) :
    t.slotAfter (t.slotAfter now) = ⟨(t.slotAfter now).nanos + 86400000000000, 0⟩ := by
  obtain ⟨hShown, hLater, hDay⟩ := t.nanos_slotAfter now
  symm
  apply firstAfter_iff.mp
  constructor
  · rfl
  · apply shownAt_iff.mpr
    dsimp only
    omega
  · change (t.slotAfter now).nanos < (t.slotAfter now).nanos + 86400000000000
    omega
  · intro other hOther hAfter
    have hOther := shownAt_iff.mp hOther
    change (t.slotAfter now).nanos < other.nanos at hAfter
    change (t.slotAfter now).nanos + 86400000000000 ≤ other.nanos
    omega

section

open Calendar (inRange_utc_iff le_lastDay_iff)

theorem toUtc?_of_hasDate (h : HasDate now.utcDay) : now.toUtc? = some ⟨now.nanos, 0⟩ :=
  if_pos ((inRange_utc_iff now.nanos).mpr h)

theorem toUtc?_of_not_hasDate (h : ¬HasDate now.utcDay) : now.toUtc? = none :=
  if_neg (mt (inRange_utc_iff now.nanos).mp h)

-- Towards the past the calendar cannot be left, since the slot is later than an instant in it.
theorem hasDate_slotAfter_iff (h : HasDate now.utcDay) :
    HasDate (t.slotAfter now).utcDay ↔ (t.slotAfter now).utcDay ≤ dayNumber 9999 12 31 := by
  obtain ⟨-, hLater, -⟩ := t.nanos_slotAfter now
  rw [hasDate_iff, utcDay_eq] at h
  rw [hasDate_iff, le_lastDay_iff, utcDay_eq]
  omega

theorem utcDay_onDayOf (t : TimeOfDay) (i : Instant) : (t.onDayOf i).utcDay = i.utcDay := by
  have hBounds := t.nanoOfDay_bounds
  rw [utcDay_eq (t.onDayOf i), nanos_onDayOf]
  omega

theorem nextAfter?_eq (h : HasDate now.utcDay) : t.nextAfter? now =
    if (t.slotAfter now).utcDay ≤ dayNumber 9999 12 31 then some (t.slotAfter now) else none := by
  have hLast := hasDate_slotAfter_iff (t := t) h
  have hUtc : t.nextAfter? now =
      if now < t.onDayOf now then some (t.onDayOf now)
      else (t.onDayOf now).addSpan? (.ofDays 1) := by
    rw [nextAfter?, toUtc?_of_hasDate h]
    rfl
  rw [hUtc]
  -- Today's slot is in the calendar with today; only the move to tomorrow can leave it.
  by_cases hToday : now < t.onDayOf now
  · have hSlot : t.slotAfter now = t.onDayOf now := if_pos hToday
    rw [hSlot, utcDay_onDayOf] at hLast
    rw [hSlot, utcDay_onDayOf, if_pos hToday, if_pos (hLast.mp h)]
  · have hSlot : t.slotAfter now = ⟨(t.onDayOf now).nanos + 86400000000000, 0⟩ := if_neg hToday
    rw [hSlot, ← inRange_utc_iff] at hLast
    rw [hSlot, if_neg hToday]
    split
    · next hDay => exact if_pos (hLast.mpr hDay)
    · next hDay => exact if_neg (mt hLast.mp hDay)

theorem nextAfter?_of_not_hasDate (h : ¬HasDate now.utcDay) : t.nextAfter? now = none := by
  rw [nextAfter?, toUtc?_of_not_hasDate h]

theorem hasDate_of_nextAfter? (h : t.nextAfter? now = some slot) : HasDate now.utcDay := by
  refine Classical.byContradiction fun hDate => ?_
  rw [nextAfter?_of_not_hasDate hDate] at h
  cases h

theorem nextAfter?_eq_some_iff (h : HasDate now.utcDay) : t.nextAfter? now = some slot ↔
    t.FirstAfter now slot ∧ slot.utcDay ≤ dayNumber 9999 12 31 := by
  rw [nextAfter?_eq h, firstAfter_iff]
  constructor
  · intro hSlot
    split at hSlot
    · next hDay =>
      cases hSlot
      exact ⟨rfl, hDay⟩
    · cases hSlot
  · rintro ⟨rfl, hDay⟩
    exact if_pos hDay

theorem nextAfter?_eq_none_iff (h : HasDate now.utcDay) : t.nextAfter? now = none ↔
    ∃ slot, t.FirstAfter now slot ∧ dayNumber 9999 12 31 < slot.utcDay := by
  rw [nextAfter?_eq h]
  constructor
  · intro hNone
    refine ⟨t.slotAfter now, t.firstAfter_slotAfter now, ?_⟩
    split at hNone
    · cases hNone
    · next hDay => exact Int.not_le.mp hDay
  · rintro ⟨slot, hSlot, hDay⟩
    obtain rfl := firstAfter_iff.mp hSlot
    exact if_neg (Int.not_le.mpr hDay)

theorem firstAfter_of_nextAfter? (h : t.nextAfter? now = some slot) : t.FirstAfter now slot :=
  ((nextAfter?_eq_some_iff (hasDate_of_nextAfter? h)).mp h).1

theorem nextAfter?_congr (t : TimeOfDay) (h : now.nanos = other.nanos) :
    t.nextAfter? now = t.nextAfter? other := by
  have hUtc : now.toUtc? = other.toUtc? := by rw [Instant.toUtc?, Instant.toUtc?, h]
  rw [nextAfter?, nextAfter?, hUtc]

theorem nextAfter?_mono (h : HasDate now.utcDay) (hLater : now ≤ later)
    (hSlot : t.nextAfter? later = some slot) :
    ∃ earlier, t.nextAfter? now = some earlier ∧ earlier ≤ slot := by
  obtain ⟨hFirst, hDay⟩ := (nextAfter?_eq_some_iff (hasDate_of_nextAfter? hSlot)).mp hSlot
  have hMono : t.slotAfter now ≤ slot := by
    rw [firstAfter_iff.mp hFirst]
    exact slotAfter_mono hLater
  refine ⟨t.slotAfter now, ?_, hMono⟩
  apply (nextAfter?_eq_some_iff h).mpr
  refine ⟨t.firstAfter_slotAfter now, ?_⟩
  change (t.slotAfter now).nanos ≤ slot.nanos at hMono
  rw [utcDay_eq] at hDay ⊢
  omega

theorem nextAfter?_slot (h : t.nextAfter? now = some slot) : t.nextAfter? slot = some next ↔
    next = ⟨slot.nanos + 86400000000000, 0⟩ ∧ next.utcDay ≤ dayNumber 9999 12 31 := by
  have hDate := hasDate_of_nextAfter? h
  obtain ⟨hFirst, hDay⟩ := (nextAfter?_eq_some_iff hDate).mp h
  obtain rfl := firstAfter_iff.mp hFirst
  rw [nextAfter?_eq_some_iff ((hasDate_slotAfter_iff hDate).mpr hDay), firstAfter_iff,
    slotAfter_slotAfter]

theorem delay?_of_nextAfter? (h : t.nextAfter? now = some slot) :
    t.delay? now = some ⟨slot.nanos - now.nanos⟩ ∧
      0 < slot.nanos - now.nanos ∧ slot.nanos - now.nanos ≤ 86400000000000 := by
  obtain ⟨-, hLater, hDay⟩ := t.nanos_slotAfter now
  rw [← firstAfter_iff.mp (firstAfter_of_nextAfter? h)] at hLater hDay
  refine ⟨?_, by omega, by omega⟩
  rw [delay?, h]
  rfl

end

/-- The slots of one run after another, by what the clock reads when each is over, until the
calendar ends. -/
def slots (t : TimeOfDay) (slot : Instant) : List Instant → List Instant
  | [] => [slot]
  | clock :: clocks => slot :: match t.following? slot clock with
    | some next => t.slots next clocks
    | none => []

theorem lt_of_following? (h : t.following? slot clock = some next) : slot < next := by
  have hLater : (if clock < slot then slot else clock) < next := (firstAfter_of_nextAfter? h).later
  split at hLater
  · exact hLater
  · next hClock => exact Int.lt_of_le_of_lt (Int.not_lt.mp hClock) hLater

theorem le_of_mem_slots {clocks : List Instant} (h : i ∈ t.slots slot clocks) : slot ≤ i := by
  induction clocks generalizing slot with
  | nil =>
    rw [slots, List.mem_singleton] at h
    subst h
    exact Int.le_refl _
  | cons clock clocks ih =>
    rw [slots, List.mem_cons] at h
    rcases h with rfl | h
    · exact Int.le_refl _
    · split at h
      · next next hNext =>
        exact Int.le_trans (Int.le_of_lt (lt_of_following? hNext)) (ih h)
      · cases h

/-- Whatever the clock reads, each slot is later than all before it. -/
theorem pairwise_slots (t : TimeOfDay) (slot : Instant) (clocks : List Instant) :
    (t.slots slot clocks).Pairwise (· < ·) := by
  induction clocks generalizing slot with
  | nil => exact List.pairwise_singleton _ _
  | cons clock clocks ih =>
    rw [slots]
    split
    · next next hNext =>
      refine List.Pairwise.cons ?_ (ih next)
      intro i hi
      exact Int.lt_of_lt_of_le (lt_of_following? hNext) (le_of_mem_slots hi)
    · exact List.pairwise_singleton _ _

end TimeOfDay

namespace RenewalSchedule

open Procedure (Runs runs_bind_iff runs_done_iff)

/-- The slots that a scheduler goes through, round after round. -/
inductive Rounds (schedule : RenewalSchedule) : Instant → List Instant → Prop where
  | last (slot : Instant) : Rounds schedule slot [slot]
  | next {slot later : Instant} {trace : List (Turn IssuerCall.Answer)} {slots : List Instant}
    (ran : Runs (Renewal.round schedule slot) trace (some later))
    (rest : Rounds schedule later slots) : Rounds schedule slot (slot :: slots)

variable {schedule : RenewalSchedule} {slot later : Instant} {slots : List Instant}

/-- A round that is to be followed by another reads the clock once it is over. -/
theorem following?_of_runs_round {trace : List (Turn IssuerCall.Answer)}
    (h : Runs (Renewal.round schedule slot) trace (some later)) :
    ∃ before clock, trace = before ++ [⟨.clock, clock⟩] ∧
      schedule.time.following? slot clock = some later := by
  obtain ⟨began, now, waiting, rfl, -, h⟩ := runs_bind_iff.mp h
  obtain ⟨waited, ending, scanning, rfl, -, h⟩ := runs_bind_iff.mp h
  cases ending with
  | shutdown => cases (runs_done_iff.mp h).2
  | elapsed =>
    obtain ⟨scanned, goesOn, after, rfl, -, h⟩ := runs_bind_iff.mp h
    cases goesOn with
    | false => cases (runs_done_iff.mp h).2
    | true =>
      obtain ⟨reading, clock, rest, rfl, hClock, h⟩ := runs_bind_iff.mp h
      obtain ⟨rfl, hNext⟩ := runs_done_iff.mp h
      obtain rfl := Procedure.runs_ask_iff.mp hClock
      refine ⟨began ++ (waited ++ scanned), clock, ?_, hNext.symm⟩
      simp

theorem Rounds.exists_clocks (h : schedule.Rounds slot slots) :
    ∃ clocks, slots = schedule.time.slots slot clocks := by
  induction h with
  | last slot => exact ⟨[], rfl⟩
  | next ran rest ih =>
    obtain ⟨clocks, rfl⟩ := ih
    obtain ⟨before, clock, -, hNext⟩ := following?_of_runs_round ran
    refine ⟨clock :: clocks, ?_⟩
    rw [TimeOfDay.slots, hNext]

end RenewalSchedule

namespace TimeOfDay

/-- What the next run of a daily schedule is, and how the runs of a scheduler follow each other. -/
theorem nextAfter?_first (t : TimeOfDay) :
    (∀ now slot, HasDate now.utcDay → (t.nextAfter? now = some slot ↔
        t.FirstAfter now slot ∧ slot.utcDay ≤ dayNumber 9999 12 31)) ∧
      (∀ now, HasDate now.utcDay → (t.nextAfter? now = none ↔
        ∃ slot, t.FirstAfter now slot ∧ dayNumber 9999 12 31 < slot.utcDay)) ∧
      (∀ now other : Instant, now.nanos = other.nanos → t.nextAfter? now = t.nextAfter? other) ∧
      (∀ now later slot, HasDate now.utcDay → now ≤ later → t.nextAfter? later = some slot →
        ∃ earlier, t.nextAfter? now = some earlier ∧ earlier ≤ slot) ∧
      (∀ now slot next, t.nextAfter? now = some slot → (t.nextAfter? slot = some next ↔
        next = ⟨slot.nanos + 86400000000000, 0⟩ ∧ next.utcDay ≤ dayNumber 9999 12 31)) ∧
      (∀ now slot, t.nextAfter? now = some slot →
        t.delay? now = some ⟨slot.nanos - now.nanos⟩ ∧
          0 < slot.nanos - now.nanos ∧ slot.nanos - now.nanos ≤ 86400000000000) ∧
      (∀ slot clocks, (t.slots slot clocks).Pairwise (· < ·)) ∧
      ∀ threshold slot slots, RenewalSchedule.Rounds ⟨t, threshold⟩ slot slots →
        ∃ clocks, slots = t.slots slot clocks := by
  refine ⟨?_, ?_, ?_, ?_, ?_, ?_, ?_, ?_⟩
  · intro now slot hDate
    exact nextAfter?_eq_some_iff hDate
  · intro now hDate
    exact nextAfter?_eq_none_iff hDate
  · intro now other hNanos
    exact t.nextAfter?_congr hNanos
  · intro now later slot hDate hLater hSlot
    exact nextAfter?_mono hDate hLater hSlot
  · intro now slot next hSlot
    exact nextAfter?_slot hSlot
  · intro now slot hSlot
    exact delay?_of_nextAfter? hSlot
  · exact t.pairwise_slots
  · intro threshold slot slots hRounds
    exact hRounds.exists_clocks

def earlyMorning : TimeOfDay where
  hour := 3
  minute := 12
  second := 30
  nanosecond := 500000000
  hour_lt := by decide
  minute_lt := by decide
  second_lt := by decide
  nanosecond_lt := by decide

/-- Four o'clock on a leap day at UTC, on a clock that still shows the day before. -/
def leapDay : Instant := .ofUnix 1709179200 0 (-18000)

def afterLeapDay : Instant := .ofUnix 1709262750 500000000 0

def lastMoment : Instant := .ofUnix 253402300799 999999999 0

example : earlyMorning.slots afterLeapDay [leapDay] =
    [afterLeapDay, .ofUnix 1709349150 500000000 0] := by decide

/-- A round that cannot read the inventory, and after which the clock has been set back. -/
theorem runs_round_afterLeapDay :
    Procedure.Runs (Renewal.round ⟨earlyMorning, .ofDays 40⟩ afterLeapDay)
      [⟨.clock, leapDay⟩, ⟨.wait 83550500, .elapsed⟩, ⟨.clock, afterLeapDay⟩,
        ⟨.store .managedCertificates, .error (.backend "down")⟩, ⟨.notify .inventoryUnread, ()⟩,
        ⟨.clock, leapDay⟩] (some (.ofUnix 1709349150 500000000 0)) :=
  .turn _ (.turn _ (.turn _ (.turn _ (.turn _ (.turn _ (.here _))))))

theorem hasDate_leapDay : HasDate leapDay.utcDay :=
  ⟨2024, 2, 29, by decide, by decide, by decide, by decide⟩

theorem nextAfter?_leapDay : earlyMorning.nextAfter? leapDay = some afterLeapDay := by decide

theorem nextAfter?_first_leapDay :
    (earlyMorning.FirstAfter leapDay afterLeapDay ∧
      afterLeapDay.utcDay ≤ dayNumber 9999 12 31) ∧
      (∃ slot, earlyMorning.FirstAfter lastMoment slot ∧
        dayNumber 9999 12 31 < slot.utcDay) ∧
      earlyMorning.nextAfter? leapDay = earlyMorning.nextAfter? ⟨leapDay.nanos, 3600⟩ ∧
      (∃ earlier, earlyMorning.nextAfter? leapDay = some earlier ∧
        earlier ≤ .ofUnix 1709349150 500000000 0) ∧
      earlyMorning.nextAfter? afterLeapDay = some ⟨1709349150500000000, 0⟩ ∧
      earlyMorning.delay? leapDay = some ⟨83550500000000⟩ ∧
      ∃ clocks, [afterLeapDay, .ofUnix 1709349150 500000000 0] =
        earlyMorning.slots afterLeapDay clocks := by
  obtain ⟨hSome, hNone, hSame, hMono, hNext, hDelay, -, hRounds⟩ :=
    nextAfter?_first earlyMorning
  refine ⟨?_, ?_, ?_, ?_, ?_, ?_, ?_⟩
  · exact (hSome leapDay afterLeapDay hasDate_leapDay).mp nextAfter?_leapDay
  · exact (hNone lastMoment ⟨9999, 12, 31, by decide, by decide, by decide, by decide⟩).mp
      (by decide)
  · exact hSame leapDay ⟨leapDay.nanos, 3600⟩ rfl
  · exact hMono leapDay afterLeapDay _ hasDate_leapDay (by decide) (by decide)
  · exact (hNext leapDay afterLeapDay _ nextAfter?_leapDay).mpr ⟨by decide, by decide⟩
  · exact (hDelay leapDay afterLeapDay nextAfter?_leapDay).1
  · exact hRounds (.ofDays 40) afterLeapDay _ (.next runs_round_afterLeapDay (.last _))

end TimeOfDay

end Enrollment
