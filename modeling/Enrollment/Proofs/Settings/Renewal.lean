import Enrollment.Proofs.Renewal.Scan
import Enrollment.Proofs.Settings.Reading

/-! # The renewal of settings that were read

What a reading accepts passes every later check: the hour and the minute are a time of day, the
threshold saturates nowhere and is not negative, and a window ends outside the calendar only when it
starts too close to the end of it.
-/

namespace Enrollment

open Calendar (Instant Span HasDate hasDate_iff dayNumber yearStart)

/-- A number of nanoseconds on a clock that is ahead of UTC by its offset. -/
def Calendar.Instant.clockNanos (i : Instant) : Int := i.nanos + i.offset * 1000000000

/-- When the last day of the year 9999 is over, on any clock. -/
def Calendar.endNanos : Int := (dayNumber 9999 12 31 + 1) * 86400000000000

namespace Renewal

variable {threshold : Span} {now : Instant}

theorem endsInCalendar_iff (hNow : now.inRange = true) (hThreshold : 0 ≤ threshold.nanos) :
    EndsInCalendar threshold now ↔ now.clockNanos + threshold.nanos < Calendar.endNanos := by
  have hLast : dayNumber 9999 12 31 + 1 = yearStart 10000 := by decide
  rw [Instant.inRange_iff, hasDate_iff, Instant.unixSeconds, Calendar.nanosPerSecond] at hNow
  rw [EndsInCalendar, hasDate_iff, Instant.clockNanos, Calendar.endNanos, hLast]
  omega

theorem scan_eq_thresholdRange_iff (hNow : now.inRange = true) (hThreshold : 0 ≤ threshold.nanos)
    (loaded : Except String (List ManagedCertificate)) :
    scan threshold now loaded = .error .thresholdRange ↔
      Calendar.endNanos - now.clockNanos ≤ threshold.nanos := by
  rw [scan_eq_error_iff, endsInCalendar_iff hNow hThreshold]
  constructor
  · rintro (⟨-, h⟩ | ⟨-, h, -⟩ | ⟨-, -, _, -, h⟩)
    · cases h
    · omega
    · cases h
  · intro h
    refine .inr (.inl ⟨hThreshold, ?_, rfl⟩)
    omega

theorem scan_ne_negativeThreshold (hThreshold : 0 ≤ threshold.nanos)
    (loaded : Except String (List ManagedCertificate)) :
    scan threshold now loaded ≠ .error .negativeThreshold := by
  intro h
  rcases scan_eq_error_iff.mp h with ⟨hNegative, -⟩ | ⟨-, -, h⟩ | ⟨-, -, _, -, h⟩
  · omega
  · cases h
  · cases h

end Renewal

namespace Settings

variable {settings : Settings} {given : Variables}

structure Renewable (settings : Settings) : Prop where
  hour_lt : settings.renewalHour < 24
  minute_lt : settings.renewalMinute < 60
  days_nonneg : 0 ≤ settings.renewalThresholdDays
  days_le : settings.renewalThresholdDays ≤ 3650

theorem renewable_of_holds (h : Holds given settings) : settings.Renewable := by
  obtain ⟨value, hValue, rfl⟩ := h
  have hDays := (hValue .renewalThreshold).induct (P := fun n : Int => 0 ≤ n ∧ n ≤ 3650)
    (by decide) fun text n hText => ⟨hText.nonneg, hText.le_limit⟩
  constructor
  · apply (hValue .renewalHour).induct (P := fun n : Nat => n < 24) (by decide)
    intro text n hText
    exact Nat.lt_succ_of_le hText.le_last
  · apply (hValue .renewalMinute).induct (P := fun n : Nat => n < 60) (by decide)
    intro text n hText
    exact Nat.lt_succ_of_le hText.le_last
  · exact hDays.1
  · exact hDays.2

theorem Renewable.renewalThreshold_nanos (h : settings.Renewable) :
    settings.renewalThreshold.nanos = settings.renewalThresholdDays * 86400000000000 := by
  have hNonneg := h.days_nonneg
  have hLimit := h.days_le
  simp only [renewalThreshold, saturated, Span.ofSeconds, Calendar.secondsPerDay,
    Calendar.nanosPerSecond]
  omega

theorem Renewable.renewal?_eq (h : settings.Renewable) : settings.renewal? =
    if settings.autoOrdering then
      some ⟨⟨settings.renewalHour, settings.renewalMinute, 0, 0, h.hour_lt, h.minute_lt, by decide,
        by decide⟩, settings.renewalThreshold⟩
    else none := by
  rw [renewal?, TimeOfDay.ofHourMinute, dif_pos h.hour_lt, dif_pos h.minute_lt]

/-- What is read for the renewal is what the daily renewal does. -/
theorem renewal_of_ofLookup (lookup : String → Option String) (settings : Settings)
    (h : ofLookup lookup = .ok settings) :
    (settings.orchestrator.renewal.isSome ↔ settings.autoOrdering = true) ∧
      ∀ schedule, settings.orchestrator.renewal = some schedule →
        schedule.time.hour = settings.renewalHour ∧
        schedule.time.minute = settings.renewalMinute ∧
        schedule.time.second = 0 ∧ schedule.time.nanosecond = 0 ∧
        schedule.threshold.nanos = settings.renewalThresholdDays * 86400000000000 ∧
        (∀ now loaded, Renewal.scan schedule.threshold now loaded ≠ .error .negativeThreshold) ∧
        ∀ now loaded, now.inRange = true →
          (Renewal.scan schedule.threshold now loaded = .error .thresholdRange ↔
            Calendar.endNanos - now.clockNanos ≤ schedule.threshold.nanos) := by
  have hRenewable := renewable_of_holds (holds_of_ofVariables h)
  have hRenewal : settings.orchestrator.renewal = settings.renewal? := rfl
  rw [hRenewal, hRenewable.renewal?_eq]
  constructor
  · cases settings.autoOrdering <;> simp
  · intro schedule hSchedule
    split at hSchedule
    · cases hSchedule
      have hNanos := hRenewable.renewalThreshold_nanos
      have hNonneg : 0 ≤ settings.renewalThreshold.nanos := by
        have hDays := hRenewable.days_nonneg
        omega
      refine ⟨rfl, rfl, rfl, rfl, hNanos, ?_, ?_⟩
      · intro now loaded
        exact Renewal.scan_ne_negativeThreshold hNonneg loaded
      · intro now loaded hNow
        exact Renewal.scan_eq_thresholdRange_iff hNow hNonneg loaded
    · cases hSchedule

/-- The longest threshold, and the last minute of the day. -/
def tenYears (key : String) : Option String :=
  if key = renewalThresholdKey then some "3650"
  else if key = renewalHourKey then some "23"
  else if key = renewalMinuteKey then some "59"
  else none

def tenYearSettings : Settings where
  directories := ⟨Environment.production.directoryUrl, Environment.staging.directoryUrl⟩
  httpTimeoutSeconds := 30
  workers := 3
  queueCapacity := 64
  autoOrdering := true
  renewalThresholdDays := 3650
  renewalHour := 23
  renewalMinute := 59
  challengePolling := .ofSeconds 5 20
  orderPolling := .ofSeconds 5 20

theorem ofLookup_tenYears : ofLookup tenYears = .ok tenYearSettings := by
  decide +kernel

/-- The last second of the year 9999 on a clock that is an hour ahead of UTC. -/
def lastSecondAhead : Instant := .ofUnix 253402297199 0 3600

theorem renewal_of_ofLookup_tenYears :
    ∃ schedule, tenYearSettings.orchestrator.renewal = some schedule ∧
      schedule.time.hour = 23 ∧ schedule.threshold.nanos = 315360000000000000 ∧
      Renewal.scan schedule.threshold lastSecondAhead (.ok []) = .error .thresholdRange := by
  obtain ⟨hSome, hSchedule⟩ := renewal_of_ofLookup tenYears _ ofLookup_tenYears
  obtain ⟨schedule, hEq⟩ := Option.isSome_iff_exists.mp (hSome.mpr rfl)
  obtain ⟨hHour, -, -, -, hThreshold, -, hRange⟩ := hSchedule schedule hEq
  refine ⟨schedule, hEq, hHour, hThreshold, ?_⟩
  apply (hRange lastSecondAhead _ (by decide)).mpr
  rw [hThreshold]
  decide

end Settings

end Enrollment
