import Enrollment.Proofs.Settings.Checks
import Enrollment.Proofs.Text.Utf8Read

/-! # Reading settings

Thirteen settings are read in a fixed order. They are accepted when each of them is missing, blank
or legal, and then they are what was given, with defaults for the rest. Otherwise the first check
that fails is reported. Of an environment also the encoding is checked, for the two settings of a
polling before either of them is understood.
-/

namespace Enrollment

/-- The setting whose value is checked. -/
def Check.setting? : Check → Option Setting
  | .encoding _ => none
  | .value s => some s

namespace Settings

variable {given other : Variables} {settings : Settings}

/-- Every setting is what was given for it, or else its default. -/
def Holds (given : Variables) (settings : Settings) : Prop :=
  ∃ value : (s : Setting) → s.Value, (∀ s : Setting, s.Takes given (value s)) ∧
    settings = .ofValues value

theorem decides_ofVariables (given : Variables) :
    Decides given Check.all (Holds given) (ofVariables given) := by
  unfold ofVariables
  -- Every step makes the checks of one setting, or of one pair, and hands on the value taken.
  apply decides_setting (s := .directory .production)
    (understands_directory _ ⟨Environment.parse_directory .production, rfl⟩)
  intro production hProduction
  apply decides_setting (s := .directory .staging)
    (understands_directory _ ⟨Environment.parse_directory .staging, rfl⟩)
  intro staging hStaging
  apply decides_setting (s := .httpTimeout) (understands_positive _ .zero _ nofun (by decide))
  intro httpTimeout hHttpTimeout
  apply decides_setting (s := .workers) (understands_positive _ .belowOne _ nofun (by decide))
  intro workers hWorkers
  apply decides_setting (s := .queueCapacity)
    (understands_positive _ .belowOne _ nofun (by decide))
  intro queueCapacity hQueueCapacity
  apply decides_setting (s := .autoOrdering) (understands_flag _ _)
  intro autoOrdering hAutoOrdering
  apply decides_setting (s := .renewalThreshold)
    (understands_thresholdDays _ (by decide) (by decide))
  intro renewalThreshold hRenewalThreshold
  apply decides_setting (s := .renewalHour) (understands_unitOf _ (by decide) (by decide))
  intro renewalHour hRenewalHour
  apply decides_setting (s := .renewalMinute) (understands_unitOf _ (by decide) (by decide))
  intro renewalMinute hRenewalMinute
  apply (decides_pair (s := .challengeAttempts) (t := .challengeSeconds)
    (understands_positive _ .belowOne _ nofun (by decide))
    (understands_positive _ .zero _ nofun (by decide)) Polling.ofSeconds).bind
  rintro _ ⟨challengeAttempts, challengeSeconds, hChallengeAttempts, hChallengeSeconds, rfl⟩
  apply (decides_pair (s := .orderAttempts) (t := .orderSeconds)
    (understands_positive _ .belowOne _ nofun (by decide))
    (understands_positive _ .zero _ nofun (by decide)) Polling.ofSeconds).map
  rintro _ ⟨orderAttempts, orderSeconds, hOrderAttempts, hOrderSeconds, rfl⟩
  refine ⟨Setting.values production staging httpTimeout workers queueCapacity autoOrdering
    renewalThreshold renewalHour renewalMinute challengeAttempts challengeSeconds orderAttempts
    orderSeconds, ?_, rfl⟩
  rintro (_ | _)
  case directory e => cases e <;> assumption
  all_goals assumption

theorem mem_all (s : Setting) : .encoding s ∈ Check.all ∧ .value s ∈ Check.all := by
  cases s with
  | directory e => cases e <;> decide
  | _ => decide

theorem means_unique {s : Setting} {text : String} {a b : s.Value} (ha : s.Means text a)
    (hb : s.Means text b) : a = b := by
  have hCount {limit n m : Nat} (hn : CountWord limit text n) (hm : CountWord limit text m) :
      n = m := hn.writes.unique hm.writes
  have hUnit {last n m : Nat} (hn : UnitWord last text n) (hm : UnitWord last text m) :
      n = m := hn.writes.unique hm.writes
  cases s with
  | directory e => exact Except.ok.inj (ha.parsed.symm.trans hb.parsed)
  | autoOrdering =>
    exact Option.some.inj ((flagWord_iff.mp ha).symm.trans (flagWord_iff.mp hb))
  | renewalThreshold => exact ha.writes.unique hb.writes
  | renewalHour => exact hUnit ha hb
  | renewalMinute => exact hUnit ha hb
  | _ => exact hCount ha hb

theorem takes_unique {s : Setting} {a b : s.Value} (ha : s.Takes given a)
    (hb : s.Takes given b) : a = b := by
  cases ha with
  | stated word means =>
    cases hb with
    | stated wordOther meansOther =>
      rw [word, Option.some.injEq] at wordOther
      subst wordOther
      exact means_unique means meansOther
    | absent wordOther => cases word.symm.trans wordOther
  | absent word =>
    cases hb with
    | stated wordOther meansOther => cases word.symm.trans wordOther
    | absent _ => rfl

theorem sound_of_takes {s : Setting} {value : s.Value} (h : s.Takes given value) :
    s.Sound given := by
  intro text hText
  cases h with
  | stated word means =>
    rw [word, Option.some.injEq] at hText
    subst hText
    exact ⟨value, means⟩
  | absent word => cases word.symm.trans hText

theorem Holds.unique {others : Settings} (h : Holds given settings) (hOthers : Holds given others) :
    settings = others := by
  obtain ⟨value, hValue, rfl⟩ := h
  obtain ⟨other, hOther, rfl⟩ := hOthers
  have hEq : value = other := funext fun s => takes_unique (hValue s) (hOther s)
  rw [hEq]

theorem firstFault_of_ofVariables {e : SettingError} (h : ofVariables given = .error e) :
    FirstFault given Check.all e :=
  (decides_ofVariables given).of_error e h

theorem exists_ofVariables (hReadable : ∀ s : Setting, given s.key ≠ .notText)
    (hSound : ∀ s : Setting, s.Sound given) : ∃ settings, ofVariables given = .ok settings := by
  cases hGiven : ofVariables given with
  | ok settings => exact ⟨settings, rfl⟩
  | error e =>
    obtain ⟨check, -, hFails⟩ := (firstFault_of_ofVariables hGiven).exists_fails
    cases check with
    | encoding s => exact absurd hFails (hReadable s)
    | value s => exact absurd (hSound s) hFails

theorem readable_of_ofVariables (h : ofVariables given = .ok settings) (s : Setting) :
    given s.key ≠ .notText :=
  ((decides_ofVariables given).of_ok settings h).1 _ (mem_all s).1

theorem holds_of_ofVariables (h : ofVariables given = .ok settings) : Holds given settings :=
  ((decides_ofVariables given).of_ok settings h).2

theorem sound_of_holds (h : Holds given settings) (s : Setting) : s.Sound given := by
  obtain ⟨value, hValue, -⟩ := h
  exact sound_of_takes (hValue s)

theorem ofVariables_eq_ok_iff (hReadable : ∀ s : Setting, given s.key ≠ .notText) :
    ofVariables given = .ok settings ↔ Holds given settings := by
  constructor
  · exact holds_of_ofVariables
  · intro h
    obtain ⟨found, hFound⟩ := exists_ofVariables hReadable (sound_of_holds h)
    rw [hFound, (holds_of_ofVariables hFound).unique h]

/-- Only what is given under the keys of the settings is looked at. -/
theorem ofVariables_congr (h : ∀ s : Setting, given s.key = other s.key) :
    ofVariables given = ofVariables other := by
  have hRead : ∀ key ∈ Setting.all.map Setting.key,
      Settings.read given key = Settings.read other key := by
    intro key hKey
    obtain ⟨s, -, rfl⟩ := List.mem_map.mp hKey
    rw [Settings.read, Settings.read, h]
  simp (disch := decide) only [ofVariables, readPolling, hRead]

/-- The first setting in the order of reading that is not sound is the one that is reported. -/
def FirstBad (given : Variables) (e : SettingError) : Prop :=
  ∃ before s after, Setting.all = before ++ s :: after ∧
    (∀ earlier ∈ before, earlier.Sound given) ∧ ¬s.Sound given ∧ e.key = s.key

theorem firstBad_of_firstFault {e : SettingError} (h : FirstFault given Check.all e)
    (hReadable : ∀ s : Setting, given s.key ≠ .notText) : FirstBad given e := by
  obtain ⟨before, check, after, hChecks, hBefore, hFails, hReports⟩ := h
  cases check with
  | encoding s => exact absurd hFails (hReadable s)
  | value s =>
    refine ⟨before.filterMap Check.setting?, s, after.filterMap Check.setting?, ?_, ?_, hFails,
      hReports.1⟩
    · have hAll : Setting.all = Check.all.filterMap Check.setting? := by decide
      rw [hAll, hChecks, List.filterMap_append]
      rfl
    · intro earlier hEarlier
      obtain ⟨check, hMem, hSetting⟩ := List.mem_filterMap.mp hEarlier
      cases check with
      | encoding t => cases hSetting
      | value t =>
        cases hSetting
        exact Classical.not_not.mp (hBefore _ hMem)

theorem ofTexts_ne_notText (lookup : String → Option String) (key : String) :
    Variables.ofTexts lookup key ≠ .notText := by
  unfold Variables.ofTexts
  split <;> exact nofun

theorem ofBytes_encode {environment : String → Option Bytes} {lookup : String → Option String}
    {key : String} (h : environment key = (lookup key).map Utf8.encode) :
    Variables.ofBytes environment key = Variables.ofTexts lookup key := by
  rw [Variables.ofBytes, Variables.ofTexts, h]
  cases lookup key with
  | none => rfl
  | some text =>
    simp only [Option.map_some, Variable.ofBytes]
    rw [Utf8.decode?_eq_some_iff.mpr rfl]

theorem ofBytes_eq_notText_iff {environment : String → Option Bytes} {key : String} :
    Variables.ofBytes environment key = .notText ↔
      ∃ bytes, environment key = some bytes ∧ ∀ text, Utf8.encode text ≠ bytes := by
  rw [Variables.ofBytes]
  cases environment key with
  | none => simp
  | some bytes =>
    simp only [Variable.ofBytes, Option.some.injEq, exists_eq_left']
    cases hDecode : Utf8.decode? bytes with
    | some text => simpa using ⟨text, Utf8.decode?_eq_some_iff.mp hDecode⟩
    | none =>
      simp only [true_iff]
      intro text hText
      rw [Utf8.decode?_eq_some_iff.mpr hText] at hDecode
      cases hDecode

/-- Eight workers, no automatic orders, and a blank for the hour. -/
def eightWorkers (key : String) : Option String :=
  if key = workersKey then some " +8 "
  else if key = autoOrderingKey then some "Off"
  else if key = renewalHourKey then some " \t\r\n"
  else none

/-- No worker, and an hour that no day has. -/
def noWorkers (key : String) : Option String :=
  if key = workersKey then some " 0 "
  else if key = renewalHourKey then some "24"
  else none

/-- Of the polling of challenges the count is bad and the time is no text. -/
def garbledPolling (key : String) : Option Bytes :=
  if key = challengeAttemptsKey then some (Utf8.encode "0")
  else if key = challengeSecondsKey then some [0xff]
  else none

def eightWorkerSettings : Settings where
  directories := ⟨Environment.production.directoryUrl, Environment.staging.directoryUrl⟩
  httpTimeoutSeconds := 30
  workers := 8
  queueCapacity := 64
  autoOrdering := false
  renewalThresholdDays := 40
  renewalHour := 3
  renewalMinute := 12
  challengePolling := .ofSeconds 5 20
  orderPolling := .ofSeconds 5 20

theorem ofLookup_eightWorkers : ofLookup eightWorkers = .ok eightWorkerSettings := by
  decide +kernel

end Settings

end Enrollment
