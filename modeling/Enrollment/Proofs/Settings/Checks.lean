import Enrollment.Proofs.Settings.Words

/-! # Checks of settings

Each setting is checked twice: whether what is given for it is a text, and whether the text is one
that it can take. A reading makes such checks in a fixed order and breaks off at the first that
fails; readings that follow each other make the checks of both.
-/

namespace Enrollment

-- A reading of given texts is decided by carrying it out.
instance decidableEqExcept {ε α : Type} [DecidableEq ε] [DecidableEq α] :
    DecidableEq (Except ε α)
  | .ok a, .ok b => decidable_of_decidable_of_iff (Except.ok.injEq a b).symm.to_iff
  | .error e, .error f => decidable_of_decidable_of_iff (Except.error.injEq e f).symm.to_iff
  | .ok _, .error _ => isFalse nofun
  | .error _, .ok _ => isFalse nofun

open Settings

namespace Environment

/-- The server of the known authority. -/
def server : Environment → String
  | production => "acme-v02.api.letsencrypt.org"
  | staging => "acme-staging-v02.api.letsencrypt.org"

def directoryUrl (e : Environment) : Url where
  scheme := "https"
  authority := some ⟨"", none, .name e.server, none⟩
  path := .segments ["directory"]
  query := none
  fragment := none

theorem parse_directory (e : Environment) : Url.parse e.directory = .ok e.directoryUrl := by
  cases e <;> decide +kernel

end Environment

/-- What is set, in the order of reading. -/
inductive Setting where
  | directory (environment : Environment)
  | httpTimeout
  | workers
  | queueCapacity
  | autoOrdering
  | renewalThreshold
  | renewalHour
  | renewalMinute
  | challengeAttempts
  | challengeSeconds
  | orderAttempts
  | orderSeconds
  deriving DecidableEq

namespace Setting

def all : List Setting := [.directory .production, .directory .staging, .httpTimeout, .workers,
  .queueCapacity, .autoOrdering, .renewalThreshold, .renewalHour, .renewalMinute,
  .challengeAttempts, .challengeSeconds, .orderAttempts, .orderSeconds]

def key : Setting → String
  | directory .production => productionKey
  | directory .staging => stagingKey
  | httpTimeout => httpTimeoutKey
  | workers => workersKey
  | queueCapacity => queueCapacityKey
  | autoOrdering => autoOrderingKey
  | renewalThreshold => renewalThresholdKey
  | renewalHour => renewalHourKey
  | renewalMinute => renewalMinuteKey
  | challengeAttempts => challengeAttemptsKey
  | challengeSeconds => challengeSecondsKey
  | orderAttempts => orderAttemptsKey
  | orderSeconds => orderSecondsKey

@[reducible] def Value : Setting → Type
  | directory _ => Url
  | autoOrdering => Bool
  | renewalThreshold => Int
  | _ => Nat

def Means : (s : Setting) → String → s.Value → Prop
  | directory _ => DirectoryWord
  | httpTimeout => CountWord 0xffffffffffffffff
  | workers => CountWord 0xffffffffffffffff
  | queueCapacity => CountWord 0xffffffffffffffff
  | autoOrdering => FlagWord
  | renewalThreshold => DaysWord
  | renewalHour => UnitWord 23
  | renewalMinute => UnitWord 59
  | challengeAttempts => CountWord 0xffffffff
  | challengeSeconds => CountWord 0xffffffffffffffff
  | orderAttempts => CountWord 0xffffffff
  | orderSeconds => CountWord 0xffffffffffffffff

def default : (s : Setting) → s.Value
  | directory e => e.directoryUrl
  | httpTimeout => (30 : Nat)
  | workers => (3 : Nat)
  | queueCapacity => (64 : Nat)
  | autoOrdering => true
  | renewalThreshold => (40 : Int)
  | renewalHour => (3 : Nat)
  | renewalMinute => (12 : Nat)
  | challengeAttempts => (5 : Nat)
  | challengeSeconds => (20 : Nat)
  | orderAttempts => (5 : Nat)
  | orderSeconds => (20 : Nat)

/-- Values given in the order of reading. -/
def values (production staging : Url) (httpTimeout workers queueCapacity : Nat)
    (autoOrdering : Bool) (renewalThreshold : Int) (renewalHour renewalMinute : Nat)
    (challengeAttempts challengeSeconds orderAttempts orderSeconds : Nat) : (s : Setting) → s.Value
  | directory .production => production
  | directory .staging => staging
  | .httpTimeout => httpTimeout
  | .workers => workers
  | .queueCapacity => queueCapacity
  | .autoOrdering => autoOrdering
  | .renewalThreshold => renewalThreshold
  | .renewalHour => renewalHour
  | .renewalMinute => renewalMinute
  | .challengeAttempts => challengeAttempts
  | .challengeSeconds => challengeSeconds
  | .orderAttempts => orderAttempts
  | .orderSeconds => orderSeconds

end Setting

def Settings.ofValues (value : (s : Setting) → s.Value) : Settings where
  directories := ⟨value (.directory .production), value (.directory .staging)⟩
  httpTimeoutSeconds := value .httpTimeout
  workers := value .workers
  queueCapacity := value .queueCapacity
  autoOrdering := value .autoOrdering
  renewalThresholdDays := value .renewalThreshold
  renewalHour := value .renewalHour
  renewalMinute := value .renewalMinute
  challengePolling := .ofSeconds (value .challengeAttempts) (value .challengeSeconds)
  orderPolling := .ofSeconds (value .orderAttempts) (value .orderSeconds)

/-- A text between blanks, if there is more than blanks. -/
def Variable.word? : Variable → Option String
  | .text s => if Text.trim s = "" then none else some (Text.trim s)
  | .missing => none
  | .notText => none

namespace Setting

def Legal (s : Setting) (text : String) : Prop := ∃ value, s.Means text value

/-- The setting is missing, blank or legal. -/
def Sound (s : Setting) (given : Variables) : Prop :=
  ∀ text, (given s.key).word? = some text → s.Legal text

/-- A setting takes the value that its text means, or its default where it has no text. -/
inductive Takes (s : Setting) (given : Variables) : s.Value → Prop where
  | stated {text : String} {value : s.Value} (word : (given s.key).word? = some text)
      (means : s.Means text value) : Takes s given value
  | absent (word : (given s.key).word? = none) : Takes s given s.default

/-- What is so of the default and of all values that texts mean is so of the value taken. -/
theorem Takes.induct {s : Setting} {given : Variables} {P : s.Value → Prop} {value : s.Value}
    (h : s.Takes given value) (hDefault : P s.default)
    (hMeans : ∀ text value, s.Means text value → P value) : P value := by
  cases h with
  | stated word means => exact hMeans _ _ means
  | absent word => exact hDefault

end Setting

inductive Check where
  | encoding (setting : Setting)
  | value (setting : Setting)
  deriving DecidableEq

namespace Check

def Fails (given : Variables) : Check → Prop
  | encoding s => given s.key = .notText
  | value s => ¬s.Sound given

def Reports (e : SettingError) : Check → Prop
  | encoding s => e = ⟨s.key, .encoding⟩
  | value s => e.key = s.key ∧ e.fault ≠ .encoding

def single (s : Setting) : List Check := [.encoding s, .value s]

def pair (s t : Setting) : List Check := [.encoding s, .encoding t, .value s, .value t]

def all : List Check :=
  single (.directory .production) ++ (single (.directory .staging) ++ (single .httpTimeout ++
  (single .workers ++ (single .queueCapacity ++ (single .autoOrdering ++
  (single .renewalThreshold ++ (single .renewalHour ++ (single .renewalMinute ++
  (pair .challengeAttempts .challengeSeconds ++ pair .orderAttempts .orderSeconds)))))))))

end Check

/-- Of these checks the first to fail is the one that is reported. -/
def FirstFault (given : Variables) (checks : List Check) (e : SettingError) : Prop :=
  ∃ before check after, checks = before ++ check :: after ∧
    (∀ earlier ∈ before, ¬earlier.Fails given) ∧ check.Fails given ∧ check.Reports e

/-- A reading that makes checks one after another, and comes to what is meant if none fails. -/
structure Decides (given : Variables) (checks : List Check) {α : Type} (post : α → Prop)
    (reading : Except SettingError α) : Prop where
  of_ok : ∀ a, reading = .ok a → (∀ check ∈ checks, ¬check.Fails given) ∧ post a
  of_error : ∀ e, reading = .error e → FirstFault given checks e

section Deciding

variable {given other : Variables} {checks later : List Check} {e : SettingError} {α β : Type}
  {post : α → Prop} {meant : β → Prop} {reading : Except SettingError α}

theorem FirstFault.append (h : FirstFault given checks e) (later : List Check) :
    FirstFault given (checks ++ later) e := by
  obtain ⟨before, check, after, rfl, hBefore, hCheck⟩ := h
  exact ⟨before, check, after ++ later, by simp, hBefore, hCheck⟩

theorem FirstFault.after (h : FirstFault given later e)
    (hChecks : ∀ check ∈ checks, ¬check.Fails given) : FirstFault given (checks ++ later) e := by
  obtain ⟨before, check, after, rfl, hBefore, hCheck⟩ := h
  refine ⟨checks ++ before, check, after, by simp, ?_, hCheck⟩
  intro earlier hEarlier
  rcases List.mem_append.mp hEarlier with h | h
  · exact hChecks earlier h
  · exact hBefore earlier h

theorem FirstFault.exists_fails (h : FirstFault given checks e) :
    ∃ check ∈ checks, check.Fails given := by
  obtain ⟨before, check, after, rfl, -, hCheck, -⟩ := h
  exact ⟨check, by simp, hCheck⟩

theorem Decides.bind (h : Decides given checks post reading) {next : α → Except SettingError β}
    (hNext : ∀ a, post a → Decides given later meant (next a)) :
    Decides given (checks ++ later) meant (reading >>= next) := by
  cases reading with
  | error cause =>
    constructor
    · intro b hb
      cases hb
    · intro e he
      cases he
      exact (h.of_error cause rfl).append later
  | ok a =>
    obtain ⟨hChecks, hPost⟩ := h.of_ok a rfl
    constructor
    · intro b hb
      obtain ⟨hLater, hMeant⟩ := (hNext a hPost).of_ok b hb
      refine ⟨?_, hMeant⟩
      intro check hCheck
      rcases List.mem_append.mp hCheck with h | h
      · exact hChecks check h
      · exact hLater check h
    · intro e he
      -- None of the first checks failed, so the first fault of the later ones is the first of all.
      exact ((hNext a hPost).of_error e he).after hChecks

theorem decides_pure {b : β} (h : meant b) : Decides given [] meant (pure b) := by
  constructor
  · rintro b ⟨⟩
    exact ⟨nofun, h⟩
  · intro e he
    cases he

theorem Decides.map (h : Decides given checks post reading) {f : α → β}
    (hMeant : ∀ a, post a → meant (f a)) :
    Decides given checks meant (reading >>= fun a => pure (f a)) := by
  have hBind := h.bind fun a ha => decides_pure (hMeant a ha)
  rwa [List.append_nil] at hBind

variable {s t : Setting} {understand : Option String → Except SettingError s.Value}
  {understandOther : Option String → Except SettingError t.Value}

theorem decides_read (given : Variables) (s : Setting) :
    Decides given [.encoding s] (· = (given s.key).word?) (Settings.read given s.key) := by
  unfold Settings.read
  constructor
  · intro text h
    cases hGiven : given s.key with
    | missing =>
      rw [hGiven] at h
      cases h
      simp [Check.Fails, hGiven, Variable.word?]
    | text raw =>
      rw [hGiven] at h
      cases h
      simp [Check.Fails, hGiven, Variable.word?]
    | notText =>
      rw [hGiven] at h
      cases h
  · intro e h
    cases hGiven : given s.key with
    | missing =>
      rw [hGiven] at h
      cases h
    | text raw =>
      rw [hGiven] at h
      cases h
    | notText =>
      rw [hGiven] at h
      cases h
      exact ⟨[], .encoding s, [], rfl, nofun, hGiven, rfl⟩

theorem decides_word (h : Understands s.key s.Means s.default understand) :
    Decides given [.value s] (s.Takes given) (understand (given s.key).word?) := by
  cases hWord : (given s.key).word? with
  | none =>
    rw [h.none_eq]
    constructor
    · rintro value ⟨⟩
      refine ⟨?_, .absent hWord⟩
      simp [Check.Fails, Setting.Sound, hWord]
    · intro e he
      cases he
  | some text =>
    constructor
    · intro value hValue
      have hMeans := (h.some_eq_ok_iff text value).mp hValue
      refine ⟨?_, .stated hWord hMeans⟩
      simp only [List.mem_singleton, forall_eq, Check.Fails, Setting.Sound, hWord,
        Option.some.injEq, forall_eq', Classical.not_not]
      exact ⟨value, hMeans⟩
    · intro e he
      refine ⟨[], .value s, [], rfl, nofun, ?_, h.of_error text e he⟩
      intro hSound
      obtain ⟨value, hMeans⟩ := hSound text hWord
      rw [(h.some_eq_ok_iff text value).mpr hMeans] at he
      cases he

theorem decides_setting (h : Understands s.key s.Means s.default understand)
    {next : s.Value → Except SettingError β}
    (hNext : ∀ value, s.Takes given value → Decides given later meant (next value)) :
    Decides given (Check.single s ++ later) meant
      (Settings.read given s.key >>= fun text => understand text >>= next) := by
  apply (decides_read given s).bind
  rintro text rfl
  exact (decides_word h).bind hNext

/-- Two settings of which both texts are read before either is understood. -/
theorem decides_pair (hFirst : Understands s.key s.Means s.default understand)
    (hSecond : Understands t.key t.Means t.default understandOther) (f : s.Value → t.Value → β) :
    Decides given (Check.pair s t)
      (fun b => ∃ first second, s.Takes given first ∧ t.Takes given second ∧ b = f first second)
      (do
        let firstText ← Settings.read given s.key
        let secondText ← Settings.read given t.key
        let first ← understand firstText
        let second ← understandOther secondText
        return f first second) := by
  apply (decides_read given s).bind
  rintro firstText rfl
  apply (decides_read given t).bind
  rintro secondText rfl
  apply (decides_word hFirst).bind
  intro first hTakes
  apply (decides_word hSecond).map
  intro second hTakesOther
  exact ⟨first, second, hTakes, hTakesOther, rfl⟩

end Deciding

end Enrollment
