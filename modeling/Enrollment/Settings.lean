import Enrollment.Decimal.Integer
import Enrollment.Environment
import Enrollment.Issuing.Solver
import Enrollment.Renewal.Schedule
import Enrollment.Url.Parse
import Enrollment.Variable

/-! # Settings

Settings are read from named variables, one after another, and the first bad one is reported. A
variable that is missing or blank takes its default.
-/

namespace Enrollment

structure Settings where
  directories : PerEnvironment Url
  httpTimeoutSeconds : Nat
  workers : Nat
  queueCapacity : Nat
  autoOrdering : Bool
  renewalThresholdDays : Int
  renewalHour : Nat
  renewalMinute : Nat
  challengePolling : Polling
  orderPolling : Polling
  deriving DecidableEq, Repr

/-- What an order orchestrator is started with. -/
structure OrchestratorSettings where
  workers : Nat
  queueCapacity : Nat
  polling : Polling
  renewal : Option RenewalSchedule
  deriving DecidableEq, Repr

def OrchestratorSettings.default : OrchestratorSettings := ⟨3, 64, .default, none⟩

inductive SettingFault where
  | encoding
  | number (cause : Decimal.IntegerError)
  | flag (word : String)
  | url (cause : UrlError)
  | scheme
  | zero
  | belowOne
  | negative
  | aboveDays (limit : Nat)
  | aboveUnits (limit : Nat)
  deriving DecidableEq, Repr

def SettingFault.message : SettingFault → String
  | .encoding => "geçerli UTF-8 değil"
  | .number cause => "geçerli bir sayı değil: " ++ cause.message
  | .flag word => "geçerli bir bayrak değil: " ++ word
  | .url cause => "geçerli bir URL değil: " ++ cause.message
  | .scheme => "https şeması zorunludur"
  | .zero => "sıfır olamaz"
  | .belowOne => "en az 1 olmalı"
  | .negative => "negatif olamaz"
  | .aboveDays limit => s!"en fazla {limit} gün olabilir"
  | .aboveUnits limit => s!"0 ile {limit} arasında olmalı"

structure SettingError where
  key : String
  fault : SettingFault
  deriving DecidableEq, Repr

def SettingError.message (e : SettingError) : String := e.key ++ " geçersiz: " ++ e.fault.message

/-- A directory that is not one of the known authority's. -/
structure SettingWarning where
  key : String
  directory : Url
  deriving DecidableEq, Repr

def SettingWarning.text : String := "Let's Encrypt dışı bir ACME dizini yapılandırıldı"

namespace Settings

def productionKey : String := "CERTHUB_ACME_PROD_DIRECTORY"
def stagingKey : String := "CERTHUB_ACME_STAGING_DIRECTORY"
def httpTimeoutKey : String := "CERTHUB_HTTP_TIMEOUT_SECS"
def workersKey : String := "CERTHUB_ORDER_WORKERS"
def queueCapacityKey : String := "CERTHUB_ORDER_QUEUE_CAPACITY"
def autoOrderingKey : String := "CERTHUB_AUTO_ORDERING"
def renewalThresholdKey : String := "CERTHUB_RENEWAL_THRESHOLD_DAYS"
def renewalHourKey : String := "CERTHUB_RENEWAL_HOUR"
def renewalMinuteKey : String := "CERTHUB_RENEWAL_MINUTE"
def challengeAttemptsKey : String := "CERTHUB_CHALLENGE_POLL_ATTEMPTS"
def challengeSecondsKey : String := "CERTHUB_CHALLENGE_POLL_SECS"
def orderAttemptsKey : String := "CERTHUB_ORDER_POLL_ATTEMPTS"
def orderSecondsKey : String := "CERTHUB_ORDER_POLL_SECS"

def maxRenewalThresholdDays : Nat := 3650

/-- The trimmed text of a variable, if there is one. -/
def read (given : Variables) (key : String) : Except SettingError (Option String) :=
  match given key with
  | .missing => .ok none
  | .notText => .error ⟨key, .encoding⟩
  | .text s =>
    let trimmed := Text.trim s
    .ok (if trimmed = "" then none else some trimmed)

def natural (limit : Nat) (key : String) (text : Option String) (default : Nat) :
    Except SettingError Nat :=
  match text with
  | none => .ok default
  | some s => (Decimal.readNat limit s).mapError fun e => ⟨key, .number e⟩

def word8 : Nat := 0xff
def word32 : Nat := 0xffffffff
def word64 : Nat := 0xffffffffffffffff

/-- A number that must not be zero. -/
def positive (limit : Nat) (fault : SettingFault) (key : String) (text : Option String)
    (default : Nat) : Except SettingError Nat := do
  let n ← natural limit key text default
  if n = 0 then throw ⟨key, fault⟩
  return n

/-- A number of at most `last`, written in a byte. -/
def unitOf (last : Nat) (key : String) (text : Option String) (default : Nat) :
    Except SettingError Nat := do
  let n ← natural word8 key text default
  if last < n then throw ⟨key, .aboveUnits last⟩
  return n

def thresholdDays (key : String) (text : Option String) (default : Int) :
    Except SettingError Int := do
  let n ← match text with
    | none => pure default
    | some s => (Decimal.readInt 64 s).mapError fun e => ⟨key, .number e⟩
  if n < 0 then throw ⟨key, .negative⟩
  if maxRenewalThresholdDays < n then throw ⟨key, .aboveDays maxRenewalThresholdDays⟩
  return n

def flagWords : List (String × Bool) := [
  ("1", true), ("true", true), ("yes", true), ("on", true),
  ("0", false), ("false", false), ("no", false), ("off", false)]

def flag (key : String) (text : Option String) (default : Bool) : Except SettingError Bool :=
  match text with
  | none => .ok default
  | some s =>
    let word := Text.lower s
    match flagWords.lookup word with
    | some b => .ok b
    | none => .error ⟨key, .flag word⟩

def directory (key : String) (text : Option String) (default : String) :
    Except SettingError Url :=
  match Url.parse (text.getD default) with
  | .error e => .error ⟨key, .url e⟩
  | .ok url => if url.scheme = "https" then .ok url else .error ⟨key, .scheme⟩

def polling (attemptsKey secondsKey : String) (attempts seconds : Option String) :
    Except SettingError Polling := do
  let attempts ← positive word32 .belowOne attemptsKey attempts Polling.defaultAttempts
  let seconds ← positive word64 .zero secondsKey seconds Polling.defaultSeconds
  return .ofSeconds attempts seconds

/-- Both variables of a polling are read before either is understood. -/
def readPolling (given : Variables) (attemptsKey secondsKey : String) :
    Except SettingError Polling := do
  let attempts ← read given attemptsKey
  let seconds ← read given secondsKey
  polling attemptsKey secondsKey attempts seconds

def ofVariables (given : Variables) : Except SettingError Settings := do
  let production ← directory productionKey (← read given productionKey)
    (Environment.directory .production)
  let staging ← directory stagingKey (← read given stagingKey) (Environment.directory .staging)
  let httpTimeoutSeconds ←
    positive word64 .zero httpTimeoutKey (← read given httpTimeoutKey) 30
  let workers ← positive word64 .belowOne workersKey (← read given workersKey) 3
  let queueCapacity ←
    positive word64 .belowOne queueCapacityKey (← read given queueCapacityKey) 64
  let autoOrdering ← flag autoOrderingKey (← read given autoOrderingKey) true
  let renewalThresholdDays ←
    thresholdDays renewalThresholdKey (← read given renewalThresholdKey) 40
  let renewalHour ← unitOf 23 renewalHourKey (← read given renewalHourKey) 3
  let renewalMinute ← unitOf 59 renewalMinuteKey (← read given renewalMinuteKey) 12
  let challengePolling ← readPolling given challengeAttemptsKey challengeSecondsKey
  let orderPolling ← readPolling given orderAttemptsKey orderSecondsKey
  return {
    directories := ⟨production, staging⟩
    httpTimeoutSeconds, workers, queueCapacity, autoOrdering, renewalThresholdDays, renewalHour
    renewalMinute, challengePolling, orderPolling }

/-- The settings that a look-up of texts gives. -/
def ofLookup (lookup : String → Option String) : Except SettingError Settings :=
  ofVariables (.ofTexts lookup)

/-- The settings that an environment of byte strings gives. -/
def ofEnvironment (environment : String → Option Bytes) : Except SettingError Settings :=
  ofVariables (.ofBytes environment)

def authorityDomain : String := "api.letsencrypt.org"

def directoryWarnings (key : String) (url : Url) : List SettingWarning :=
  match url.host? with
  | some host => if Text.endsWith authorityDomain host.print then [] else [⟨key, url⟩]
  | none => []

def warnings (settings : Settings) : List SettingWarning :=
  directoryWarnings productionKey settings.directories.production ++
    directoryWarnings stagingKey settings.directories.staging

/-- The nearest number in two's complement of a word. -/
def saturated (n : Int) : Int := max (-0x8000000000000000) (min n 0x7fffffffffffffff)

def renewalThreshold (settings : Settings) : Calendar.Span :=
  .ofSeconds (saturated (settings.renewalThresholdDays * Calendar.secondsPerDay))

/-- Renewal runs only when orders are placed automatically. -/
def renewal? (settings : Settings) : Option RenewalSchedule :=
  if settings.autoOrdering then
    match TimeOfDay.ofHourMinute settings.renewalHour settings.renewalMinute with
    | .ok time => some ⟨time, settings.renewalThreshold⟩
    | .error _ => none
  else none

def orchestrator (settings : Settings) : OrchestratorSettings :=
  ⟨settings.workers, settings.queueCapacity, settings.orderPolling, settings.renewal?⟩

end Settings

end Enrollment
