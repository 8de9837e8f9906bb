import Enrollment.Order

/-! # Authorizations and challenges

An authorization lists the challenges by which an identifier can be proved. A challenge is accepted
when its address is secure, its token is there if its kind is known, and the token has only the
characters of the URL alphabet of base64.
-/

namespace Enrollment

inductive AuthorizationStatus where
  | pending
  | valid
  | invalid
  | deactivated
  | expired
  | revoked
  | unknown (name : String)
  deriving DecidableEq, Repr

namespace AuthorizationStatus

def known : List (String × AuthorizationStatus) := [
  ("pending", .pending), ("valid", .valid), ("invalid", .invalid),
  ("deactivated", .deactivated), ("expired", .expired), ("revoked", .revoked)]

def ofName (name : String) : AuthorizationStatus := (known.lookup name).getD (.unknown name)

def name : AuthorizationStatus → String
  | .pending => "pending"
  | .valid => "valid"
  | .invalid => "invalid"
  | .deactivated => "deactivated"
  | .expired => "expired"
  | .revoked => "revoked"
  | .unknown name => name

def isKnown : AuthorizationStatus → Bool
  | .unknown _ => false
  | _ => true

end AuthorizationStatus

inductive ChallengeStatus where
  | pending
  | processing
  | valid
  | invalid
  deriving DecidableEq, Repr

namespace ChallengeStatus

def name : ChallengeStatus → String
  | .pending => "pending"
  | .processing => "processing"
  | .valid => "valid"
  | .invalid => "invalid"

def all : List ChallengeStatus := [.pending, .processing, .valid, .invalid]

def reader : Json.Reader ChallengeStatus :=
  Json.Reader.variant (all.map fun status => (status.name, status))

end ChallengeStatus

inductive ChallengeKind where
  | http01
  | dns01
  | tlsAlpn01
  | other (name : String)
  deriving DecidableEq, Repr

namespace ChallengeKind

def known : List (String × ChallengeKind) := [
  ("http-01", .http01), ("dns-01", .dns01), ("tls-alpn-01", .tlsAlpn01)]

def ofName (name : String) : ChallengeKind := (known.lookup name).getD (.other name)

def name : ChallengeKind → String
  | .http01 => "http-01"
  | .dns01 => "dns-01"
  | .tlsAlpn01 => "tls-alpn-01"
  | .other name => name

def needsToken : ChallengeKind → Bool
  | .other _ => false
  | _ => true

end ChallengeKind

/-- Whether a token has only characters of the URL alphabet of base64. -/
def isToken (token : String) : Bool :=
  token.toList.all fun c => c.isAlphanum || c = '-' || c = '_'

structure Challenge where
  kind : ChallengeKind
  status : ChallengeStatus
  url : Url
  token : Option String
  validated : Option Calendar.Instant
  error : Option Problem
  deriving Repr

inductive ChallengeError where
  | document (cause : Json.ReadError)
  | insecureUrl (scheme : String)
  | missingToken (kind : String)
  | invalidToken
  deriving DecidableEq, Repr

def ChallengeError.message : ChallengeError → String
  | .document cause => "ACME challenge belgesi ayrıştırılamadı: " ++ cause.message
  | .insecureUrl scheme => "ACME challenge URL'i HTTPS kullanmalıdır (şema: " ++ scheme ++ ")"
  | .missingToken kind => "ACME " ++ kind ++ " challenge'ı token içermiyor"
  | .invalidToken =>
    "ACME challenge token değeri base64url karakterleri dışındakiler içeriyor"

namespace Challenge

structure Draft where
  kind : Option String
  status : Option ChallengeStatus
  url : Option Url
  token : Option (Option String)
  validated : Option (Option Calendar.Instant)
  error : Option (Option Problem)

def record : Json.Record Draft where
  title := "ChallengeWire"
  empty := ⟨none, none, none, none, none, none⟩
  fields := [
    .of "type" Json.Reader.text Draft.kind (fun d a => { d with kind := a }) false,
    .of "status" ChallengeStatus.reader Draft.status (fun d a => { d with status := a }) false,
    .of "url" Url.reader Draft.url (fun d a => { d with url := a }) false,
    .of "token" (.optional Json.Reader.text) Draft.token (fun d a => { d with token := a }) true,
    .of "validated" (.optional Calendar.DateTime.reader) Draft.validated
      (fun d a => { d with validated := a }) true,
    .of "error" (.optional Problem.reader) Draft.error (fun d a => { d with error := a }) true]

/-- A challenge as written, before it is accepted. -/
def reader : Json.Reader Challenge := fun depth node => do
  let draft ← record.read depth node
  let kind ← Json.required "type" draft.kind
  let status ← Json.required "status" draft.status
  let url ← Json.required "url" draft.url
  return {
    kind := .ofName kind
    status
    url
    token := draft.token.join
    validated := draft.validated.join
    error := draft.error.join }

def accept (challenge : Challenge) : Except ChallengeError Challenge :=
  if challenge.url.scheme ≠ "https" then .error (.insecureUrl challenge.url.scheme)
  else
    match challenge.token with
    | none =>
      if challenge.kind.needsToken then .error (.missingToken challenge.kind.name)
      else .ok challenge
    | some token => if isToken token then .ok challenge else .error .invalidToken

def ofBytes (bytes : Bytes) : Except ChallengeError Challenge :=
  match reader.run bytes with
  | .ok challenge => challenge.accept
  | .error e => .error (.document e)

end Challenge

structure Authorization where
  identifier : Identifier
  status : AuthorizationStatus
  expires : Option Calendar.Instant
  wildcard : Bool
  challenges : List Challenge
  deriving Repr

inductive AuthorizationError where
  | document (cause : Json.ReadError)
  | missingChallenges
  | challenge (index : Nat) (cause : ChallengeError)
  deriving DecidableEq, Repr

def AuthorizationError.message : AuthorizationError → String
  | .document cause => "ACME authorization belgesi ayrıştırılamadı: " ++ cause.message
  | .missingChallenges => "Bekleyen ACME authorization en az bir challenge içermelidir"
  | .challenge index cause =>
    "ACME authorization challenge[" ++ toString index ++ "] hatası: " ++ cause.message

namespace Authorization

def new (identifier : Identifier) (status : AuthorizationStatus) (challenges : List Challenge) :
    Authorization :=
  { identifier, status, expires := none, wildcard := false, challenges }

structure Draft where
  identifier : Option Identifier
  status : Option String
  expires : Option (Option Calendar.Instant)
  wildcard : Option Bool
  challenges : Option (List Challenge)

def record : Json.Record Draft where
  title := "AuthorizationWire"
  empty := ⟨none, none, none, none, none⟩
  fields := [
    .of "identifier" Identifier.reader Draft.identifier
      (fun d a => { d with identifier := a }) false,
    .of "status" Json.Reader.text Draft.status (fun d a => { d with status := a }) false,
    .of "expires" (.optional Calendar.DateTime.reader) Draft.expires
      (fun d a => { d with expires := a }) true,
    .of "wildcard" Json.Reader.bool Draft.wildcard (fun d a => { d with wildcard := a }) true,
    .of "challenges" (.list Challenge.reader) Draft.challenges
      (fun d a => { d with challenges := a }) true]

/-- An authorization as written, before its challenges are accepted. -/
def reader : Json.Reader Authorization := fun depth node => do
  let draft ← record.read depth node
  let identifier ← Json.required "identifier" draft.identifier
  let status ← Json.required "status" draft.status
  return {
    identifier
    status := .ofName status
    expires := draft.expires.join
    wildcard := draft.wildcard.getD false
    challenges := draft.challenges.getD [] }

def acceptChallenges : Nat → List Challenge → Except AuthorizationError (List Challenge)
  | _, [] => .ok []
  | index, challenge :: challenges =>
    match challenge.accept with
    | .error e => .error (.challenge index e)
    | .ok accepted => (acceptChallenges (index + 1) challenges).map (accepted :: ·)

def accept (authorization : Authorization) : Except AuthorizationError Authorization :=
  if authorization.status = .pending ∧ authorization.challenges.isEmpty then
    .error .missingChallenges
  else
    (acceptChallenges 0 authorization.challenges).map fun challenges =>
      { authorization with challenges }

def ofBytes (bytes : Bytes) : Except AuthorizationError Authorization :=
  match reader.run bytes with
  | .ok authorization => authorization.accept
  | .error e => .error (.document e)

end Authorization

end Enrollment
