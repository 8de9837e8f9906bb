import Enrollment.Calendar.DateTime
import Enrollment.Identifier
import Enrollment.Problem
import Enrollment.Url.Parse

/-! # Orders

The order of a certificate as the server describes it. Its own address is not part of the
document; the server gives it apart.
-/

namespace Enrollment

inductive OrderStatus where
  | pending
  | ready
  | processing
  | valid
  | invalid
  deriving DecidableEq, Repr

namespace OrderStatus

def name : OrderStatus → String
  | .pending => "pending"
  | .ready => "ready"
  | .processing => "processing"
  | .valid => "valid"
  | .invalid => "invalid"

def all : List OrderStatus := [.pending, .ready, .processing, .valid, .invalid]

def reader : Json.Reader OrderStatus :=
  Json.Reader.variant (all.map fun status => (status.name, status))

end OrderStatus

structure Order where
  location : Option Url
  status : OrderStatus
  expires : Option Calendar.Instant
  identifiers : List Identifier
  authorizations : List Url
  finalize : Url
  certificate : Option Url
  error : Option Problem
  deriving Repr

structure OrderError where
  cause : Json.ReadError
  deriving DecidableEq, Repr

def OrderError.message (e : OrderError) : String :=
  "ACME order belgesi ayrıştırılamadı: " ++ e.cause.message

namespace Order

def new (status : OrderStatus) (authorizations : List Url) (finalize : Url) : Order :=
  { location := none, status, expires := none, identifiers := [], authorizations, finalize,
    certificate := none, error := none }

structure Draft where
  status : Option OrderStatus
  expires : Option (Option Calendar.Instant)
  identifiers : Option (List Identifier)
  authorizations : Option (List Url)
  finalize : Option Url
  certificate : Option (Option Url)
  error : Option (Option Problem)

def record : Json.Record Draft where
  title := "Order"
  empty := ⟨none, none, none, none, none, none, none⟩
  fields := [
    .of "status" OrderStatus.reader Draft.status (fun d a => { d with status := a }) false,
    .of "expires" (.optional Calendar.DateTime.reader) Draft.expires
      (fun d a => { d with expires := a }) true,
    .of "identifiers" (.list Identifier.reader) Draft.identifiers
      (fun d a => { d with identifiers := a }) true,
    .of "authorizations" (.list Url.reader) Draft.authorizations
      (fun d a => { d with authorizations := a }) true,
    .of "finalize" Url.reader Draft.finalize (fun d a => { d with finalize := a }) false,
    .of "certificate" (.optional Url.reader) Draft.certificate
      (fun d a => { d with certificate := a }) true,
    .of "error" (.optional Problem.reader) Draft.error (fun d a => { d with error := a }) true]

def reader : Json.Reader Order := fun depth node => do
  let draft ← record.read depth node
  let status ← Json.required "status" draft.status
  let finalize ← Json.required "finalize" draft.finalize
  return {
    location := none
    status
    expires := draft.expires.join
    identifiers := draft.identifiers.getD []
    authorizations := draft.authorizations.getD []
    finalize
    certificate := draft.certificate.join
    error := draft.error.join }

def ofBytes (bytes : Bytes) : Except OrderError Order :=
  match reader.run bytes with
  | .ok order => .ok order
  | .error e => .error ⟨e⟩

def withLocation (order : Order) (location : Url) : Order :=
  { order with location := some location }

def withCertificate (order : Order) (certificate : Url) : Order :=
  { order with certificate := some certificate }

end Order

end Enrollment
