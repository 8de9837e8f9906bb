import Enrollment.Keyed
import Enrollment.Service

/-! # Scripted services

A service that answers each address from a list of replies. The last reply of an address goes for
all later requests; new orders use up their replies.
-/

namespace Enrollment.Rehearsal

inductive ReplyContent where
  /-- Breaks the thread that asks. -/
  | broken
  | problem (problem : Problem)
  | unexpected (status : Http.Status) (body : String)
  | missingLocation (url : Url)
  | document (body : Bytes)

structure ServiceReply where
  /-- Milliseconds before the answer. -/
  delay : Nat
  content : ReplyContent
  location : Option Url

structure ScriptedService where
  authorizations : Keyed Url (List ServiceReply)
  validations : Keyed Url (List ServiceReply)
  challenges : Keyed Url (List ServiceReply)
  orders : Keyed Url (List ServiceReply)
  finalizations : Keyed Url (List ServiceReply)
  certificates : Keyed Url (List ServiceReply)
  newOrders : List ServiceReply

namespace ScriptedService

abbrev Replies := Keyed Url (List ServiceReply)

/-- The next reply of an address. -/
def next? (replies : Replies) (url : Url) : Option (ServiceReply × Replies) :=
  match replies.get? url with
  | none => none
  | some [] => none
  | some [last] => some (last, replies)
  | some (reply :: rest) => some (reply, replies.put url rest)

variable (service : ScriptedService)

def takeReply? : ServiceRequest → Option (ServiceReply × ScriptedService)
  | .authorization url => (next? service.authorizations url).map fun (reply, authorizations) =>
    (reply, { service with authorizations })
  | .validation url => (next? service.validations url).map fun (reply, validations) =>
    (reply, { service with validations })
  | .challenge url => (next? service.challenges url).map fun (reply, challenges) =>
    (reply, { service with challenges })
  | .order url => (next? service.orders url).map fun (reply, orders) =>
    (reply, { service with orders })
  | .finalization url _ => (next? service.finalizations url).map fun (reply, finalizations) =>
    (reply, { service with finalizations })
  | .certificate url => (next? service.certificates url).map fun (reply, certificates) =>
    (reply, { service with certificates })
  | .newOrder _ =>
    match service.newOrders with
    | [] => none
    | reply :: newOrders => some (reply, { service with newOrders })

end ScriptedService

/-- What a document is read as. -/
def readDocument (body : Bytes) (location : Option Url) :
    (request : ServiceRequest) → request.Answer
  | .authorization _ => (Authorization.ofBytes body).mapError .authorization
  | .validation _ => (Challenge.ofBytes body).mapError .challenge
  | .challenge _ => (Challenge.ofBytes body).mapError .challenge
  | .newOrder _ => (Order.ofBytes body).mapError .order |>.map fun order => { order with location }
  | .order url => (Order.ofBytes body).mapError .order |>.map (·.withLocation url)
  | .finalization _ _ => (Order.ofBytes body).mapError .order
  | .certificate _ =>
    (CertificateChain.parse (Utf8.decodeLossy body)).mapError .certificate

/-- The answer in a reply, if it has one. -/
def ServiceReply.answer? (reply : ServiceReply) (request : ServiceRequest) :
    Option request.Answer :=
  match reply.content with
  | .broken => none
  | .problem p => some (.error (.transport (.problem p)))
  | .unexpected status body => some (.error (.transport (.unexpectedStatus status body)))
  | .missingLocation url => some (.error (.missingLocation url))
  | .document body => some (readDocument body reply.location request)

def problemType (name : String) : String := Problem.errorNamespace ++ name

def notFound (url : Url) : ClientError :=
  .transport (.problem
    ((Problem.new (problemType "malformed") (some (url.print ++ " not found"))).withStatus 404))

/-- A challenge at an address about which no more is said than its status. -/
def bareChallenge (status : ChallengeStatus) (url : Url) : Challenge :=
  ⟨.http01, status, url, none, none, none⟩

/-- The answer to a request for which there is no reply. -/
def unscripted : (request : ServiceRequest) → request.Answer
  | .authorization url => .error (notFound url)
  | .validation url => .ok (bareChallenge .processing url)
  | .challenge url => .ok (bareChallenge .pending url)
  | .newOrder _ => .error (.transport (.problem (.new (problemType "serverInternal") none)))
  | .order url => .error (notFound url)
  | .finalization url _ => .error (notFound url)
  | .certificate url => .error (notFound url)

end Enrollment.Rehearsal
