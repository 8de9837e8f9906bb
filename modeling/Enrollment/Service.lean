import Enrollment.Client

/-! # Services

What can be asked of a server, whatever stands behind it. A client of a real server answers by
talking to it.
-/

namespace Enrollment

inductive ServiceRequest where
  | authorization (url : Url)
  | validation (url : Url)
  | challenge (url : Url)
  | newOrder (request : NewOrder)
  | order (url : Url)
  | finalization (url : Url) (request : FinalizeRequest)
  | certificate (url : Url)
  deriving DecidableEq, Repr

namespace ServiceRequest

/-- What a request that succeeds is answered with. -/
abbrev Result : ServiceRequest → Type
  | authorization _ => Authorization
  | validation _ => Challenge
  | challenge _ => Challenge
  | newOrder _ => Order
  | order _ => Order
  | finalization _ _ => Order
  | certificate _ => CertificateChain

abbrev Answer (request : ServiceRequest) : Type := Except ClientError request.Result

end ServiceRequest

def Client.serve (client : Client) (key : AccountKey) :
    (request : ServiceRequest) → Talk request.Answer
  | .authorization url => client.getAuthorization url key
  | .validation url => client.validateChallenge url key
  | .challenge url => client.getChallenge url key
  | .newOrder request => client.newOrder request key
  | .order url => client.getOrder url key
  | .finalization url request => client.finalizeOrder url request key
  | .certificate url => client.downloadCertificate url key

end Enrollment
