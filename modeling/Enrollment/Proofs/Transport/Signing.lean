import Enrollment.Proofs.Procedure.Progress
import Enrollment.Service

/-! # With which key requests are signed

All that a client posts for a request is signed with the key that came with the request, however
often the server has it sent again.
-/

namespace Enrollment

open Procedure

/-- What is posted is signed with a key, for the address that it is posted to. -/
def Exchange.IsSignedWith (key : AccountKey) : Exchange → Prop
  | .post url envelope => ∃ payload nonce, key.sign payload nonce url = .ok envelope
  | .head _ | .get _ | .takeNonce | .keepNonce _ | .warn _ => True

abbrev Signing (key : AccountKey) {α : Type} (talk : Talk α) : Prop :=
  talk.Makes (Exchange.IsSignedWith key)

namespace Transport

variable {key : AccountKey}

theorem signing_drawNonce (newNonce : Url) : Signing key (drawNonce newNonce) := by
  refine ⟨trivial, fun nonce? => ?_⟩
  cases nonce? with
  | some nonce => trivial
  | none => exact ⟨trivial, fun _ => trivial⟩

theorem signing_absorbNonce (headers : Http.Headers) : Signing key (absorbNonce headers) := by
  unfold absorbNonce
  split
  · exact makes_ask trivial
  · trivial
  · exact makes_ask trivial

theorem signing_receive (response : Http.Response) : Signing key (receive response) := by
  unfold receive
  dsimp only
  split
  · trivial
  · exact (signing_absorbNonce _).bind fun _ => trivial

theorem signing_sendWith (request : Request) (nonce : ReplayNonce) :
    Signing request.key (sendWith request nonce) := by
  unfold sendWith
  cases hSign : request.key.sign request.payload nonce request.url with
  | error e => trivial
  | ok envelope =>
    refine ⟨⟨_, _, hSign⟩, fun reply => ?_⟩
    cases reply with
    | error e => trivial
    | ok response => exact signing_receive response

theorem signing_send (newNonce : Url) (request : Request) (nonce? : Option ReplayNonce) :
    Signing request.key (send newNonce request nonce?) := by
  cases nonce? with
  | some nonce => exact signing_sendWith request nonce
  | none =>
    refine (signing_drawNonce newNonce).bind fun result => ?_
    cases result with
    | error e => trivial
    | ok nonce => exact signing_sendWith request nonce

theorem signing_rejectionNonce (headers : Http.Headers) : Signing key (rejectionNonce headers) := by
  unfold rejectionNonce
  split
  · trivial
  · exact ⟨trivial, fun _ => trivial⟩

theorem signing_sendAgain (newNonce : Url) (request : Request) (retries : Nat)
    (nonce? : Option ReplayNonce) :
    Signing request.key (sendAgain newNonce request retries nonce?) := by
  induction retries generalizing nonce? with
  | zero =>
    refine (signing_send newNonce request nonce?).bind fun sending => ?_
    cases sending with
    | ended result => trivial
    | rejected problem headers => exact ⟨trivial, fun _ => trivial⟩
  | succ retries ih =>
    refine (signing_send newNonce request nonce?).bind fun sending => ?_
    cases sending with
    | ended result => trivial
    | rejected problem headers => exact (signing_rejectionNonce headers).bind ih

theorem signing_postRequest (newNonce : Url) (request : Request) :
    Signing request.key (postRequest newNonce request) :=
  signing_sendAgain newNonce request maxRetries none

end Transport

namespace Client

variable {client : Client} {key : AccountKey} {α : Type}

theorem signing_reading {talk : Talk (Except TransportError Http.Response)}
    (h : Signing key talk) (read : Http.Response → Except ClientError α) :
    Signing key (reading talk read) := by
  refine h.bind fun result => ?_
  cases result <;> trivial

theorem signing_fetch (url : Url) (read : Http.Response → Except ClientError α) :
    Signing key (client.fetch url key read) :=
  signing_reading (Transport.signing_postRequest _ ⟨url, [], key⟩) read

theorem signing_submit (url : Url) (payload : Json.Value)
    (read : Http.Response → Except ClientError α) :
    Signing key (client.submit url payload key read) :=
  signing_reading (Transport.signing_postRequest _ ⟨url, Utf8.encode payload.print, key⟩) read

theorem signing_serve (client : Client) (key : AccountKey) (request : ServiceRequest) :
    Signing key (client.serve key request) := by
  cases request with
  | authorization | challenge | order | certificate => exact signing_fetch _ _
  | validation | newOrder | finalization => exact signing_submit _ _ _

end Client

end Enrollment
