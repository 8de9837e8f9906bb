import Enrollment.Problem
import Enrollment.Transport.Exchange

/-! # Signed requests

Every request is signed over a nonce of its own. When the server rejects the nonce, the request is
signed again, a bounded number of times, with the nonce that came with the rejection if there is
one; such a nonce never enters the pool. The nonce of any other response does.
-/

namespace Enrollment

inductive TransportError where
  | http
  | nonce (cause : NonceDrawError)
  | signing (cause : SigningError)
  | decode (cause : Json.ReadError)
  | problem (problem : Problem)
  | unexpectedStatus (status : Http.Status) (body : String)
  deriving Repr

def TransportError.message : TransportError → String
  | .http => "ACME HTTP isteği başarısız: " ++ Http.Failure.message ⟨⟩
  | .nonce cause => "ACME nonce alınamadı: " ++ cause.message
  | .signing cause => "ACME isteği imzalanamadı: " ++ cause.message
  | .decode cause => "ACME yanıt gövdesi JSON olarak çözümlenemedi: " ++ cause.message
  | .problem p => "ACME sunucusu hata döndürdü: " ++ p.message
  | .unexpectedStatus status _ => "ACME sunucusu beklenmeyen durum döndürdü: " ++ status.print

namespace Transport

open Exchange

def contentType : String := "application/jose+json"

/-- What a server's answer to a request for a nonce comes to. -/
def nonceReply (reply : Http.Reply) : NonceReply :=
  match reply.successful with
  | .error e => .error e.message
  | .ok response => .ok response.headers

/-- The oldest nonce of the pool, or a new one from the server when there is none. -/
def drawNonce (newNonce : Url) : Talk (Except NonceDrawError ReplayNonce) := do
  match ← .ask takeNonce with
  | some nonce => return .ok nonce
  | none => return ReplayNonce.ofReply (nonceReply (← .ask (head newNonce)))

/-- What is sent, and with which key it is signed. -/
structure Request where
  url : Url
  payload : Bytes
  key : AccountKey
  deriving DecidableEq, Repr

/-- What one sending of a request comes to: the server rejects its nonce, or the request ends. -/
inductive Sending where
  | rejected (problem : Problem) (headers : Http.Headers)
  | ended (result : Except TransportError Http.Response)

/-- Keeps the nonce of a response. One that cannot be read is only warned about. -/
def absorbNonce (headers : Http.Headers) : Talk Unit :=
  match ReplayNonce.ofHeaders headers with
  | .error _ => .ask (warn .nonceNotKept)
  | .ok none => return
  | .ok (some nonce) => .ask (keepNonce nonce)

/-- How a response with a nonce that was not rejected ends the request. -/
def ending (response : Http.Response) : Option Problem → Except TransportError Http.Response
  | some problem => .error (.problem problem)
  | none =>
    if response.status.isSuccess then .ok response
    else .error (.unexpectedStatus response.status (Utf8.decodeLossy response.body))

def receive (response : Http.Response) : Talk Sending :=
  let problem := Problem.ofResponse? response.status response.headers response.body
  match problem.filter Problem.isBadNonce with
  | some rejection => return .rejected rejection response.headers
  | none => do
    absorbNonce response.headers
    return .ended (ending response problem)

def sendWith (request : Request) (nonce : ReplayNonce) : Talk Sending :=
  match request.key.sign request.payload nonce request.url with
  | .error e => return .ended (.error (.signing e))
  | .ok envelope => do
    match ← .ask (post request.url envelope) with
    | .error _ => return .ended (.error .http)
    | .ok response => receive response

/-- Sends a request once, with the given nonce or with one that is drawn for it. -/
def send (newNonce : Url) (request : Request) : Option ReplayNonce → Talk Sending
  | some nonce => sendWith request nonce
  | none => do
    match ← drawNonce newNonce with
    | .error e => return .ended (.error (.nonce e))
    | .ok nonce => sendWith request nonce

/-- The nonce that came with a rejection, if it can be read. -/
def rejectionNonce (headers : Http.Headers) : Talk (Option ReplayNonce) :=
  match ReplayNonce.ofHeaders headers with
  | .ok nonce => return nonce
  | .error _ => do
    .ask (warn .nonceUnreadable)
    return none

def sendAgain (newNonce : Url) (request : Request) :
    Nat → Option ReplayNonce → Talk (Except TransportError Http.Response)
  | 0, nonce => do
    match ← send newNonce request nonce with
    | .ended result => return result
    | .rejected problem _ => do
      .ask (warn .retriesSpent)
      return .error (.problem problem)
  | retries + 1, nonce => do
    match ← send newNonce request nonce with
    | .ended result => return result
    | .rejected _ headers => do
      let nonce ← rejectionNonce headers
      sendAgain newNonce request retries nonce

/-- How often a request with a rejected nonce is sent again. -/
def maxRetries : Nat := 3

def postRequest (newNonce : Url) (request : Request) :
    Talk (Except TransportError Http.Response) :=
  sendAgain newNonce request maxRetries none

/-- A signed request without payload reads a resource. -/
def postAsGet (newNonce url : Url) (key : AccountKey) :
    Talk (Except TransportError Http.Response) :=
  postRequest newNonce ⟨url, [], key⟩

def postJson (newNonce url : Url) (payload : Json.Value) (key : AccountKey) :
    Talk (Except TransportError Http.Response) :=
  postRequest newNonce ⟨url, Utf8.encode payload.print, key⟩

end Transport

namespace Http.Response

def json (response : Http.Response) : Except TransportError Json.Value :=
  (Json.Value.ofBytes response.body).mapError .decode

def text (response : Http.Response) : String := Utf8.decodeLossy response.body

end Http.Response

end Enrollment
