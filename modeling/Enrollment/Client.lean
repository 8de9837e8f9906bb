import Enrollment.Authorization
import Enrollment.Certificate
import Enrollment.Directory
import Enrollment.Environment
import Enrollment.Order
import Enrollment.Transport.Signed
import Enrollment.Url.Parse

/-! # Clients

The operations that a server offers, found through its directory.
-/

namespace Enrollment

inductive ClientError where
  | transport (cause : TransportError)
  | directoryFetch
  | directory (cause : DirectoryError)
  | authorization (cause : AuthorizationError)
  | challenge (cause : ChallengeError)
  | order (cause : OrderError)
  | certificate (cause : CertificateError)
  | missingLocation (url : Url)
  deriving Repr

def ClientError.message : ClientError → String
  | .transport cause => cause.message
  | .directoryFetch => "ACME directory alınamadı: " ++ Http.Failure.message ⟨⟩
  | .directory cause => cause.message
  | .authorization cause => cause.message
  | .challenge cause => cause.message
  | .order cause => cause.message
  | .certificate cause => cause.message
  | .missingLocation url => "ACME yanıtında Location başlığı yok: " ++ url.print

/-- The place of the resource that a response tells of, relative to the address of the request. -/
def Http.Response.location? (response : Http.Response) (base : Url) : Option Url :=
  (response.headers.text? "location").bind fun text => (base.join text).toOption

structure Client where
  directory : Directory

namespace Client

def connect (directory : Url) : Talk (Except ClientError Client) := do
  match (← .ask (Exchange.get directory)).successful with
  | .error _ => return .error .directoryFetch
  | .ok response =>
    match Directory.ofBytes response.body with
    | .error e => return .error (.directory e)
    | .ok directory => return .ok ⟨directory⟩

/-- Both servers, production first. -/
def connectAll (directories : PerEnvironment Url) :
    Talk (Except ClientError (PerEnvironment Client)) := do
  match ← connect directories.production with
  | .error e => return .error e
  | .ok production =>
    match ← connect directories.staging with
    | .error e => return .error e
    | .ok staging => return .ok ⟨production, staging⟩

/-- Services show nothing of what they hold. -/
def describeServices : String := "AcmeServices \x7b .. \x7d"

variable (client : Client)

/-- Reads the body of the response to a signed request. -/
def reading {α : Type} (talk : Talk (Except TransportError Http.Response))
    (read : Http.Response → Except ClientError α) : Talk (Except ClientError α) := do
  match ← talk with
  | .error e => return .error (.transport e)
  | .ok response => return read response

def fetch {α : Type} (url : Url) (key : AccountKey)
    (read : Http.Response → Except ClientError α) : Talk (Except ClientError α) :=
  reading (Transport.postAsGet client.directory.newNonce url key) read

def submit {α : Type} (url : Url) (payload : Json.Value) (key : AccountKey)
    (read : Http.Response → Except ClientError α) : Talk (Except ClientError α) :=
  reading (Transport.postJson client.directory.newNonce url payload key) read

def readAuthorization (response : Http.Response) : Except ClientError Authorization :=
  (Authorization.ofBytes response.body).mapError .authorization

def readChallenge (response : Http.Response) : Except ClientError Challenge :=
  (Challenge.ofBytes response.body).mapError .challenge

def readOrder (location : Option Url) (response : Http.Response) : Except ClientError Order :=
  match Order.ofBytes response.body with
  | .error e => .error (.order e)
  | .ok order =>
    match location with
    | some url => .ok (order.withLocation url)
    | none => .ok order

/-- A new order has to say where it is before it is looked at. -/
def readNewOrder (url : Url) (response : Http.Response) : Except ClientError Order :=
  match response.location? url with
  | none => .error (.missingLocation url)
  | some location => readOrder (some location) response

def readChain (response : Http.Response) : Except ClientError CertificateChain :=
  (CertificateChain.parse response.text).mapError .certificate

def getAuthorization (url : Url) (key : AccountKey) :
    Talk (Except ClientError Authorization) :=
  client.fetch url key readAuthorization

/-- Tells the server that the proof for a challenge is in place. -/
def validateChallenge (url : Url) (key : AccountKey) : Talk (Except ClientError Challenge) :=
  client.submit url (.object []) key readChallenge

def getChallenge (url : Url) (key : AccountKey) : Talk (Except ClientError Challenge) :=
  client.fetch url key readChallenge

def newOrder (request : NewOrder) (key : AccountKey) : Talk (Except ClientError Order) :=
  let url := client.directory.newOrder
  client.submit url request.toJson key (readNewOrder url)

def getOrder (url : Url) (key : AccountKey) : Talk (Except ClientError Order) :=
  client.fetch url key (readOrder (some url))

def finalizeOrder (url : Url) (request : FinalizeRequest) (key : AccountKey) :
    Talk (Except ClientError Order) :=
  client.submit url request.toJson key fun response =>
    readOrder (response.location? url) response

def downloadCertificate (url : Url) (key : AccountKey) :
    Talk (Except ClientError CertificateChain) :=
  client.fetch url key readChain

end Client

end Enrollment
