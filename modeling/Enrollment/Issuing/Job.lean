import Enrollment.Issuing.Authorizations

/-! # Order jobs

An order is placed for a managed certificate and later processed: followed through whatever states
the server reports until its certificate is saved or the order has turned out invalid. Every order
that the server sends is stored before anything else is done. Authorizations are fulfilled once at
most, and the waits are bounded.
-/

namespace Enrollment

inductive Outcome where
  | issued
  | invalid
  deriving DecidableEq, Repr

def Outcome.name : Outcome → String
  | .issued => "Issued"
  | .invalid => "Invalid"

/-- An order that is being processed. -/
structure Job where
  id : Int
  location : Url
  certificate : CertificateRecord

namespace Job

open IssuerCall

def askStore (request : StoreRequest) : Attempt JobError request.Result :=
  .ofWork (.ask (IssuerCall.store request)) .store

variable (job : Job)

def askService (request : ServiceRequest) : Attempt JobError request.Result :=
  .ofWork (.ask (service job.certificate.environment request job.certificate.key)) .service

/-- An order from the server, stored before it is looked at. -/
def receive (request : Attempt JobError Order) : Attempt JobError Order := do
  let order ← request
  askStore (.updateOrder job.id order)
  return order

def fetch : Attempt JobError Order := job.receive (job.askService (.order job.location))

/-- Asks the server to issue the certificate. -/
def finalize (order : Order) : Attempt JobError Order := do
  let request ← .ofExcept (FinalizeRequest.ofDer job.certificate.request) .request
  job.receive (job.askService (.finalization order.finalize request))

def save (order : Order) : Attempt JobError Outcome := do
  match order.certificate with
  | none => throw (.noCertificateUrl job.id)
  | some url =>
    let chain ← job.askService (.certificate url)
    askStore (.saveCertificate job.id chain)
    return .issued

def giveUp (notice : Notice) : Attempt JobError Outcome := do
  .notify notice
  askStore (.markOrderInvalid job.id)
  return .invalid

def taskFor (url : Url) : AuthorizationTask :=
  ⟨url, job.certificate.method, job.certificate.key, job.certificate.environment⟩

/-- Fulfills the authorizations of an order, and goes on if they are valid. -/
def fulfill (next : Attempt JobError Outcome) (order : Order) : Attempt JobError Outcome := do
  let status ← .ofWork (Authorizations.fulfill (order.authorizations.map job.taskFor)) .fulfill
  if status = .valid then next else job.giveUp .authorizationsInvalid

/-- Takes an order as far as it goes without a wait. A ready order is finalized once. -/
def advance (onPending : Order → Attempt JobError Outcome) (wait : Attempt JobError Outcome)
    (order : Order) : Attempt JobError Outcome := do
  match order.status with
  | .pending => onPending order
  | .processing => wait
  | .valid => job.save order
  | .invalid => job.giveUp .orderInvalid
  | .ready =>
    let finalized ← job.finalize order
    match finalized.status with
    | .pending => onPending finalized
    | .processing | .ready => wait
    | .valid => job.save finalized
    | .invalid => job.giveUp .orderInvalid

/-- Takes an order as far as it goes before `wait`, which is told whether the authorizations have
been fulfilled. -/
def settle (wait : Bool → Attempt JobError Outcome) (fulfilled : Bool) (order : Order) :
    Attempt JobError Outcome :=
  let settled := job.advance (fun _ => wait true) (wait true)
  if fulfilled then settled order
  else job.advance (job.fulfill (do settled (← job.fetch))) (wait false) order

/-- Waits and looks at the order again, at most so many times. -/
def poll (polling : Polling) : Nat → Bool → Attempt JobError Outcome
  | 0, _ => throw (.unsettled polling.attempts)
  | attempts + 1, fulfilled => do
    match ← ExceptT.lift (.ask (wait polling.interval)) with
    | .shutdown => throw .shutdown
    | .elapsed => job.settle (poll polling attempts) fulfilled (← job.fetch)

def run (polling : Polling) : Attempt JobError Outcome := do
  job.settle (job.poll polling polling.attempts) false (← job.fetch)

/-- The job for a stored order. -/
def load (id : Int) : Attempt JobError Job := do
  let order ← askStore (.order id)
  let certificate ← askStore (.certificate order.certificate)
  return { id, location := order.location, certificate }

def process (polling : Polling) (id : Int) : Work (Except JobError Outcome) := ExceptT.run do
  (← load id).run polling

/-- Sends a new order for a managed certificate, and stores what the server makes of it. -/
def place (certificate : Int) : Attempt JobError Int := do
  let record ← askStore (.certificate certificate)
  let request ← .ofExcept (NewOrder.ofNames record.identifiers) .identifiers
  let order ← .ofWork (.ask (service record.environment (.newOrder request) record.key)) .service
  askStore (.insertOrder certificate order)

/-- The result of a job whose ticket has ended, if need be without one. -/
def resultOf (ending : Option (Except JobError Outcome)) : Except JobError Outcome :=
  ending.getD (.error .cancelled)

/-- A place in a queue for an order. -/
structure Ticket where
  number : Nat
  order : Int
  deriving DecidableEq, Repr

def submit (order : Int) (priority : Priority) : Attempt JobError Ticket := do
  match ← ExceptT.lift (.ask (enqueue order priority)) with
  | none => throw .queueClosed
  | some number => return ⟨number, order⟩

def placeAndSubmit (certificate : Int) (priority : Priority) : Attempt JobError Ticket := do
  submit (← place certificate) priority

end Job

end Enrollment
