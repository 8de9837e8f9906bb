import Enrollment.Issuing.Error
import Enrollment.Issuing.Notice
import Enrollment.Procedure

/-! # The calls of an issuer

The calls that issuing consists of: requests to the service of an environment and to the store,
showing and removing proofs, waiting, starting tasks and handing on jobs.
-/

namespace Enrollment

/-- How a wait ends. Shutdown ends every wait, and none begins after it. -/
inductive Waited where
  | elapsed
  | shutdown
  deriving DecidableEq, Repr

/-- What a wait that is looked at has come to, if it is over: shutdown comes before its time. -/
def Waited.poll? (shutdown elapsed : Bool) : Option Waited :=
  if shutdown then some .shutdown
  else if elapsed then some .elapsed
  else none

inductive Priority where
  | high
  | low
  deriving DecidableEq, Repr

/-- The work on one authorization. -/
structure AuthorizationTask where
  url : Url
  method : ChallengeMethod
  key : AccountKey
  environment : Environment
  deriving DecidableEq, Repr

/-- How a task ends: with a result, or broken off without one. -/
abbrev TaskEnd := Option (Except FulfillError AuthorizationStatus)

inductive IssuerCall where
  | service (environment : Environment) (request : ServiceRequest) (key : AccountKey)
  | store (request : StoreRequest)
  /-- Has the provider of a method show a proof. -/
  | provision (method : ChallengeMethod) (proof : Proof)
  | deprovision (method : ChallengeMethod) (proof : Proof)
  | wait (milliseconds : Nat)
  | clock
  | notify (notice : Notice)
  /-- Starts tasks that run on their own, as a group with a number. -/
  | start (tasks : List AuthorizationTask)
  /-- The end of the next task of a group that ends. -/
  | join (group : Nat)
  /-- Puts an order into a queue, for a ticket; there is none when the queue is closed. -/
  | enqueue (order : Int) (priority : Priority)
  deriving Repr

abbrev IssuerCall.Answer : IssuerCall → Type
  | service _ request _ => request.Answer
  | store request => request.Answer
  | provision _ _ => Except ProviderError Unit
  | deprovision _ _ => Except ProviderError Unit
  | wait _ => Waited
  | clock => Calendar.Instant
  | notify _ => Unit
  | start _ => Nat
  | join _ => TaskEnd
  | enqueue _ _ => Option Nat

abbrev Work := Procedure IssuerCall IssuerCall.Answer

/-- Work that can fail. -/
abbrev Attempt (ε : Type) := ExceptT ε Work

namespace Attempt

variable {ε δ α : Type}

/-- A call that can fail, with its error as one of this work's. -/
def ofWork (work : Work (Except δ α)) (wrap : δ → ε) : Attempt ε α :=
  ExceptT.mk (work.bind fun result => .done (result.mapError wrap))

def ofExcept (result : Except δ α) (wrap : δ → ε) : Attempt ε α :=
  ExceptT.mk (.done (result.mapError wrap))

/-- A call of which nothing comes. -/
def notify (notice : Notice) : Attempt ε Unit := ExceptT.lift (.ask (IssuerCall.notify notice))

end Attempt

end Enrollment
