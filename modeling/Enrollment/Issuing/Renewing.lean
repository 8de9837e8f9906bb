import Enrollment.Issuing.Job
import Enrollment.Renewal.Schedule

/-! # Renewing

Once a day the managed certificates are scanned, and for each that expires soon a new order is
placed in the queue of low priority. What goes wrong for one of them does not keep the others from
being renewed.
-/

namespace Enrollment.Renewal

open IssuerCall

def renew (candidate : RenewalCandidate) : Work Unit := do
  match ← (Job.placeAndSubmit candidate.certificate.id .low).run with
  | .ok _ => return
  | .error _ => .ask (notify .renewalNotPlaced)

def renewAll : List RenewalCandidate → Work Unit
  | [] => return
  | candidate :: candidates => do
    renew candidate
    renewAll candidates

def loadInventory : Work (Except String (List ManagedCertificate)) := do
  let certificates ← .ask (store .managedCertificates)
  return certificates.mapError StoreError.message

/-- One scan. The answer says whether there is to be another one. -/
def scanAndRenew (threshold : Calendar.Span) : Work Bool := do
  let now ← .ask clock
  match ← scanWith loadInventory threshold now with
  | .error .negativeThreshold =>
    .ask (notify .thresholdNegative)
    return false
  | .error .thresholdRange =>
    .ask (notify .thresholdRange)
    return false
  | .error (.inventory _) =>
    .ask (notify .inventoryUnread)
    return true
  | .ok candidates =>
    renewAll candidates
    return true

/-- The whole milliseconds from one time to another, none if it is past. -/
def millisecondsUntil (now t : Calendar.Instant) : Nat :=
  ((t.since now).nanos / 1000000).toNat

/-- Waits for the time of a scan and carries it out. The answer is the time of the next one, if
there is one. -/
def round (schedule : RenewalSchedule) (next : Calendar.Instant) :
    Work (Option Calendar.Instant) := do
  let now ← .ask clock
  match ← .ask (wait (millisecondsUntil now next)) with
  | .shutdown => return none
  | .elapsed =>
    if ← scanAndRenew schedule.threshold then
      let now ← .ask clock
      return schedule.time.following? next now
    else return none

end Enrollment.Renewal
