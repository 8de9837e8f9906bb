import Enrollment.Rehearsal.Fulfilling
import Enrollment.Rehearsal.Ordering
import Enrollment.Rehearsal.Script.Provider
import Enrollment.Rehearsal.Script.Service

/-! # Scripts of issuing

Stores with what they hold, calls for authorizations, and visits to an issuer.
-/

namespace Enrollment.Rehearsal.Script

open Json

/-- The polling of challenges, given as it is or by settings. -/
def challengePollingOf (v : Value) : Except SettingError Polling :=
  match pollingAt? v "challenge_poll", v.membersAt? "config" with
  | some polling, _ => .ok polling
  | none, some _ => (Settings.ofLookup (textVariablesAt v "config")).map Settings.challengePolling
  | none, none => .ok .default

/-- The moment at which rehearsals begin. -/
def beginning : Calendar.Instant := .ofUnix 1767225600 0 0

def worldOf (v : Value) (challengePolling : Polling) (store : ScriptedStore) : World :=
  .new (servicesAt v "acme") (providersOf v) challengePolling store beginning

def fulfillCallOf (v : Value) : Except KeyError (Nat × FulfillCall) :=
  let time := v.natAt "at"
  if v.flagAt "probe" then .ok (time, .probe)
  else do
    let key ← keyOf v
    let tasks := (urlsAt v "urls").map fun url =>
      AuthorizationTask.mk url (methodAt v "method") key (environmentAt v "environment")
    match v.flagAt "single", tasks with
    | true, task :: _ => return (time, .single task)
    | _, tasks => return (time, .all tasks)

def defaultRequest : Bytes := [0x30, 0x82, 0x01, 0x0a]

def certificateOf (v : Value) : Except KeyError CertificateRecord := do
  let key ← keyOf v
  return {
    id := v.intAt "id"
    name := v.textAt "name"
    identifiers := v.textsAt "identifiers"
    key
    method := methodAt v "method"
    environment := environmentAt v "environment"
    request := (bytesAt? v "csr").getD defaultRequest }

def orderOf? (v : Value) : Option OrderRecord :=
  (urlAt? v "location").map fun location => ⟨v.intAt "id", v.intAt "certificate", location⟩

/-- The name by which a script says that a request is to fail. -/
def requestName : StoreRequest → String
  | .certificate _ => "certificate"
  | .order _ => "order"
  | .insertOrder _ _ => "insert_order"
  | .updateOrder _ _ => "update_order"
  | .markOrderInvalid _ => "mark_order_invalid"
  | .saveCertificate _ _ => "save_certificate"
  | .managedCertificates => "managed_certificates"

def storeOf (v : Value) : Except KeyError ScriptedStore := do
  let certificates ← (v.listAt "certificates").mapM certificateOf
  let orders := (v.listAt "orders").filterMap orderOf?
  return { ScriptedStore.empty with
    certificates := .ofList (certificates.map fun c => (c.id, c))
    orders := .ofList (orders.map fun o => (o.id, o))
    managed := (v.listAt "managed").map managedOf
    failure := fun request => (v.member "fail").textAt? (requestName request)
    failingLoads := v.natAt "failing_loads" }

def priorityOf (v : Value) : Priority := if v.textAt "priority" = "low" then .low else .high

def visitOf (v : Value) : Nat × Visit :=
  let visit : Visit := match v.textAt "do" with
    | "submit" => .submit (v.intAt "order") (priorityOf v)
    | "place" => .place (v.intAt "certificate") (priorityOf v)
    | "shutdown" => .shutdown
    | _ => .probe
  (v.natAt "at", visit)

def orchestratorOf (v : Value) (renewal : Option RenewalSchedule) : OrchestratorSettings :=
  let default := OrchestratorSettings.default
  { workers := (v.natAt? "workers").getD default.workers
    queueCapacity := (v.natAt? "queue_capacity").getD default.queueCapacity
    polling := (pollingAt? v "order_poll").getD default.polling
    renewal }

end Enrollment.Rehearsal.Script
