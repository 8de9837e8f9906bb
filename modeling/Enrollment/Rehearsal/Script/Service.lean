import Enrollment.Rehearsal.Script.Notation
import Enrollment.Rehearsal.Server
import Enrollment.Rehearsal.Service

/-! # Scripts of servers and services -/

namespace Enrollment.Rehearsal.Script

open Json

def serverReplyOf (v : Value) : ScriptedReply where
  response := ⟨⟨(v.natAt? "status").getD 200⟩, headersOf v, bytesAt v "body"⟩
  dropped := v.flagAt "drop"
  truncated := v.flagAt "truncate"

def serverOf (v : Value) : Server := .ofScript ((v.listAt "script").map serverReplyOf)

def problemOf (v : Value) : Problem :=
  let problem := Problem.new (v.textAt "type") (v.textAt? "detail")
  match v.natAt? "status" with
  | some status => problem.withStatus status
  | none => problem

def replyContent (v : Value) : ReplyContent :=
  if v.flagAt "panic" then .broken
  else
    match v.field? "problem", v.field? "unexpected", urlAt? v "missing_location" with
    | some p, _, _ => .problem (problemOf p)
    | none, some u, _ => .unexpected ⟨u.natAt "status"⟩ (u.textAt "body")
    | none, none, some url => .missingLocation url
    | none, none, none => .document (bytesAt v "body")

def serviceReplyOf (v : Value) : ServiceReply :=
  ⟨v.natAt "delay", replyContent v, urlAt? v "location"⟩

def repliesOf : Value → List ServiceReply
  | .list items => items.map serviceReplyOf
  | _ => []

def sectionAt (v : Value) (name : String) : Keyed Url (List ServiceReply) :=
  .ofList ((v.membersAt name).filterMap fun (address, replies) =>
    (Url.parse address).toOption.map fun url => (url, repliesOf replies))

def serviceOf (v : Value) : ScriptedService where
  authorizations := sectionAt v "authz"
  validations := sectionAt v "validate"
  challenges := sectionAt v "challenge"
  orders := sectionAt v "order"
  finalizations := sectionAt v "finalize"
  certificates := sectionAt v "cert"
  newOrders := repliesOf (v.member "new_order")

def servicesAt (v : Value) (name : String) : PerEnvironment ScriptedService :=
  let both := v.member name
  ⟨serviceOf (both.member "production"), serviceOf (both.member "staging")⟩

end Enrollment.Rehearsal.Script
