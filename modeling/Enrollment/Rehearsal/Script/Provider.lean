import Enrollment.Rehearsal.Provider
import Enrollment.Rehearsal.Script.Notation

/-! # Scripts of providers -/

namespace Enrollment.Rehearsal.Script

open Json

def nameServiceErrorAt? (v : Value) (name : String) : Option NameServiceError :=
  match v.field? name with
  | some (.object members) =>
    let e := Value.object members
    if e.textAt "kind" = "Authentication" then some (.authentication (e.textAt "message"))
    else some (.refused (e.textAt "message"))
  | _ => none

def providerOf (v : Value) : ScriptedProvider :=
  match v.textAt? "type" with
  | some "http01" => .web .empty
  | some "dns01" =>
    .record (.new (nameServiceErrorAt? v "fail_publish") (nameServiceErrorAt? v "fail_remove"))
  | _ => .recording (v.flagAt "fail_provision") (v.flagAt "fail_deprovision")

/-- The providers of a script. Without any there is one for proofs on the web. -/
def providersOf (v : Value) : Providers ScriptedProvider :=
  match v.listAt? "providers" with
  | none => Providers.empty.register .webInternal (.recording false false)
  | some items =>
    items.foldl (fun providers item => providers.register (methodAt item "method")
      (providerOf item)) .empty

/-- A provider whose name service fails as a script now says. -/
def failingAs (v : Value) : ScriptedProvider → ScriptedProvider
  | .record names => .record { names with
      failPublish := nameServiceErrorAt? v "fail_publish"
      failRemove := nameServiceErrorAt? v "fail_remove" }
  | provider => provider

end Enrollment.Rehearsal.Script
