import Enrollment.Account.Key
import Enrollment.Account.StoredKey
import Enrollment.Codec.Hex
import Enrollment.Environment
import Enrollment.Http.Headers
import Enrollment.Identifier
import Enrollment.Issuing.Solver
import Enrollment.Json.Access
import Enrollment.Renewal.Scan
import Enrollment.Renewal.Schedule
import Enrollment.Url.Parse
import Enrollment.Variable

/-! # The notation of scripts

Scripts of rehearsals are JSON documents. Bytes are written as text or as hex digits, or stand for
the text of a value; times count seconds and nanoseconds; keys are given by their secrets or by
what they are drawn from.
-/

namespace Enrollment.Rehearsal.Script

open Json

def bytesOf : Value → Bytes
  | .text s => Utf8.encode s
  | .object [("hex", .text h)] => (Hex.decode? h).getD []
  | v => Utf8.encode v.print

def bytesAt? (v : Value) (name : String) : Option Bytes :=
  match v.member name with
  | .null => none
  | b => some (bytesOf b)

def bytesAt (v : Value) (name : String) : Bytes := (bytesAt? v name).getD []

def urlAt? (v : Value) (name : String) : Option Url :=
  (v.textAt? name).bind fun s => (Url.parse s).toOption

def urlsAt (v : Value) (name : String) : List Url :=
  (v.textsAt name).filterMap fun s => (Url.parse s).toOption

def instantAt (v : Value) (name : String) : Calendar.Instant :=
  let t := v.member name
  .ofUnix (t.intAt "unix") (t.intAt "nanos") (t.intAt "offset")

def spanAt (v : Value) (name : String) : Calendar.Span :=
  let s := v.member name
  ⟨s.intAt "seconds" * Calendar.nanosPerSecond + s.intAt "nanos"⟩

def headersOf (v : Value) : Http.Headers :=
  (v.listAt "headers").filterMap fun
    | .list [.text name, value] => some (name, bytesOf value)
    | _ => none

/-- Variables given by name, each with a text or bytes. -/
def variablesAt (v : Value) (name : String) : String → Option Bytes := fun key =>
  ((v.membersAt name).lookup key).map bytesOf

/-- Variables given by name, each with a text. -/
def textVariablesAt (v : Value) (name : String) : String → Option String := fun key =>
  match (v.membersAt name).lookup key with
  | some (.text s) => some s
  | _ => none

def identifierOf (v : Value) : Except IdentifierError Identifier :=
  if v.textAt "type" = "ip" then Identifier.ofAddress (v.textAt "value")
  else Identifier.ofName (v.textAt "value")

/-- The draws of a source of the given bytes, which then yields ones for ever. -/
def draws (size : Nat) : Nat → Bytes → List Bytes
  | 0, _ => [List.replicate size 1]
  | n + 1, bytes =>
    (bytes.take size ++ List.replicate (size - bytes.length) 1) :: draws size n (bytes.drop size)

def defaultScalar : Bytes := List.replicate 32 7

def hexAt (v : Value) (name : String) : Bytes := (Hex.decode? (v.textAt name)).getD []

def secretOf (v : Value) : Except KeyError SecretKey :=
  match v.textAt? "p256", v.textAt? "pem", v.textAt? "der", v.textAt? "generate" with
  | some _, _, _, _ => SecretKey.ofScalar .p256 (hexAt v "p256")
  | none, some pem, _, _ => SecretKey.ofPem pem
  | none, none, some _, _ => SecretKey.ofDer (hexAt v "der")
  | none, none, none, some name =>
    let c : Curve := if name = "p384" then .p384 else .p256
    let random := hexAt v "rng"
    match SecretKey.draw? c (draws c.size (random.length / c.size + 1) random) with
    | some key => .ok key
    | none => .error .scalarRange
  | none, none, none, none => SecretKey.ofScalar .p256 defaultScalar

def keyOf (v : Value) : Except KeyError AccountKey := do
  let key := AccountKey.ofSecret (← secretOf (v.member "key"))
  match v.textAt? "kid" with
  | some url => return key.withAccount url
  | none => return key

def methodOf (v : Value) : ChallengeMethod := ⟨v.textAt "id", .ofName (v.textAt "kind")⟩

def methodAt (v : Value) (name : String) : ChallengeMethod :=
  match v.member name with
  | .object members => methodOf (.object members)
  | _ => .webInternal

def environmentAt (v : Value) (name : String) : Environment :=
  .ofStaging (v.textAt name = "staging")

def pollingAt? (v : Value) (name : String) : Option Polling :=
  match v.member name with
  | .object members =>
    some ⟨(Value.object members).natAt "attempts", (Value.object members).natAt "interval_ms"⟩
  | _ => none

def managedOf (v : Value) : ManagedCertificate :=
  ⟨v.intAt "id", v.textAt "name", instantAt v "expires"⟩

def renewalAt (v : Value) (name : String) : Except TimeOfDayError (Option RenewalSchedule) :=
  match v.member name with
  | .object members =>
    let r := Value.object members
    (TimeOfDay.ofHourMinute (r.natAt "hour") (r.natAt "minute")).map fun time =>
      some ⟨time, spanAt r "threshold"⟩
  | _ => .ok none

end Enrollment.Rehearsal.Script
