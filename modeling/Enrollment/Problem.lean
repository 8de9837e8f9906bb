import Enrollment.Http.Headers
import Enrollment.Http.Status
import Enrollment.Json.Record
import Enrollment.Json.Value

/-! # Problem documents

What a server says when it refuses a request: a type, often a detail, the status it came with, and
for compound failures one problem for each identifier.
-/

namespace Enrollment

structure Subproblem where
  type : String
  detail : Option String
  identifier : Option Json.Value
  deriving Repr

structure Problem where
  type : String
  detail : Option String
  status : Option Nat
  subproblems : List Subproblem
  deriving Repr

def defaultProblemType : String := "about:blank"

namespace Subproblem

structure Draft where
  type : Option String
  detail : Option (Option String)
  identifier : Option (Option Json.Value)

def record : Json.Record Draft where
  title := "AcmeSubproblem"
  empty := ⟨none, none, none⟩
  fields := [
    .of "type" Json.Reader.text Draft.type (fun d a => { d with type := a }) true,
    .of "detail" (.optional Json.Reader.text) Draft.detail (fun d a => { d with detail := a }) true,
    .of "identifier" (.optional Json.Value.reader) Draft.identifier
      (fun d a => { d with identifier := a }) true]

def reader : Json.Reader Subproblem := fun depth node => do
  let draft ← record.read depth node
  return ⟨draft.type.getD defaultProblemType, draft.detail.join, draft.identifier.join⟩

def toJson (s : Subproblem) : Json.Value :=
  .object <| [("type", .text s.type)] ++
    (s.detail.map fun detail => ("detail", Json.Value.text detail)).toList ++
    (s.identifier.map fun identifier => ("identifier", identifier)).toList

end Subproblem

namespace Problem

def new (type : String) (detail : Option String) : Problem := ⟨type, detail, none, []⟩

def withStatus (problem : Problem) (status : Nat) : Problem :=
  { problem with status := some status }

structure Draft where
  type : Option String
  detail : Option (Option String)
  status : Option (Option Nat)
  subproblems : Option (List Subproblem)

def record : Json.Record Draft where
  title := "AcmeProblem"
  empty := ⟨none, none, none, none⟩
  fields := [
    .of "type" Json.Reader.text Draft.type (fun d a => { d with type := a }) true,
    .of "detail" (.optional Json.Reader.text) Draft.detail (fun d a => { d with detail := a }) true,
    .of "status" (.optional Json.Reader.word16) Draft.status
      (fun d a => { d with status := a }) true,
    .of "subproblems" (.list Subproblem.reader) Draft.subproblems
      (fun d a => { d with subproblems := a }) true]

def reader : Json.Reader Problem := fun depth node => do
  let draft ← record.read depth node
  return {
    type := draft.type.getD defaultProblemType
    detail := draft.detail.join
    status := draft.status.join
    subproblems := draft.subproblems.getD [] }

def toJson (p : Problem) : Json.Value :=
  .object <| [("type", .text p.type)] ++
    (p.detail.map fun detail => ("detail", Json.Value.text detail)).toList ++
    (p.status.map fun status => ("status", Json.Value.int status)).toList ++
    if p.subproblems.isEmpty then []
    else [("subproblems", .list (p.subproblems.map Subproblem.toJson))]

def mediaType : String := "application/problem+json"

/-- Whether a response announces a problem document. -/
def isAnnounced (headers : Http.Headers) : Bool :=
  (headers.text? "content-type").any (Text.startsWith mediaType)

/-- The problem that a response carries: its body is taken for one when the response says so or
is no success. The status of the response stands in for a missing one. -/
def ofResponse? (status : Http.Status) (headers : Http.Headers) (body : Bytes) : Option Problem :=
  if isAnnounced headers ∨ ¬status.isSuccess then
    match reader.run body with
    | .ok problem => some { problem with status := some (problem.status.getD status.code) }
    | .error _ => none
  else none

def errorNamespace : String := "urn:ietf:params:acme:error:"

/-- The type without the common name space of the protocol. -/
def shortType (p : Problem) : String := (Text.stripStart? errorNamespace p.type).getD p.type

def isBadNonce (p : Problem) : Bool := p.shortType = "badNonce"

def message (p : Problem) : String :=
  match p.detail with
  | some detail => p.type ++ ": " ++ detail
  | none => p.type

end Problem

end Enrollment
