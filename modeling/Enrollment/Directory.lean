import Enrollment.Json.Record
import Enrollment.Json.Value
import Enrollment.Url.Parse

/-! # Directories

The addresses at which a server offers its operations. Members of unknown names are kept; those
with a text for their value are further endpoints.
-/

namespace Enrollment

structure DirectoryMeta where
  termsOfService : Option Url
  website : Option Url
  caaIdentities : List String
  externalAccountRequired : Bool
  deriving DecidableEq, Repr

structure Directory where
  newNonce : Url
  newAccount : Url
  newOrder : Url
  revokeCert : Option Url
  keyChange : Option Url
  renewalInfo : Option Url
  details : Option DirectoryMeta
  /-- Members of other names, in the order of their names. -/
  extra : List (String × Json.Value)
  deriving Repr

inductive DirectoryError where
  | document (cause : Json.ReadError)
  | invalidUrl (member : String) (cause : UrlError)
  deriving DecidableEq, Repr

def DirectoryError.message : DirectoryError → String
  | .document cause => "directory belgesi JSON olarak ayrıştırılamadı: " ++ cause.message
  | .invalidUrl member cause => "`" ++ member ++ "` alanı geçersiz URL: " ++ cause.message

namespace DirectoryMeta

structure Draft where
  termsOfService : Option (Option Url)
  website : Option (Option Url)
  caaIdentities : Option (List String)
  externalAccountRequired : Option Bool

def record : Json.Record Draft where
  title := "AcmeDirectoryMeta"
  empty := ⟨none, none, none, none⟩
  fields := [
    .of "termsOfService" (.optional Url.reader) Draft.termsOfService
      (fun d a => { d with termsOfService := a }) true,
    .of "website" (.optional Url.reader) Draft.website (fun d a => { d with website := a }) true,
    .of "caaIdentities" (.list Json.Reader.text) Draft.caaIdentities
      (fun d a => { d with caaIdentities := a }) true,
    .of "externalAccountRequired" Json.Reader.bool Draft.externalAccountRequired
      (fun d a => { d with externalAccountRequired := a }) true]

def reader : Json.Reader DirectoryMeta := fun depth node => do
  let draft ← record.read depth node
  return {
    termsOfService := draft.termsOfService.join
    website := draft.website.join
    caaIdentities := draft.caaIdentities.getD []
    externalAccountRequired := draft.externalAccountRequired.getD false }

end DirectoryMeta

namespace Directory

structure Draft where
  newNonce : Option Url
  newAccount : Option Url
  newOrder : Option Url
  revokeCert : Option (Option Url)
  keyChange : Option (Option Url)
  renewalInfo : Option (Option Url)
  details : Option (Option DirectoryMeta)
  extra : List (String × Json.Value)

def emptyDraft : Draft := ⟨none, none, none, none, none, none, none, []⟩

def fields : List (Json.Field Draft) := [
  .of "newNonce" Url.reader Draft.newNonce (fun d a => { d with newNonce := a }) false,
  .of "newAccount" Url.reader Draft.newAccount (fun d a => { d with newAccount := a }) false,
  .of "newOrder" Url.reader Draft.newOrder (fun d a => { d with newOrder := a }) false,
  .of "revokeCert" (.optional Url.reader) Draft.revokeCert
    (fun d a => { d with revokeCert := a }) true,
  .of "keyChange" (.optional Url.reader) Draft.keyChange
    (fun d a => { d with keyChange := a }) true,
  .of "renewalInfo" (.optional Url.reader) Draft.renewalInfo
    (fun d a => { d with renewalInfo := a }) true,
  .of "meta" (.optional DirectoryMeta.reader) Draft.details
    (fun d a => { d with details := a }) true]

/-- Members of other names are read as values, so they count in full, not only by their form. -/
def readMembers (depth : Nat) :
    List (Json.Quoted × Json.Outline) → Draft → Except Json.ReadError Draft
  | [], draft => .ok draft
  | (key, node) :: members, draft => do
    let name ← key.read
    match fields.find? (·.name = name) with
    | some field =>
      if field.filled draft then Json.unfit (.duplicate name)
      else readMembers depth members (← field.fill depth node draft)
    | none =>
      let value ← Json.Value.reader depth node
      readMembers depth members { draft with extra := Json.Value.insert name value draft.extra }

def reader : Json.Reader Directory := fun depth node =>
  match node with
  | .object members ending => do
    let depth ← Json.enter depth
    let draft ← readMembers depth members emptyDraft
    ending.check
    return {
      newNonce := ← Json.required "newNonce" draft.newNonce
      newAccount := ← Json.required "newAccount" draft.newAccount
      newOrder := ← Json.required "newOrder" draft.newOrder
      revokeCert := draft.revokeCert.join
      keyChange := draft.keyChange.join
      renewalInfo := draft.renewalInfo.join
      details := draft.details.join
      extra := draft.extra }
  | other => Json.wrongType "struct AcmeDirectory" other

def ofBytes (bytes : Bytes) : Except DirectoryError Directory :=
  match reader.run bytes with
  | .ok directory => .ok directory
  | .error e => .error (.document e)

def endpoints : List (String × Json.Value) → Except DirectoryError (List (String × Url))
  | [] => .ok []
  | (name, .text s) :: rest =>
    match Url.parse s with
    | .error e => .error (.invalidUrl name e)
    | .ok url => (endpoints rest).map ((name, url) :: ·)
  | _ :: rest => endpoints rest

/-- The endpoints beyond the known ones, in the order of their names. -/
def additionalEndpoints (directory : Directory) : Except DirectoryError (List (String × Url)) :=
  endpoints directory.extra

def externalAccountRequired (directory : Directory) : Bool :=
  directory.details.any (·.externalAccountRequired)

end Directory

end Enrollment
