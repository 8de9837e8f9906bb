import Enrollment.Challenge.Provider
import Enrollment.Procedure

/-! # Proofs in name server records

A proof is a text record that a name service publishes. What the service calls the record is kept
by token for as long as the record is to be removed.
-/

namespace Enrollment

inductive NameServiceError where
  | authentication (message : String)
  | refused (message : String)
  deriving DecidableEq, Repr

def NameServiceError.message : NameServiceError → String
  | .authentication message => "DNS sağlayıcısına kimlik doğrulama yapılamadı: " ++ message
  | .refused message => "DNS sağlayıcısı isteği reddetti: " ++ message

/-- A published record and what the name service calls it. -/
structure PublishedRecord where
  id : String
  record : TextRecord
  deriving DecidableEq, Repr

/-- The records that are kept for removal, by token. -/
abbrev RecordBook := Keyed String PublishedRecord

namespace RecordBook

/-- What was kept for the token before is kept no longer. -/
def remember (book : RecordBook) (token : String) (published : PublishedRecord) : RecordBook :=
  book.put token published

def forget (book : RecordBook) (token : String) : Option PublishedRecord × RecordBook :=
  (book.get? token, book.erase token)

end RecordBook

/-- What showing proofs in records consists of: calls to the name service, and steps on the records
that all runs share. -/
inductive RecordAction where
  | publish (record : TextRecord)
  | remove (published : PublishedRecord)
  | remember (token : String) (published : PublishedRecord)
  | forget (token : String)
  deriving DecidableEq, Repr

abbrev RecordAction.Answer : RecordAction → Type
  | publish _ => Except NameServiceError PublishedRecord
  | remove _ => Except NameServiceError Unit
  | remember _ _ => Unit
  | forget _ => Option PublishedRecord

abbrev RecordWork := Procedure RecordAction RecordAction.Answer

/-- Proofs over a name service, which has a name of its own. -/
structure RecordProofs where
  service : String

namespace RecordProofs

open RecordAction

def recordOf (proof : Proof) : Except KeyAuthorizationError TextRecord := do
  let authorization ← KeyAuthorization.ofKey proof.token proof.key
  authorization.textRecord proof.identifier

def provision (proofs : RecordProofs) (proof : Proof) : RecordWork (Except ProviderError Unit) :=
  match recordOf proof with
  | .error e => return .error (.keyAuthorization e)
  | .ok record => do
    match ← .ask (publish record) with
    | .error e => return .error (.backend proofs.service e.message)
    | .ok published => do
      .ask (remember proof.token published)
      return .ok ()

def deprovision (proofs : RecordProofs) (proof : Proof) :
    RecordWork (Except ProviderError Unit) := do
  match ← .ask (forget proof.token) with
  | none => return .ok ()
  | some published =>
    match ← .ask (remove published) with
    | .error e => return .error (.backend proofs.service e.message)
    | .ok () => return .ok ()

end RecordProofs

end Enrollment
