import Enrollment.Account.Key
import Enrollment.Certificate
import Enrollment.Challenge.Provider
import Enrollment.Environment
import Enrollment.Order
import Enrollment.Renewal.Scan

/-! # Stores

What is kept about managed certificates and their orders, and what a store can be asked to do.
-/

namespace Enrollment

/-- A managed certificate as issuing needs it. -/
structure CertificateRecord where
  id : Int
  name : String
  /-- The names that the certificate is for, its subject first. -/
  identifiers : List String
  key : AccountKey
  method : ChallengeMethod
  environment : Environment
  /-- The signing request that completes an order. -/
  request : Bytes
  deriving DecidableEq, Repr

structure OrderRecord where
  id : Int
  certificate : Int
  location : Url
  deriving DecidableEq, Repr

inductive Stored where
  | certificate
  | order
  deriving DecidableEq, Repr

def Stored.name : Stored → String
  | .certificate => "certificate"
  | .order => "order"

inductive StoreError where
  | notFound (what : Stored) (id : Int)
  | backend (reason : String)
  deriving DecidableEq, Repr

def StoreError.message : StoreError → String
  | .notFound what id => what.name ++ " bulunamadı: " ++ toString id
  | .backend reason => "depolama hatası: " ++ reason

inductive StoreRequest where
  | certificate (id : Int)
  | order (id : Int)
  /-- Keeps a new order and gives it an id. -/
  | insertOrder (certificate : Int) (order : Order)
  | updateOrder (id : Int) (order : Order)
  | markOrderInvalid (id : Int)
  | saveCertificate (order : Int) (chain : CertificateChain)
  | managedCertificates
  deriving Repr

namespace StoreRequest

/-- What a request that succeeds is answered with. -/
abbrev Result : StoreRequest → Type
  | certificate _ => CertificateRecord
  | order _ => OrderRecord
  | insertOrder _ _ => Int
  | updateOrder _ _ => Unit
  | markOrderInvalid _ => Unit
  | saveCertificate _ _ => Unit
  | managedCertificates => List ManagedCertificate

abbrev Answer (request : StoreRequest) : Type := Except StoreError request.Result

end StoreRequest

end Enrollment
