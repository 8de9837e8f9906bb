import Enrollment.Challenge.Provider
import Enrollment.Issuing.Store
import Enrollment.Service

/-! # What can go wrong in issuing

Solving a challenge, fulfilling authorizations and processing an order, each with the errors of
those before it.
-/

namespace Enrollment

inductive SolveError where
  | noChallenge (kind : String)
  | missingToken
  | noProvider (method : String)
  | provision (cause : ProviderError)
  | service (cause : ClientError)
  | unsettled (attempts : Nat)
  | shutdown
  deriving Repr

def SolveError.message : SolveError → String
  | .noChallenge kind => "authorization " ++ kind ++ " türünde challenge içermiyor"
  | .missingToken => "challenge token içermiyor"
  | .noProvider method => method ++ " yöntemi için sağlayıcı tanımlı değil"
  | .provision cause => "challenge kaynağı hazırlanamadı: " ++ cause.message
  | .service cause => cause.message
  | .unsettled attempts => s!"challenge {attempts} denemede sonuçlanmadı"
  | .shutdown => "kapatma sinyali alındı; challenge doğrulaması yarıda kesildi"

inductive FulfillError where
  | stillPending
  | unknownStatus (status : String)
  | service (cause : ClientError)
  | solve (cause : SolveError)
  | task
  deriving Repr

def FulfillError.message : FulfillError → String
  | .stillPending => "authorization fulfillment sonrasında hâlâ pending"
  | .unknownStatus status => "bilinmeyen authorization durumu: " ++ status
  | .service cause => cause.message
  | .solve cause => cause.message
  | .task => "authorization görevi tamamlanamadı: <task>"

inductive JobError where
  | store (cause : StoreError)
  | service (cause : ClientError)
  | fulfill (cause : FulfillError)
  | identifiers (cause : NewOrderError)
  | request (cause : CertificateError)
  | noCertificateUrl (order : Int)
  | unsettled (attempts : Nat)
  | shutdown
  | queueClosed
  | cancelled
  deriving Repr

def JobError.message : JobError → String
  | .store cause => cause.message
  | .service cause => cause.message
  | .fulfill cause => cause.message
  | .identifiers cause => "sertifika identifier listesi geçersiz: " ++ cause.message
  | .request cause => "CSR kullanılamadı: " ++ cause.message
  | .noCertificateUrl order =>
    "order " ++ toString order ++ " valid fakat sertifika adresi içermiyor"
  | .unsettled attempts => s!"order {attempts} denemede sonuçlanmadı"
  | .shutdown => "kapatma sinyali alındı; order işlenmesi yarıda kesildi"
  | .queueClosed => "order kuyruğu kapalı"
  | .cancelled => "order işi sonuç bildirmeden sonlandı"

end Enrollment
