import Enrollment.Codec.Pem
import Enrollment.Json.Value

/-! # Certificates

The request that completes an order with a certificate signing request, and the chain that the
server issues for it.
-/

namespace Enrollment

inductive CertificateError where
  | invalidRequest (reason : String)
  | emptyRequest
  | invalidCertificate (reason : String)
  | emptyChain
  deriving DecidableEq, Repr

def CertificateError.message : CertificateError → String
  | .invalidRequest reason => "CSR PEM ayrıştırılamadı: " ++ reason
  | .emptyRequest => "CSR DER verisi boş"
  | .invalidCertificate reason => "sertifika zinciri PEM verisi geçersiz: " ++ reason
  | .emptyChain => "sertifika zinciri boş"

/-- The body that asks to complete an order: the signing request in the URL alphabet of base64. -/
structure FinalizeRequest where
  csr : String
  deriving DecidableEq, Repr

namespace FinalizeRequest

def ofDer (der : Bytes) : Except CertificateError FinalizeRequest :=
  if der = [] then .error .emptyRequest else .ok ⟨Base64.encodeUrl der⟩

def tags : List String := ["CERTIFICATE REQUEST", "NEW CERTIFICATE REQUEST"]

def ofPem (text : String) : Except CertificateError FinalizeRequest :=
  match Pem.parse text with
  | .error e => .error (.invalidRequest e.message)
  | .ok pem =>
    if tags.contains pem.tag then ofDer pem.contents
    else .error (.invalidRequest ("beklenmeyen PEM etiketi: " ++ pem.tag))

def toJson (request : FinalizeRequest) : Json.Value := .object [("csr", .text request.csr)]

end FinalizeRequest

/-- A chain of certificates as PEM blocks, the leaf first. -/
structure CertificateChain where
  certificates : List String
  ne_nil : certificates ≠ []
  deriving DecidableEq, Repr

namespace CertificateChain

def ofBlocks (certificates : List String) : Except CertificateError CertificateChain :=
  if h : certificates = [] then .error .emptyChain else .ok ⟨certificates, h⟩

def tag : String := "CERTIFICATE"

/-- A block of a chain in the form in which it is kept. -/
def block (pem : Pem) : Except CertificateError String :=
  if pem.tag = tag then .ok (Pem.print ⟨tag, pem.contents⟩)
  else .error (.invalidCertificate ("beklenen CERTIFICATE etiketi, bulundu " ++ pem.tag))

def parse (text : String) : Except CertificateError CertificateChain :=
  match Pem.parseAll text with
  | .error e => .error (.invalidCertificate e.message)
  | .ok pems =>
    match pems.mapM block with
    | .error e => .error e
    | .ok certificates => ofBlocks certificates

def leaf (chain : CertificateChain) : String := chain.certificates.head chain.ne_nil

def intermediates (chain : CertificateChain) : List String := chain.certificates.tail

def toPem (chain : CertificateChain) : String := String.join chain.certificates

end CertificateChain

end Enrollment
