import Enrollment.Account.Jwk
import Enrollment.Curve.Signature
import Enrollment.Nonce
import Enrollment.Text.Quoted
import Enrollment.Url.Basic

/-! # Account keys and signed requests

An account signs every request. The protected header names the account by its URL once that is
bound to the key, and holds the public key before; never both.
-/

namespace Enrollment

structure AccountKey where
  secret : SecretKey
  account : Option String
  deriving DecidableEq, Repr

/-- What is sent: header, payload and signature, each in the URL alphabet of base64. -/
structure Envelope where
  header : String
  payload : String
  signature : String
  deriving DecidableEq, Repr

namespace Envelope

def toJson (envelope : Envelope) : Json.Value :=
  .object [("protected", .text envelope.header), ("payload", .text envelope.payload),
    ("signature", .text envelope.signature)]

/-- The text that the signature is of. -/
def signingInput (header payload : String) : String := header ++ "." ++ payload

end Envelope

/-- Signing fails only for keys that are too short for it. -/
structure SigningError where
  deriving DecidableEq, Repr

def SigningError.message : SigningError → String
  | ⟨⟩ => "ACME JWS imzası üretilemedi: <signature>"

namespace SecretKey

def algorithm : SecretKey → String
  | .rsa _ _ => "RS256"
  | .curve .p256 _ _ => "ES256"
  | .curve .p384 _ _ => "ES384"

def sign : SecretKey → Bytes → Option Bytes
  | .rsa key _, message => key.sign message
  | .curve c scalar _, message => c.sign scalar message

end SecretKey

namespace AccountKey

def ofSecret (secret : SecretKey) : AccountKey := ⟨secret, none⟩

/-- Binds the key to the account's URL. A blank URL is none. -/
def withAccount (key : AccountKey) (url : String) : AccountKey :=
  let trimmed := Text.trim url
  { key with account := if trimmed = "" then none else some trimmed }

def algorithm (key : AccountKey) : String := key.secret.algorithm

def jwk (key : AccountKey) : Jwk := key.secret.jwk

def thumbprint (key : AccountKey) : String := key.jwk.thumbprint

/-- A key shows its algorithm and account, and nothing of its secret. -/
def describe (key : AccountKey) : String :=
  let account := match key.account with
    | some url => "Some(" ++ Text.quoted url ++ ")"
    | none => "None"
  "AccountKey \x7b alg: " ++ Text.quoted key.algorithm ++ ", kid: " ++ account ++ ", .. \x7d"

def header (key : AccountKey) (nonce : ReplayNonce) (url : Url) : Json.Value :=
  let identity := match key.account with
    | some account => ("kid", .text account)
    | none => ("jwk", key.jwk.toJson)
  .object [("alg", .text key.algorithm), ("nonce", .text nonce.text), ("url", .text url.print),
    identity]

def sign (key : AccountKey) (payload : Bytes) (nonce : ReplayNonce) (url : Url) :
    Except SigningError Envelope :=
  let header := Base64.encodeUrl (Utf8.encode (key.header nonce url).print)
  let payload := Base64.encodeUrl payload
  match key.secret.sign (Utf8.encode (Envelope.signingInput header payload)) with
  | some signature => .ok ⟨header, payload, Base64.encodeUrl signature⟩
  | none => .error ⟨⟩

end AccountKey

end Enrollment
