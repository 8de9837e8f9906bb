import Enrollment.Account.StoredKey
import Enrollment.Codec.Base64
import Enrollment.Digest.Sha256
import Enrollment.Json.Value

/-! # Public keys

The public half of an account key as it is written into requests, and its thumbprint: the digest
of its members in the order of their names.
-/

namespace Enrollment

inductive Jwk where
  | ec (curve x y : String)
  | rsa (modulus exponent : String)
  deriving DecidableEq, Repr

namespace Jwk

def toJson : Jwk → Json.Value
  | .ec curve x y =>
    .object [("kty", .text "EC"), ("crv", .text curve), ("x", .text x), ("y", .text y)]
  | .rsa modulus exponent =>
    .object [("kty", .text "RSA"), ("n", .text modulus), ("e", .text exponent)]

/-- The text of which the thumbprint is the digest. The values are put in as they are: those of a
key are base64, which needs no escapes. -/
def canonical : Jwk → String
  | .ec curve x y =>
    "\x7b\"crv\":\"" ++ curve ++ "\",\"kty\":\"EC\",\"x\":\"" ++ x ++ "\",\"y\":\"" ++ y ++ "\"\x7d"
  | .rsa modulus exponent =>
    "\x7b\"e\":\"" ++ exponent ++ "\",\"kty\":\"RSA\",\"n\":\"" ++ modulus ++ "\"\x7d"

def thumbprint (jwk : Jwk) : String :=
  Base64.encodeUrl (Digest.sha256.digest (Utf8.encode jwk.canonical))

end Jwk

namespace SecretKey

def jwk : SecretKey → Jwk
  | .rsa key _ =>
    .rsa (Base64.encodeUrl (BigEndian.writeMinimal key.modulus))
      (Base64.encodeUrl (BigEndian.writeMinimal key.publicExponent))
  | .curve c scalar _ =>
    let point := c.multiple scalar
    .ec c.name (Base64.encodeUrl (BigEndian.write c.size point.x))
      (Base64.encodeUrl (BigEndian.write c.size point.y))

end SecretKey

end Enrollment
