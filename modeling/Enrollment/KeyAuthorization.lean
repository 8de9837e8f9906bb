import Enrollment.Account.Key
import Enrollment.Authorization

/-! # Key authorizations

The answer to a challenge: its token and the thumbprint of the account key. A web server shows it
under a well-known path, a name server shows its digest in a text record.
-/

namespace Enrollment

inductive KeyAuthorizationError where
  | emptyToken
  | invalidToken
  | noName
  deriving DecidableEq, Repr

def KeyAuthorizationError.message : KeyAuthorizationError → String
  | .emptyToken => "challenge token değeri boş olamaz"
  | .invalidToken => "challenge token değeri base64url karakterleri dışındakiler içeriyor"
  | .noName => "DNS-01 challenge yalnızca DNS identifier ile kullanılabilir"

structure TextRecord where
  name : String
  value : String
  deriving DecidableEq, Repr

structure KeyAuthorization where
  token : String
  thumbprint : String
  deriving DecidableEq, Repr

namespace KeyAuthorization

def ofThumbprint (token thumbprint : String) : Except KeyAuthorizationError KeyAuthorization :=
  if token = "" then .error .emptyToken
  else if isToken token then .ok ⟨token, thumbprint⟩
  else .error .invalidToken

def ofKey (token : String) (key : AccountKey) : Except KeyAuthorizationError KeyAuthorization :=
  ofThumbprint token key.thumbprint

def value (k : KeyAuthorization) : String := k.token ++ "." ++ k.thumbprint

def wellKnownPath : String := "/.well-known/acme-challenge/"

def path (k : KeyAuthorization) : String := wellKnownPath ++ k.token

def isBodyEnd (c : Char) : Bool := c = '\n' || c = '\r' || c = ' ' || c = '\t'

/-- Whether a web server's answer is this one; blanks at its end do not matter. -/
def matchesBody (k : KeyAuthorization) (body : String) : Bool :=
  Text.trimEndBy isBodyEnd body.toList = k.value.toList

def recordLabel : String := "_acme-challenge"

/-- The record for a name. A wildcard is proved by the record of the name under it. -/
def textRecord (k : KeyAuthorization) : Identifier → Except KeyAuthorizationError TextRecord
  | .ip _ => .error .noName
  | .dns name => .ok {
      name := recordLabel ++ "." ++ (Text.stripStart? "*." name).getD name
      value := Base64.encodeUrl (Digest.sha256.digest (Utf8.encode k.value)) }

end KeyAuthorization

end Enrollment
