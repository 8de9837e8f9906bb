import Enrollment.Account.Key
import Enrollment.Http.Headers
import Enrollment.Http.Status
import Enrollment.Procedure

/-! # Exchanges with a server

The calls that talking to a server consists of: requests, and the steps on the pool of nonces that
all talks with the server share.
-/

namespace Enrollment

namespace Http

structure Response where
  status : Status
  headers : Headers
  body : Bytes
  deriving Repr

/-- A request that got no whole response. -/
structure Failure where
  deriving DecidableEq, Repr

def Failure.message : Failure → String
  | ⟨⟩ => "<http>"

abbrev Reply := Except Failure Response

/-- A reply that has to be no error. -/
def Reply.successful : Reply → Reply
  | .error e => .error e
  | .ok response => if response.status.isError then .error ⟨⟩ else .ok response

end Http

inductive TransportWarning where
  | retriesSpent
  | nonceUnreadable
  | nonceNotKept
  deriving DecidableEq, Repr

def TransportWarning.text : TransportWarning → String
  | .retriesSpent => "badNonce yeniden deneme hakkı tükendi"
  | .nonceUnreadable => "badNonce yanıtındaki nonce okunamadı"
  | .nonceNotKept => "yanıttaki Replay-Nonce saklanamadı"

/-- Every request is one sending by the HTTP client. What the client does on its own until it has a
reply, such as following redirects, is within the call. -/
inductive Exchange where
  | head (url : Url)
  | get (url : Url)
  | post (url : Url) (envelope : Envelope)
  | takeNonce
  | keepNonce (nonce : ReplayNonce)
  | warn (warning : TransportWarning)
  deriving DecidableEq, Repr

namespace Exchange

abbrev Answer : Exchange → Type
  | head _ => Http.Reply
  | get _ => Http.Reply
  | post _ _ => Http.Reply
  | takeNonce => Option ReplayNonce
  | keepNonce _ => Unit
  | warn _ => Unit

end Exchange

abbrev Talk := Procedure Exchange Exchange.Answer

end Enrollment
