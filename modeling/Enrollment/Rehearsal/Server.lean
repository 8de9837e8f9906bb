import Enrollment.Transport.Exchange

/-! # Scripted servers

A server that gives the replies of a script, one for each request whatever it asks for, and closes
the connection when the script has come to its end.
-/

namespace Enrollment.Rehearsal

structure ScriptedReply where
  response : Http.Response
  /-- Whether the connection is closed without a reply. -/
  dropped : Bool
  /-- Whether the body breaks off. -/
  truncated : Bool

inductive SentRequest where
  | head (url : Url)
  | get (url : Url)
  | post (url : Url) (envelope : Envelope)
  deriving DecidableEq, Repr

/-- A server with what is left of its script, the nonces that its client keeps, and what has been
seen: requests and warnings, the latest first. -/
structure Server where
  script : List ScriptedReply
  pool : NoncePool
  requests : List SentRequest
  warnings : List TransportWarning

namespace Server

def ofScript (script : List ScriptedReply) : Server := ⟨script, .empty, [], []⟩

/-- Header fields lose the blanks around their values on the way. -/
def isPadding (b : UInt8) : Bool := b = 0x20 || b = 0x09

def trimField (value : Bytes) : Bytes :=
  ((value.dropWhile isPadding).reverse.dropWhile isPadding).reverse

def deliver (headOnly : Bool) (reply : ScriptedReply) : Http.Reply :=
  if reply.dropped then .error ⟨⟩
  else
    let headers := reply.response.headers.map fun (name, value) => (name, trimField value)
    if headOnly then .ok { reply.response with headers, body := [] }
    else if reply.truncated then .error ⟨⟩
    else .ok { reply.response with headers }

def answer (server : Server) (request : SentRequest) (headOnly : Bool) : Http.Reply × Server :=
  let server := { server with requests := request :: server.requests }
  match server.script with
  | [] => (.error ⟨⟩, server)
  | reply :: script => (deliver headOnly reply, { server with script })

def handle : (c : Exchange) → Server → c.Answer × Server
  | .head url, server => server.answer (.head url) true
  | .get url, server => server.answer (.get url) false
  | .post url envelope, server => server.answer (.post url envelope) false
  | .takeNonce, server =>
    match server.pool.take? with
    | none => (none, server)
    | some (nonce, pool) => (some nonce, { server with pool })
  | .keepNonce nonce, server => ((), { server with pool := server.pool.put nonce })
  | .warn warning, server => ((), { server with warnings := warning :: server.warnings })

end Server

end Enrollment.Rehearsal
