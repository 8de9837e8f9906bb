import Enrollment.Codec.Base64
import Enrollment.Http.Headers

/-! # Nonces

A server accepts each nonce once. Nonces that come with its answers are kept in a bounded pool,
oldest first and no value twice; an empty pool is helped out by asking the server for one.
-/

namespace Enrollment

inductive NonceError where
  | empty
  | encoding (cause : Base64.DecodeError)
  | headerText
  | capacity
  deriving DecidableEq, Repr

def NonceError.message : NonceError → String
  | .empty => "Replay-Nonce değeri boş olamaz"
  | .encoding cause => "Replay-Nonce değeri base64url olarak ayrıştırılamadı: " ++ cause.message
  | .headerText =>
    "Replay-Nonce HTTP başlığı UTF-8 olarak çözümlenemedi: failed to convert header to a str"
  | .capacity => "nonce havuzu kapasitesi en az 1 olmalıdır"

structure ReplayNonce where
  text : String
  deriving DecidableEq, Repr

namespace ReplayNonce

def header : String := "Replay-Nonce"

def parse (text : String) : Except NonceError ReplayNonce :=
  let trimmed := Text.trim text
  if trimmed = "" then .error .empty
  else
    match Base64.decodeUrl trimmed with
    | .error e => .error (.encoding e)
    | .ok _ => .ok ⟨trimmed⟩

/-- The nonce that comes with a response, if any. -/
def ofHeaders (headers : Http.Headers) : Except NonceError (Option ReplayNonce) :=
  match headers.get? header with
  | none => .ok none
  | some value =>
    match Http.fieldText? value with
    | none => .error .headerText
    | some text => (parse text).map some

end ReplayNonce

/-- Why no nonce could be had. -/
inductive NonceDrawError where
  | nonce (cause : NonceError)
  | request (cause : String)
  | missing
  deriving DecidableEq, Repr

def NonceDrawError.message : NonceDrawError → String
  | .nonce cause => cause.message
  | .request cause => "newNonce isteği başarısız oldu: " ++ cause
  | .missing => "ACME sunucusu Replay-Nonce başlığı döndürmedi"

/-- What asking the server for a nonce gives: header fields, or the failure of the request. -/
abbrev NonceReply := Except String Http.Headers

/-- The nonce of a reply. It goes to the one who asked, never into the pool. -/
def ReplayNonce.ofReply : NonceReply → Except NonceDrawError ReplayNonce
  | .error cause => .error (.request cause)
  | .ok headers =>
    match ReplayNonce.ofHeaders headers with
    | .error e => .error (.nonce e)
    | .ok none => .error .missing
    | .ok (some nonce) => .ok nonce

/-- Nonces at hand, oldest first. -/
structure NoncePool where
  capacity : Nat
  nonces : List ReplayNonce
  deriving DecidableEq, Repr

namespace NoncePool

def defaultCapacity : Nat := 4

def empty : NoncePool := ⟨defaultCapacity, []⟩

def withCapacity (capacity : Nat) : Except NonceError NoncePool :=
  if capacity = 0 then .error .capacity else .ok ⟨capacity, []⟩

def size (pool : NoncePool) : Nat := pool.nonces.length

/-- The oldest nonce and the pool without it. -/
def take? (pool : NoncePool) : Option (ReplayNonce × NoncePool) :=
  match pool.nonces with
  | [] => none
  | nonce :: rest => some (nonce, { pool with nonces := rest })

/-- Puts a new value at the end; a full pool loses its oldest value for it. -/
def put (pool : NoncePool) (nonce : ReplayNonce) : NoncePool :=
  if nonce ∈ pool.nonces then pool
  else
    let kept := if pool.size = pool.capacity then pool.nonces.drop 1 else pool.nonces
    { pool with nonces := kept ++ [nonce] }

/-- The oldest nonce. When there is none, the nonce of the server's reply, and the pool stays as it
is: `reply` is looked at only then. -/
def draw (pool : NoncePool) (reply : NonceReply) :
    Except NonceDrawError ReplayNonce × NoncePool :=
  match pool.take? with
  | some (nonce, rest) => (.ok nonce, rest)
  | none => (ReplayNonce.ofReply reply, pool)

/-- Whether the next draw asks the server. -/
def asks (pool : NoncePool) : Bool := pool.take?.isNone

def save (pool : NoncePool) (text : String) : Except NonceError (ReplayNonce × NoncePool) :=
  (ReplayNonce.parse text).map fun nonce => (nonce, pool.put nonce)

/-- Keeps the nonce that comes with a response, if any. -/
def absorb (pool : NoncePool) (headers : Http.Headers) :
    Except NonceError (Option ReplayNonce × NoncePool) :=
  (ReplayNonce.ofHeaders headers).map fun
    | none => (none, pool)
    | some nonce => (some nonce, pool.put nonce)

end NoncePool

end Enrollment
