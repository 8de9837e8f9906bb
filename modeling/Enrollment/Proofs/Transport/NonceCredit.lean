import Enrollment.Proofs.Account.Envelope
import Enrollment.Proofs.Procedure.Credit
import Enrollment.Transport.Signed

/-! # What a signed request does with nonces

A request that is sent uses up the nonce that it carries. One request sends and keeps no nonce more
often than it was given it: by the pool, by a reply to its question for one, or by the response to
an earlier sending.
-/

namespace Enrollment

open Procedure

namespace ReplayNonce

/-- The nonce that header fields bring, if it can be read. -/
def ofHeaders? (headers : Http.Headers) : Option ReplayNonce := (ofHeaders headers).toOption.join

/-- How often a value is had from what may be a nonce. -/
def worth (value : String) : Option ReplayNonce → Nat
  | none => 0
  | some nonce => if nonce.text = value then 1 else 0

end ReplayNonce

/-- The nonce that comes with a reply, if it can be read. -/
def Http.Reply.nonce? : Http.Reply → Option ReplayNonce
  | .error _ => none
  | .ok response => ReplayNonce.ofHeaders? response.headers

namespace Exchange

open ReplayNonce (worth)

/-- A request that is sent carries a nonce. -/
def IsSigned : Exchange → Prop
  | .post _ envelope => ∃ value, envelope.nonce? = some value
  | .head _ | .get _ | .takeNonce | .keepNonce _ | .warn _ => True

/-- How often a value is used up by a call. -/
def price (value : String) : Exchange → Nat
  | .post _ envelope => if envelope.nonce? = some value then 1 else 0
  | .keepNonce nonce => worth value (some nonce)
  | .head _ | .get _ | .takeNonce | .warn _ => 0

/-- How often a value comes in with an answer. -/
def gain (value : String) : (c : Exchange) → c.Answer → Nat
  | .head _, reply | .post _ _, reply => worth value (Http.Reply.nonce? reply)
  | .takeNonce, nonce? => worth value nonce?
  | .get _, _ | .keepNonce _, _ | .warn _, _ => 0

def tariff (value : String) : Tariff Exchange.Answer := ⟨IsSigned, price value, gain value⟩

end Exchange

namespace Transport

open Exchange ReplayNonce

variable {value : String} {credit : Nat}

theorem ofHeaders?_eq {headers : Http.Headers} {nonce? : Option ReplayNonce}
    (h : ofHeaders headers = .ok nonce?) : ofHeaders? headers = nonce? := by
  rw [ofHeaders?, h]
  cases nonce? <;> rfl

theorem of_nonceReply {reply : Http.Reply} {headers : Http.Headers}
    (h : nonceReply reply = .ok headers) :
    ∃ response, reply = .ok response ∧ headers = response.headers := by
  cases reply with
  | error e => cases h
  | ok response =>
    unfold nonceReply Http.Reply.successful at h
    cases hStatus : response.status.isError with
    | true =>
      simp only [hStatus, if_true] at h
      cases h
    | false =>
      simp only [hStatus, Bool.false_eq_true, if_false] at h
      cases h
      exact ⟨response, rfl, rfl⟩

theorem of_ofReply {reply : NonceReply} {nonce : ReplayNonce} (h : ofReply reply = .ok nonce) :
    ∃ headers, reply = .ok headers ∧ ofHeaders headers = .ok (some nonce) := by
  unfold ofReply at h
  split at h
  · cases h
  · next headers =>
    split at h
    · cases h
    · cases h
    · next hHeaders =>
      cases h
      exact ⟨headers, rfl, hHeaders⟩

theorem nonce?_of_ofReply {reply : Http.Reply} {nonce : ReplayNonce}
    (h : ofReply (nonceReply reply) = .ok nonce) : reply.nonce? = some nonce := by
  obtain ⟨headers, hReply, hHeaders⟩ := of_ofReply h
  obtain ⟨response, rfl, rfl⟩ := of_nonceReply hReply
  exact ofHeaders?_eq hHeaders

theorem affords_drawNonce (newNonce : Url) :
    (drawNonce newNonce).Affords (tariff value)
      (fun credit result => ∀ nonce, result = .ok nonce → worth value (some nonce) ≤ credit)
      credit := by
  refine ⟨trivial, Nat.zero_le _, fun nonce? => ?_⟩
  cases nonce? with
  | some nonce =>
    rintro _ ⟨⟩
    exact Nat.le_add_left _ _
  | none =>
    refine ⟨trivial, Nat.zero_le _, fun reply => ?_⟩
    intro nonce hNonce
    have hReply : worth value (some nonce) = gain value (.head newNonce) reply := by
      rw [gain, nonce?_of_ofReply hNonce]
    rw [hReply]
    exact Nat.le_add_left _ _

theorem affords_absorbNonce {headers : Http.Headers}
    (h : worth value (ofHeaders? headers) ≤ credit) :
    (absorbNonce headers).Affords (tariff value) (fun _ _ => True) credit := by
  unfold absorbNonce
  cases hHeaders : ofHeaders headers with
  | error e => exact ⟨trivial, Nat.zero_le _, fun _ => trivial⟩
  | ok nonce? =>
    rw [ofHeaders?_eq hHeaders] at h
    cases nonce? with
    | none => trivial
    | some nonce => exact ⟨trivial, h, fun _ => trivial⟩

/-- A rejection leaves the nonce that came with it to be used. -/
def Leaves (value : String) (credit : Nat) : Sending → Prop
  | .rejected _ headers => worth value (ofHeaders? headers) ≤ credit
  | .ended _ => True

theorem affords_receive {response : Http.Response}
    (h : worth value (ofHeaders? response.headers) ≤ credit) :
    (receive response).Affords (tariff value) (Leaves value) credit := by
  unfold receive
  dsimp only
  split
  · exact h
  · exact (affords_absorbNonce h).bind fun _ _ _ => trivial

theorem affords_sendWith (request : Request) {nonce : ReplayNonce}
    (h : worth value (some nonce) ≤ credit) :
    (sendWith request nonce).Affords (tariff value) (Leaves value) credit := by
  unfold sendWith
  cases hSign : request.key.sign request.payload nonce request.url with
  | error e => trivial
  | ok envelope =>
    have hCarried := AccountKey.nonce?_of_sign hSign
    have hPrice : price value (.post request.url envelope) = worth value (some nonce) := by
      simp only [price, worth, hCarried, Option.some.injEq]
    refine ⟨⟨_, hCarried⟩, Nat.le_trans (Nat.le_of_eq hPrice) h, fun reply => ?_⟩
    cases reply with
    | error e => trivial
    | ok response => exact affords_receive (Nat.le_add_left _ _)

theorem affords_send (newNonce : Url) (request : Request) {nonce? : Option ReplayNonce}
    (h : worth value nonce? ≤ credit) :
    (send newNonce request nonce?).Affords (tariff value) (Leaves value) credit := by
  cases nonce? with
  | some nonce => exact affords_sendWith request h
  | none =>
    refine (affords_drawNonce newNonce).bind ?_
    intro credit result hResult
    cases result with
    | error e => trivial
    | ok nonce => exact affords_sendWith request (hResult nonce rfl)

theorem affords_rejectionNonce {headers : Http.Headers}
    (h : worth value (ofHeaders? headers) ≤ credit) :
    (rejectionNonce headers).Affords (tariff value)
      (fun credit nonce? => worth value nonce? ≤ credit) credit := by
  unfold rejectionNonce
  cases hHeaders : ofHeaders headers with
  | error e => exact ⟨trivial, Nat.zero_le _, fun _ => Nat.zero_le _⟩
  | ok nonce? =>
    rw [ofHeaders?_eq hHeaders] at h
    exact h

theorem affords_sendAgain (newNonce : Url) (request : Request) (retries : Nat)
    {nonce? : Option ReplayNonce} (h : worth value nonce? ≤ credit) :
    (sendAgain newNonce request retries nonce?).Affords (tariff value) (fun _ _ => True)
      credit := by
  induction retries generalizing nonce? credit with
  | zero =>
    refine (affords_send newNonce request h).bind ?_
    intro credit sending _
    cases sending with
    | ended result => trivial
    | rejected problem headers => exact ⟨trivial, Nat.zero_le _, fun _ => trivial⟩
  | succ retries ih =>
    refine (affords_send newNonce request h).bind ?_
    intro credit sending hSending
    cases sending with
    | ended result => trivial
    | rejected problem headers =>
      exact (affords_rejectionNonce hSending).bind fun _ _ hNonce => ih hNonce

theorem affords_postRequest (newNonce : Url) (request : Request) :
    (postRequest newNonce request).Affords (tariff value) (fun _ _ => True) 0 :=
  affords_sendAgain newNonce request maxRetries (Nat.le_refl 0)

end Transport

end Enrollment
