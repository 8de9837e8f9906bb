import Enrollment.Proofs.Procedure.Completion
import Enrollment.Proofs.Transport.NonceCredit

/-! # Runs of a signed request

The complete runs of a signed request, put together as the request is: a nonce is supplied, the
request is signed and sent, and what comes back ends it or has it sent again.
-/

namespace Enrollment.Transport

open Procedure Exchange ReplayNonce

abbrev Trace := List (Turn Exchange.Answer)

/-- The problem by which a response rejects the nonce of its request. -/
def rejection? (response : Http.Response) : Option Problem :=
  (Problem.ofResponse? response.status response.headers response.body).filter Problem.isBadNonce

/-- What is said of a rejection with a nonce that cannot be read. -/
def unread (headers : Http.Headers) : Trace :=
  match ofHeaders headers with
  | .error _ => [⟨.warn .nonceUnreadable, ()⟩]
  | .ok _ => []

/-- What becomes of the nonce of a response that ends a request. -/
def absorbed (headers : Http.Headers) : Trace :=
  match ofHeaders headers with
  | .error _ => [⟨.warn .nonceNotKept, ()⟩]
  | .ok none => []
  | .ok (some nonce) => [⟨.keepNonce nonce, ()⟩]

/-- The drawing of a nonce, and what comes of it. -/
inductive Drawn (newNonce : Url) : Trace → Except NonceDrawError ReplayNonce → Prop where
  | pooled (nonce : ReplayNonce) : Drawn newNonce [⟨.takeNonce, some nonce⟩] (.ok nonce)
  | asked (reply : Http.Reply) :
    Drawn newNonce [⟨.takeNonce, none⟩, ⟨.head newNonce, reply⟩] (ofReply (nonceReply reply))

/-- A nonce is there already, or it is drawn. -/
inductive Supplied (newNonce : Url) : Option ReplayNonce → Trace → ReplayNonce → Prop where
  | given (nonce : ReplayNonce) : Supplied newNonce (some nonce) [] nonce
  | drawn {drawing : Trace} {nonce : ReplayNonce} (h : Drawn newNonce drawing (.ok nonce)) :
    Supplied newNonce none drawing nonce

def Request.posted (request : Request) (envelope : Envelope) (reply : Http.Reply) :
    Turn Exchange.Answer := ⟨.post request.url envelope, reply⟩

def Request.Signs (request : Request) (nonce : ReplayNonce) (envelope : Envelope) : Prop :=
  request.key.sign request.payload nonce request.url = .ok envelope

variable (newNonce : Url) (request : Request)

/-- What a reply to a request that was sent comes to, and what is done with its nonce at once. -/
inductive Received : Http.Reply → Trace → Sending → Prop where
  | broken (e : Http.Failure) : Received (.error e) [] (.ended (.error .http))
  | answered {response : Http.Response} (h : rejection? response = none) :
    Received (.ok response) (absorbed response.headers) (.ended (ending response
      (Problem.ofResponse? response.status response.headers response.body)))
  | rejected {response : Http.Response} {problem : Problem}
    (h : rejection? response = some problem) :
    Received (.ok response) [] (.rejected problem response.headers)

/-- One sending of a request, and what it comes to. -/
inductive Sent : Option ReplayNonce → Trace → Sending → Prop where
  | undrawn {drawing : Trace} {e : NonceDrawError} (h : Drawn newNonce drawing (.error e)) :
    Sent none drawing (.ended (.error (.nonce e)))
  | unsigned {nonce? : Option ReplayNonce} {supply : Trace} {nonce : ReplayNonce}
    {e : SigningError} (h : Supplied newNonce nonce? supply nonce)
    (hSign : request.key.sign request.payload nonce request.url = .error e) :
    Sent nonce? supply (.ended (.error (.signing e)))
  | posted {nonce? : Option ReplayNonce} {supply after : Trace} {nonce : ReplayNonce}
    {envelope : Envelope} {reply : Http.Reply} {sending : Sending}
    (h : Supplied newNonce nonce? supply nonce) (hSign : request.Signs nonce envelope)
    (hReceived : Received reply after sending) :
    Sent nonce? (supply ++ request.posted envelope reply :: after) sending

/-- The sendings of a request, so many times more than once at most, and what they come to. -/
inductive Resent : Nat → Option ReplayNonce → Trace → Except TransportError Http.Response → Prop
  where
  | ended {retries : Nat} {nonce? : Option ReplayNonce} {trace : Trace}
    {result : Except TransportError Http.Response}
    (h : Sent newNonce request nonce? trace (.ended result)) : Resent retries nonce? trace result
  | spent {nonce? : Option ReplayNonce} {trace : Trace} {problem : Problem}
    {headers : Http.Headers} (h : Sent newNonce request nonce? trace (.rejected problem headers)) :
    Resent 0 nonce? (trace ++ [⟨.warn .retriesSpent, ()⟩]) (.error (.problem problem))
  | again {retries : Nat} {nonce? : Option ReplayNonce} {trace later : Trace} {problem : Problem}
    {headers : Http.Headers} {result : Except TransportError Http.Response}
    (h : Sent newNonce request nonce? trace (.rejected problem headers))
    (hLater : Resent retries (ofHeaders? headers) later result) :
    Resent (retries + 1) nonce? (trace ++ (unread headers ++ later)) result

section

variable {newNonce : Url} {request : Request} {trace : Trace} {nonce? : Option ReplayNonce}

theorem runs_drawNonce_iff {drawing : Except NonceDrawError ReplayNonce} :
    Runs (drawNonce newNonce) trace drawing ↔ Drawn newNonce trace drawing := by
  constructor
  · intro run
    obtain ⟨answer, rest, rfl, hRest⟩ := runs_call_iff.mp run
    cases answer with
    | some nonce =>
      obtain ⟨rfl, rfl⟩ := runs_done_iff.mp hRest
      exact .pooled nonce
    | none =>
      obtain ⟨reply, rest, rfl, hDone⟩ := runs_call_iff.mp hRest
      obtain ⟨rfl, rfl⟩ := runs_done_iff.mp hDone
      exact .asked reply
  · intro h
    cases h with
    | pooled nonce => exact .turn _ (.here _)
    | asked reply => exact .turn _ (.turn _ (.here _))

theorem runs_absorbNonce_iff {headers : Http.Headers} :
    Runs (absorbNonce headers) trace () ↔ trace = absorbed headers := by
  unfold absorbNonce absorbed
  cases ofHeaders headers with
  | error e => exact runs_ask_iff
  | ok found? =>
    cases found? with
    | none => exact runs_done_iff.trans (and_iff_left rfl)
    | some nonce => exact runs_ask_iff

theorem runs_rejectionNonce_iff {headers : Http.Headers} {next? : Option ReplayNonce} :
    Runs (rejectionNonce headers) trace next? ↔
      trace = unread headers ∧ next? = ofHeaders? headers := by
  unfold rejectionNonce unread
  cases h : ofHeaders headers with
  | error e =>
    have hNone : ofHeaders? headers = none := by rw [ofHeaders?, h]; rfl
    rw [hNone]
    constructor
    · intro run
      obtain ⟨before, _, after, rfl, hWarn, hDone⟩ := runs_bind_iff.mp run
      obtain ⟨rfl, rfl⟩ := runs_done_iff.mp hDone
      exact ⟨by rw [runs_ask_iff.mp hWarn]; rfl, rfl⟩
    · rintro ⟨rfl, rfl⟩
      exact .turn _ (.here _)
  | ok found? => exact ofHeaders?_eq h ▸ runs_done_iff

theorem runs_receive_iff {response : Http.Response} {sending : Sending} :
    Runs (receive response) trace sending ↔ Received (.ok response) trace sending := by
  unfold receive
  constructor
  · intro run
    cases h : rejection? response with
    | some problem =>
      rw [rejection?] at h
      simp only [h] at run
      obtain ⟨rfl, rfl⟩ := runs_done_iff.mp run
      exact .rejected h
    | none =>
      rw [rejection?] at h
      simp only [h] at run
      obtain ⟨before, _, after, rfl, hAbsorb, hDone⟩ := runs_bind_iff.mp run
      obtain ⟨rfl, rfl⟩ := runs_done_iff.mp hDone
      obtain rfl := runs_absorbNonce_iff.mp hAbsorb
      rw [List.append_nil]
      exact .answered h
  · intro received
    cases received with
    | answered h =>
      rw [rejection?] at h
      simp only [h]
      exact runs_bind_iff.mpr ⟨_, (), [], (List.append_nil _).symm,
        runs_absorbNonce_iff.mpr rfl, .here _⟩
    | rejected h =>
      rw [rejection?] at h
      simp only [h]
      exact .here _

theorem runs_sendWith_iff_of_signs {nonce : ReplayNonce} {envelope : Envelope} {sending : Sending}
    (hSign : request.Signs nonce envelope) : Runs (sendWith request nonce) trace sending ↔
      ∃ reply after, trace = request.posted envelope reply :: after ∧
        Received reply after sending := by
  rw [Request.Signs] at hSign
  rw [sendWith, hSign]
  constructor
  · intro run
    obtain ⟨reply, rest, rfl, hRest⟩ := runs_call_iff.mp run
    refine ⟨reply, rest, rfl, ?_⟩
    cases reply with
    | error e =>
      obtain ⟨rfl, rfl⟩ := runs_done_iff.mp hRest
      exact .broken e
    | ok response => exact runs_receive_iff.mp hRest
  · rintro ⟨reply, after, rfl, hReceived⟩
    refine .turn _ ?_
    cases reply with
    | error e =>
      cases hReceived
      exact .here _
    | ok response => exact runs_receive_iff.mpr hReceived

theorem sent_of_runs_sendWith {supply : Trace} {nonce : ReplayNonce} {sending : Sending}
    (h : Supplied newNonce nonce? supply nonce)
    (run : Runs (sendWith request nonce) trace sending) :
    Sent newNonce request nonce? (supply ++ trace) sending := by
  cases hSign : request.key.sign request.payload nonce request.url with
  | error e =>
    rw [sendWith, hSign] at run
    obtain ⟨rfl, rfl⟩ := runs_done_iff.mp run
    rw [List.append_nil]
    exact .unsigned h hSign
  | ok envelope =>
    obtain ⟨reply, after, rfl, hReceived⟩ := (runs_sendWith_iff_of_signs hSign).mp run
    exact .posted h hSign hReceived

theorem runs_send_of_sendWith {supply : Trace} {nonce : ReplayNonce} {sending : Sending}
    (h : Supplied newNonce nonce? supply nonce)
    (run : Runs (sendWith request nonce) trace sending) :
    Runs (send newNonce request nonce?) (supply ++ trace) sending := by
  cases h with
  | given => exact run
  | drawn h => exact runs_bind_iff.mpr ⟨_, _, _, rfl, runs_drawNonce_iff.mpr h, run⟩

theorem runs_send_iff {sending : Sending} : Runs (send newNonce request nonce?) trace sending ↔
    Sent newNonce request nonce? trace sending := by
  constructor
  · intro run
    cases nonce? with
    | some nonce => exact sent_of_runs_sendWith (.given nonce) run
    | none =>
      obtain ⟨supply, drawing, after, rfl, hDraw, hAfter⟩ := runs_bind_iff.mp run
      have hDrawn := runs_drawNonce_iff.mp hDraw
      cases drawing with
      | error e =>
        obtain ⟨rfl, rfl⟩ := runs_done_iff.mp hAfter
        rw [List.append_nil]
        exact .undrawn hDrawn
      | ok nonce => exact sent_of_runs_sendWith (.drawn hDrawn) hAfter
  · intro h
    cases h with
    | undrawn h =>
      exact runs_bind_iff.mpr ⟨_, _, [], (List.append_nil _).symm, runs_drawNonce_iff.mpr h,
        .here _⟩
    | unsigned h hSign =>
      rw [← List.append_nil trace]
      refine runs_send_of_sendWith h ?_
      rw [sendWith, hSign]
      exact .here _
    | posted h hSign hReceived =>
      exact runs_send_of_sendWith h
        ((runs_sendWith_iff_of_signs hSign).mpr ⟨_, _, rfl, hReceived⟩)

theorem runs_sendAgain_iff {retries : Nat} {result : Except TransportError Http.Response} :
    Runs (sendAgain newNonce request retries nonce?) trace result ↔
      Resent newNonce request retries nonce? trace result := by
  constructor
  · intro run
    induction retries generalizing trace nonce? with
    | zero =>
      obtain ⟨before, sending, after, rfl, hSend, hAfter⟩ := runs_bind_iff.mp run
      cases sending with
      | ended result =>
        obtain ⟨rfl, rfl⟩ := runs_done_iff.mp hAfter
        rw [List.append_nil]
        exact .ended (runs_send_iff.mp hSend)
      | rejected problem headers =>
        obtain ⟨_, rest, rfl, hDone⟩ := runs_call_iff.mp hAfter
        obtain ⟨rfl, rfl⟩ := runs_done_iff.mp hDone
        exact .spent (runs_send_iff.mp hSend)
    | succ retries ih =>
      obtain ⟨before, sending, after, rfl, hSend, hAfter⟩ := runs_bind_iff.mp run
      cases sending with
      | ended result =>
        obtain ⟨rfl, rfl⟩ := runs_done_iff.mp hAfter
        rw [List.append_nil]
        exact .ended (runs_send_iff.mp hSend)
      | rejected problem headers =>
        obtain ⟨warned, next?, later, rfl, hNonce, hLater⟩ := runs_bind_iff.mp hAfter
        obtain ⟨rfl, rfl⟩ := runs_rejectionNonce_iff.mp hNonce
        exact .again (runs_send_iff.mp hSend) (ih hLater)
  · intro h
    induction h with
    | @ended retries nonce? trace result h =>
      have hSend := runs_send_iff.mpr h
      rw [← List.append_nil trace]
      cases retries with
      | zero | succ => exact runs_bind_iff.mpr ⟨_, _, [], rfl, hSend, .here _⟩
    | spent h =>
      exact runs_bind_iff.mpr ⟨_, _, _, rfl, runs_send_iff.mpr h, .turn _ (.here _)⟩
    | again h _ ih =>
      refine runs_bind_iff.mpr ⟨_, _, _, rfl, runs_send_iff.mpr h, ?_⟩
      exact runs_bind_iff.mpr ⟨_, _, _, rfl, runs_rejectionNonce_iff.mpr ⟨rfl, rfl⟩, ih⟩

end

end Enrollment.Transport
