import Enrollment.Proofs.Transport.Resending
import Enrollment.Proofs.Transport.Traffic

/-! # The protocol of retries

A signed request is sent again only when the server has rejected its nonce, a bounded number of
times. What comes before each sending and what follows it is the whole protocol; the pool gains the
nonce of the response that ends the request and no other.
-/

namespace Enrollment

def Exchange.isPost : Exchange → Bool
  | .post _ _ => true
  | .head _ | .get _ | .takeNonce | .keepNonce _ | .warn _ => false

/-- Whether a call may come between the sendings of a request. -/
def Exchange.isPreparation : Exchange → Bool
  | .head _ | .takeNonce | .warn _ => true
  | .get _ | .post _ _ | .keepNonce _ => false

namespace NoncePool

variable {pool rest : NoncePool} {nonce other : ReplayNonce}

theorem mem_put_self (pool : NoncePool) (nonce : ReplayNonce) :
    nonce ∈ (pool.put nonce).nonces := by
  unfold put
  split
  · assumption
  · simp

theorem mem_of_mem_put (h : nonce ∈ (pool.put other).nonces) :
    nonce ∈ pool.nonces ∨ nonce = other := by
  unfold put at h
  split at h
  · exact .inl h
  · rcases List.mem_append.mp h with hKept | hLast
    · refine .inl ?_
      split at hKept
      · exact List.mem_of_mem_drop hKept
      · exact hKept
    · exact .inr (List.mem_singleton.mp hLast)

theorem mem_of_take? (h : pool.take? = some (other, rest)) (hMem : nonce ∈ rest.nonces) :
    nonce ∈ pool.nonces := by
  unfold take? at h
  split at h
  · cases h
  · next first others hNonces =>
    cases h
    exact hNonces ▸ List.mem_cons_of_mem other hMem

theorem take?_of_onPool? (h : Exchange.takeNonce.onPool? pool = some (some nonce, rest)) :
    pool.take? = some (nonce, rest) := by
  simp only [Exchange.onPool?] at h
  split at h
  · next hTake =>
    cases h
    exact hTake
  · cases h

theorem take?_eq_none_of_onPool? (h : Exchange.takeNonce.onPool? pool = some (none, rest)) :
    pool.take? = none ∧ rest = pool := by
  simp only [Exchange.onPool?] at h
  split at h
  · cases h
  · next hTake =>
    cases h
    exact ⟨hTake, rfl⟩

/-- What a call brings into a pool is what it asks to be kept. -/
theorem mem_of_onPool? {c : Exchange} {answer : c.Answer}
    (h : c.onPool? pool = some (answer, rest)) (hMem : nonce ∈ rest.nonces) :
    nonce ∈ pool.nonces ∨ c = .keepNonce nonce := by
  cases c with
  | takeNonce =>
    cases answer with
    | some taken => exact .inl (mem_of_take? (take?_of_onPool? h) hMem)
    | none => exact .inl ((take?_eq_none_of_onPool? h).2 ▸ hMem)
  | keepNonce kept =>
    cases h
    exact (mem_of_mem_put hMem).imp_right fun hKept => congrArg Exchange.keepNonce hKept.symm
  | warn =>
    cases h
    exact .inl hMem
  | head | get | post => cases h

end NoncePool

namespace Transport

open Procedure Exchange ReplayNonce

/-- How often a trace sends a signed request. -/
def posts (trace : Trace) : Nat := trace.countP (·.call.isPost)

/-- What an envelope of a request says, read back from it. -/
structure Request.Carries (request : Request) (nonce : ReplayNonce) (envelope : Envelope) : Prop
    where
  signed : request.Signs nonce envelope
  payload : Base64.decodeUrl envelope.payload = .ok request.payload
  header : ∃ header, envelope.headerValue? = some header ∧
    ∀ name, header.field? name = (request.key.headerMembers nonce request.url).lookup name

variable (newNonce : Url) (request : Request)

/-- Why a request may be sent with a nonce after a trace: it is the first sending, or the one that
follows a rejection. -/
inductive Warranted (nonce? : Option ReplayNonce) : Trace → ReplayNonce → Prop where
  | first {supply : Trace} {nonce : ReplayNonce} (h : Supplied newNonce nonce? supply nonce) :
    Warranted nonce? supply nonce
  | again {before supply : Trace} {envelope : Envelope} {response : Http.Response}
    {problem : Problem} {nonce : ReplayNonce} (hReject : rejection? response = some problem)
    (h : Supplied newNonce (ofHeaders? response.headers) supply nonce) :
    Warranted nonce? (before ++ request.posted envelope (.ok response) ::
      (unread response.headers ++ supply)) nonce

/-- What follows a reply when so many sendings are left. -/
inductive Followed (left : Nat) : Http.Reply → Trace → Except TransportError Http.Response → Prop
  where
  | broken (e : Http.Failure) : Followed left (.error e) [] (.error .http)
  | answered {response : Http.Response} (h : rejection? response = none) :
    Followed left (.ok response) (absorbed response.headers) (ending response
      (Problem.ofResponse? response.status response.headers response.body))
  | spent {response : Http.Response} {problem : Problem} (hLeft : left = 0)
    (h : rejection? response = some problem) :
    Followed left (.ok response) [⟨.warn .retriesSpent, ()⟩] (.error (.problem problem))
  | undrawn {response : Http.Response} {problem : Problem} {drawing : Trace} {e : NonceDrawError}
    (hLeft : 0 < left) (h : rejection? response = some problem)
    (hNone : ofHeaders? response.headers = none) (hDrawn : Drawn newNonce drawing (.error e)) :
    Followed left (.ok response) (unread response.headers ++ drawing) (.error (.nonce e))
  | unsigned {response : Http.Response} {problem : Problem} {supply : Trace} {nonce : ReplayNonce}
    {e : SigningError} (hLeft : 0 < left) (h : rejection? response = some problem)
    (hSupplied : Supplied newNonce (ofHeaders? response.headers) supply nonce)
    (hSign : request.key.sign request.payload nonce request.url = .error e) :
    Followed left (.ok response) (unread response.headers ++ supply) (.error (.signing e))
  | again {response : Http.Response} {problem : Problem} {supply later : Trace}
    {nonce : ReplayNonce} {envelope : Envelope} {reply : Http.Reply}
    {result : Except TransportError Http.Response} (hLeft : 0 < left)
    (h : rejection? response = some problem)
    (hSupplied : Supplied newNonce (ofHeaders? response.headers) supply nonce)
    (hSign : request.Signs nonce envelope) :
    Followed left (.ok response)
      (unread response.headers ++ (supply ++ request.posted envelope reply :: later)) result

/-- The calls on the pool in a trace are answered by a pool that changes with them. -/
inductive Plays : NoncePool → Trace → NoncePool → Prop where
  | nil (pool : NoncePool) : Plays pool [] pool
  | request {pool last : NoncePool} {c : Exchange} {answer : c.Answer} {later : Trace}
    (h : c.isRequest = true) (hLater : Plays pool later last) :
    Plays pool (⟨c, answer⟩ :: later) last
  | pooled {pool next last : NoncePool} {c : Exchange} {answer : c.Answer} {later : Trace}
    (h : c.onPool? pool = some (answer, next)) (hLater : Plays next later last) :
    Plays pool (⟨c, answer⟩ :: later) last

/-- The nonce with which the response that ends a request comes. -/
def EndsWith (trace : Trace) (nonce : ReplayNonce) : Prop :=
  ∃ before envelope response after,
    trace = before ++ request.posted envelope (.ok response) :: after ∧
      rejection? response = none ∧ ofHeaders? response.headers = some nonce

structure Protocol (trace : Trace) (result : Except TransportError Http.Response) : Prop where
  bounded : posts trace ≤ maxRetries + 1
  warranted : ∀ before url envelope reply after,
    trace = before ++ ⟨.post url envelope, reply⟩ :: after →
    url = request.url ∧ ∃ nonce, request.Carries nonce envelope ∧
      Warranted newNonce request none before nonce
  followed : ∀ before envelope reply after,
    trace = before ++ request.posted envelope reply :: after →
    Followed newNonce request (maxRetries - posts before) reply after result
  keeps : ∀ before nonce after, trace = before ++ ⟨.keepNonce nonce, ()⟩ :: after →
    after = [] ∧ EndsWith request before nonce
  gains : ∀ first last, Plays first trace last → ∀ nonce ∈ last.nonces,
    nonce ∈ first.nonces ∨ EndsWith request trace nonce
  pooled : ∀ first last, Plays first trace last → ∀ nonce, EndsWith request trace nonce →
    nonce ∈ last.nonces
  /-- What is drawn is what the pool gives out then for the reply of the server. -/
  draws : ∀ first last before drawing after drawn, Plays first trace last →
    trace = before ++ (drawing ++ after) → Drawn newNonce drawing drawn →
      ∃ pool rest reply, Plays first before pool ∧ pool.draw reply = (drawn, rest) ∧
        Plays rest after last ∧ ∀ r, ⟨.head newNonce, r⟩ ∈ drawing → reply = nonceReply r

section

variable {newNonce : Url} {request : Request} {nonce? : Option ReplayNonce} {nonce : ReplayNonce}
  {trace before after : Trace} {turn : Turn Exchange.Answer}

@[simp] theorem posts_nil : posts [] = 0 := rfl

@[simp] theorem posts_append (s t : Trace) : posts (s ++ t) = posts s + posts t :=
  List.countP_append

@[simp] theorem posts_posted (envelope : Envelope) (reply : Http.Reply) (later : Trace) :
    posts (request.posted envelope reply :: later) = posts later + 1 := by
  simp [posts, Request.posted, isPost]

/-- An entry of a list of two parts is in the first part or in the second. -/
theorem append_eq_append_cons {α : Type} {front rest before after : List α} {a : α}
    (h : front ++ rest = before ++ a :: after) :
    (∃ between, front = before ++ a :: between ∧ after = between ++ rest) ∨
      ∃ between, before = front ++ between ∧ rest = between ++ a :: after := by
  rcases List.append_eq_append_iff.mp h with ⟨between, rfl, rfl⟩ | ⟨between, rfl, hAfter⟩
  · exact .inr ⟨between, rfl, rfl⟩
  · cases between with
    | nil => exact .inr ⟨[], by simp, by simpa using hAfter.symm⟩
    | cons b between =>
      obtain ⟨rfl, rfl⟩ := List.cons.inj hAfter
      exact .inl ⟨between, rfl, rfl⟩

theorem append_eq_append_cons_of_not_mem {α : Type} {front rest before after : List α} {a : α}
    (h : front ++ rest = before ++ a :: after) (hFront : a ∉ front) :
    ∃ between, before = front ++ between ∧ rest = between ++ a :: after := by
  rcases append_eq_append_cons h with ⟨between, rfl, -⟩ | hRest
  · exact absurd (by simp) hFront
  · exact hRest

theorem singleton_eq_append_cons {α : Type} {b a : α} {before after : List α}
    (h : [b] = before ++ a :: after) : before = [] ∧ b = a ∧ after = [] := by
  simpa [List.append_eq_singleton_iff, and_assoc, eq_comm] using h.symm

theorem not_mem_of_prepares (h : ∀ turn ∈ trace, turn.call.isPreparation = true)
    (hTurn : turn.call.isPreparation = false) : turn ∉ trace := fun hMem =>
  Bool.false_ne_true (hTurn.symm.trans (h turn hMem))

theorem posts_of_prepares (h : ∀ turn ∈ trace, turn.call.isPreparation = true) :
    posts trace = 0 := by
  refine List.countP_eq_zero.mpr fun turn hMem => ?_
  have hTurn := h turn hMem
  cases hCall : turn.call <;> simp_all [isPost, isPreparation]

theorem Drawn.prepares {drawing : Trace} {result : Except NonceDrawError ReplayNonce}
    (h : Drawn newNonce drawing result) : ∀ turn ∈ drawing, turn.call.isPreparation = true := by
  cases h <;> simp [isPreparation]

theorem Supplied.prepares {supply : Trace} (h : Supplied newNonce nonce? supply nonce) :
    ∀ turn ∈ supply, turn.call.isPreparation = true := by
  cases h with
  | given => simp
  | drawn h => exact h.prepares

theorem unread_prepares (headers : Http.Headers) :
    ∀ turn ∈ unread headers, turn.call.isPreparation = true := by
  unfold unread
  split <;> simp [isPreparation]

theorem isPost_of_mem_absorbed {headers : Http.Headers} (hMem : turn ∈ absorbed headers) :
    turn.call.isPost = false := by
  unfold absorbed at hMem
  split at hMem
  · simp_all [isPost]
  · cases hMem
  · simp_all [isPost]

/-- What is kept is the nonce of the response. -/
theorem absorbed_eq_append {headers : Http.Headers}
    (h : absorbed headers = before ++ ⟨.keepNonce nonce, ()⟩ :: after) :
    before = [] ∧ after = [] ∧ ofHeaders? headers = some nonce := by
  unfold absorbed at h
  split at h
  · obtain ⟨-, hTurn, -⟩ := singleton_eq_append_cons h
    cases hTurn
  · simp at h
  · next hHeaders =>
    obtain ⟨rfl, hTurn, rfl⟩ := singleton_eq_append_cons h
    cases hTurn
    exact ⟨rfl, rfl, ofHeaders?_eq hHeaders⟩

theorem isPreparation_eq_false {c : Exchange} (h : c.isPost = true) : c.isPreparation = false := by
  cases c <;> first | rfl | cases h

theorem Received.isPost_eq_false {reply : Http.Reply} {sending : Sending}
    (h : Received reply trace sending) (hMem : turn ∈ trace) : turn.call.isPost = false := by
  cases h with
  | broken => cases hMem
  | answered => exact isPost_of_mem_absorbed hMem
  | rejected => cases hMem

theorem Received.posts_eq_zero {reply : Http.Reply} {sending : Sending}
    (h : Received reply trace sending) : posts trace = 0 := by
  refine List.countP_eq_zero.mpr fun turn hMem => ?_
  rw [h.isPost_eq_false hMem]
  exact Bool.false_ne_true

theorem Received.eq_keep {reply : Http.Reply} {sending : Sending} (h : Received reply trace sending)
    (hTrace : trace = before ++ ⟨.keepNonce nonce, ()⟩ :: after) :
    ∃ response, reply = .ok response ∧ rejection? response = none ∧ before = [] ∧ after = [] ∧
      ofHeaders? response.headers = some nonce := by
  cases h with
  | broken => simp at hTrace
  | answered h => exact ⟨_, rfl, h, absorbed_eq_append hTrace⟩
  | rejected => simp at hTrace

/-- A sending of a request sends it once, with the nonce that was supplied before. -/
theorem Sent.eq_posted {sending : Sending} (h : Sent newNonce request nonce? trace sending)
    (hTrace : trace = before ++ turn :: after) (hPost : turn.call.isPost = true) :
    ∃ nonce envelope reply, turn = request.posted envelope reply ∧
      Supplied newNonce nonce? before nonce ∧ request.Signs nonce envelope ∧
      Received reply after sending := by
  have hTurn := isPreparation_eq_false hPost
  cases h with
  | undrawn h => exact absurd (by simp [hTrace]) (not_mem_of_prepares h.prepares hTurn)
  | unsigned h => exact absurd (by simp [hTrace]) (not_mem_of_prepares h.prepares hTurn)
  | posted h hSign hReceived =>
    obtain ⟨between, rfl, hRest⟩ :=
      append_eq_append_cons_of_not_mem hTrace (not_mem_of_prepares h.prepares hTurn)
    cases between with
    | nil =>
      obtain ⟨rfl, rfl⟩ := List.cons.inj hRest
      exact ⟨_, _, _, rfl, by rwa [List.append_nil], hSign, hReceived⟩
    | cons _ between =>
      obtain ⟨-, rfl⟩ := List.cons.inj hRest
      rw [hReceived.isPost_eq_false (by simp)] at hPost
      cases hPost

/-- A sending of a request keeps no nonce but that of the response with which it ends. -/
theorem Sent.eq_keep {sending : Sending} (h : Sent newNonce request nonce? trace sending)
    (hTrace : trace = before ++ ⟨.keepNonce nonce, ()⟩ :: after) :
    after = [] ∧ EndsWith request before nonce := by
  have hTurn : (⟨.keepNonce nonce, ()⟩ : Turn Exchange.Answer).call.isPreparation = false := rfl
  cases h with
  | undrawn h => exact absurd (by simp [hTrace]) (not_mem_of_prepares h.prepares hTurn)
  | unsigned h => exact absurd (by simp [hTrace]) (not_mem_of_prepares h.prepares hTurn)
  | posted h hSign hReceived =>
    obtain ⟨between, rfl, hRest⟩ :=
      append_eq_append_cons_of_not_mem hTrace (not_mem_of_prepares h.prepares hTurn)
    cases between with
    | nil => cases hRest
    | cons _ between =>
      obtain ⟨rfl, hAfter⟩ := List.cons.inj hRest
      obtain ⟨response, rfl, hReject, rfl, rfl, hNonce⟩ := hReceived.eq_keep hAfter
      exact ⟨rfl, _, _, _, _, rfl, hReject, hNonce⟩

/-- A sending that was rejected ends with the rejection. -/
theorem Sent.of_rejected {problem : Problem} {headers : Http.Headers}
    (h : Sent newNonce request nonce? trace (.rejected problem headers)) :
    ∃ supply envelope response, trace = supply ++ [request.posted envelope (.ok response)] ∧
      (∀ turn ∈ supply, turn.call.isPreparation = true) ∧ rejection? response = some problem ∧
      headers = response.headers := by
  cases h with
  | posted h hSign hReceived =>
    cases hReceived with
    | rejected hReject => exact ⟨_, _, _, rfl, h.prepares, hReject, rfl⟩

theorem Sent.not_keeps_of_rejected {problem : Problem} {headers : Http.Headers}
    (h : Sent newNonce request nonce? trace (.rejected problem headers)) (nonce : ReplayNonce) :
    ⟨.keepNonce nonce, ()⟩ ∉ trace := by
  obtain ⟨supply, envelope, response, rfl, hSupply, -, -⟩ := h.of_rejected
  rw [List.mem_append, List.mem_singleton]
  rintro (hMem | hLast)
  · exact not_mem_of_prepares hSupply rfl hMem
  · cases hLast

theorem Sent.posts_le {sending : Sending} (h : Sent newNonce request nonce? trace sending) :
    posts trace ≤ 1 := by
  cases h with
  | undrawn h => simp [posts_of_prepares h.prepares]
  | unsigned h => simp [posts_of_prepares h.prepares]
  | posted h hSign hReceived =>
    simp [posts_of_prepares h.prepares, hReceived.posts_eq_zero]

end

section

variable {newNonce : Url} {request : Request} {nonce? : Option ReplayNonce} {nonce : ReplayNonce}
  {trace before after : Trace} {retries : Nat} {result : Except TransportError Http.Response}

theorem Resent.posts_le (h : Resent newNonce request retries nonce? trace result) :
    posts trace ≤ retries + 1 := by
  induction h with
  | ended h => exact Nat.le_trans h.posts_le (Nat.le_add_left _ _)
  | spent h => simpa [posts, isPost] using h.posts_le
  | again h _ ih =>
    have hFirst := h.posts_le
    rw [posts_append, posts_append, posts_of_prepares (unread_prepares _)]
    omega

/-- What warrants a sending after a rejection still does with all that came before. -/
theorem Warranted.later {envelope : Envelope} {response : Http.Response} {problem : Problem}
    (hReject : rejection? response = some problem)
    (h : Warranted newNonce request (ofHeaders? response.headers) after nonce) :
    Warranted newNonce request nonce?
      (before ++ request.posted envelope (.ok response) :: (unread response.headers ++ after))
      nonce := by
  cases h with
  | first h => exact .again hReject h
  | again hReject' h =>
    simp only [← List.cons_append, ← List.append_assoc]
    rw [List.append_assoc, List.cons_append]
    exact .again hReject' h

theorem Sent.warranted {sending : Sending} {turn : Turn Exchange.Answer}
    (h : Sent newNonce request nonce? trace sending) (hTrace : trace = before ++ turn :: after)
    (hPost : turn.call.isPost = true) :
    ∃ nonce envelope reply, turn = request.posted envelope reply ∧
      request.Signs nonce envelope ∧ Warranted newNonce request nonce? before nonce := by
  obtain ⟨nonce, envelope, reply, rfl, hSupplied, hSign, -⟩ := h.eq_posted hTrace hPost
  exact ⟨nonce, envelope, reply, rfl, hSign, .first hSupplied⟩

theorem Resent.warranted {turn : Turn Exchange.Answer}
    (h : Resent newNonce request retries nonce? trace result)
    (hTrace : trace = before ++ turn :: after) (hPost : turn.call.isPost = true) :
    ∃ nonce envelope reply, turn = request.posted envelope reply ∧
      request.Signs nonce envelope ∧ Warranted newNonce request nonce? before nonce := by
  have hTurn := isPreparation_eq_false hPost
  induction h generalizing before with
  | ended h => exact h.warranted hTrace hPost
  | spent h =>
    rcases append_eq_append_cons hTrace with ⟨between, hFront, -⟩ | ⟨between, -, hLast⟩
    · exact h.warranted hFront hPost
    · obtain ⟨-, rfl, -⟩ := singleton_eq_append_cons hLast
      cases hPost
  | again h _ ih =>
    rcases append_eq_append_cons hTrace with ⟨between, hFront, -⟩ | ⟨between, rfl, hRest⟩
    · exact h.warranted hFront hPost
    · obtain ⟨past, rfl, hLater⟩ := append_eq_append_cons_of_not_mem hRest
        (not_mem_of_prepares (unread_prepares _) hTurn)
      obtain ⟨supply, envelope, response, rfl, -, hReject, rfl⟩ := h.of_rejected
      obtain ⟨nonce, posted, reply, rfl, hSign, hWarranted⟩ := ih hLater
      refine ⟨nonce, posted, reply, rfl, hSign, ?_⟩
      simpa using hWarranted.later hReject

/-- After a rejection the request is sent again, unless no nonce can be drawn or signed over. -/
theorem Sent.followed {response : Http.Response} {problem : Problem} {left : Nat}
    {sending : Sending} {later : Trace} (hLeft : 0 < left)
    (hReject : rejection? response = some problem)
    (h : Sent newNonce request (ofHeaders? response.headers) trace sending)
    (hEnded : ∀ ended, sending = .ended ended → later = [] ∧ result = ended) :
    Followed newNonce request left (.ok response) (unread response.headers ++ (trace ++ later))
      result := by
  generalize hNonce : ofHeaders? response.headers = next? at h
  cases h with
  | undrawn h =>
    obtain ⟨rfl, rfl⟩ := hEnded _ rfl
    rw [List.append_nil]
    exact .undrawn hLeft hReject hNonce h
  | unsigned h hSign =>
    obtain ⟨rfl, rfl⟩ := hEnded _ rfl
    rw [List.append_nil]
    exact .unsigned hLeft hReject (hNonce ▸ h) hSign
  | posted h hSign _ =>
    rw [List.append_assoc, List.cons_append]
    exact .again hLeft hReject (hNonce ▸ h) hSign

theorem Resent.followed_rejection {response : Http.Response} {problem : Problem} {left : Nat}
    (hLeft : 0 < left) (hReject : rejection? response = some problem)
    (h : Resent newNonce request retries (ofHeaders? response.headers) trace result) :
    Followed newNonce request left (.ok response) (unread response.headers ++ trace) result := by
  cases h with
  | ended h =>
    rw [← List.append_nil trace]
    exact h.followed hLeft hReject fun _ hEnded => ⟨rfl, Sending.ended.inj hEnded⟩
  | spent h => exact h.followed hLeft hReject nofun
  | again h _ => exact h.followed hLeft hReject nofun

theorem Resent.followed {envelope : Envelope} {reply : Http.Reply}
    (h : Resent newNonce request retries nonce? trace result)
    (hTrace : trace = before ++ request.posted envelope reply :: after) :
    Followed newNonce request (retries - posts before) reply after result := by
  have hPost : (request.posted envelope reply).call.isPost = true := rfl
  induction h generalizing before with
  | ended h =>
    obtain ⟨_, _, _, hTurn, hSupplied, -, hReceived⟩ := h.eq_posted hTrace hPost
    cases hTurn
    cases hReceived with
    | broken e => exact .broken e
    | answered hReject => exact .answered hReject
  | spent h =>
    rcases append_eq_append_cons hTrace with ⟨between, hFront, rfl⟩ | ⟨between, -, hLast⟩
    · obtain ⟨_, _, _, hTurn, hSupplied, -, hReceived⟩ := h.eq_posted hFront hPost
      cases hTurn
      cases hReceived with
      | rejected hReject => exact .spent (Nat.zero_sub _) hReject
    · obtain ⟨-, hTurn, -⟩ := singleton_eq_append_cons hLast
      cases hTurn
  | again h hLater ih =>
    rcases append_eq_append_cons hTrace with ⟨between, hFront, rfl⟩ | ⟨between, rfl, hRest⟩
    · obtain ⟨_, _, _, hTurn, hSupplied, -, hReceived⟩ := h.eq_posted hFront hPost
      cases hTurn
      cases hReceived with
      | rejected hReject =>
        refine hLater.followed_rejection ?_ hReject
        rw [posts_of_prepares hSupplied.prepares]
        exact Nat.succ_pos _
    · obtain ⟨past, rfl, hLater⟩ := append_eq_append_cons_of_not_mem hRest
        (not_mem_of_prepares (unread_prepares _) rfl)
      obtain ⟨supply, envelope, response, rfl, hSupply, -, -⟩ := h.of_rejected
      simp only [posts_append, posts_posted, posts_nil, posts_of_prepares hSupply,
        posts_of_prepares (unread_prepares _), Nat.zero_add, Nat.add_comm 1, Nat.add_sub_add_right]
      exact ih hLater

theorem Followed.eq_absorbed {response : Http.Response} {left : Nat}
    (h : Followed newNonce request left (.ok response) after result)
    (hReject : rejection? response = none) : after = absorbed response.headers := by
  cases h with
  | answered => rfl
  | spent _ hSome | undrawn _ hSome | unsigned _ hSome | again _ hSome =>
    cases hReject.symm.trans hSome

theorem EndsWith.later (h : EndsWith request after nonce) :
    EndsWith request (before ++ after) nonce := by
  obtain ⟨past, envelope, response, rest, rfl, hReject, hNonce⟩ := h
  exact ⟨before ++ past, envelope, response, rest, by simp, hReject, hNonce⟩

theorem EndsWith.append (h : EndsWith request before nonce) :
    EndsWith request (before ++ after) nonce := by
  obtain ⟨past, envelope, response, rest, rfl, hReject, hNonce⟩ := h
  exact ⟨past, envelope, response, rest ++ after, by simp, hReject, hNonce⟩

theorem Resent.eq_keep (h : Resent newNonce request retries nonce? trace result)
    (hTrace : trace = before ++ ⟨.keepNonce nonce, ()⟩ :: after) :
    after = [] ∧ EndsWith request before nonce := by
  induction h generalizing before with
  | ended h => exact h.eq_keep hTrace
  | spent h =>
    obtain ⟨between, -, hLast⟩ :=
      append_eq_append_cons_of_not_mem hTrace (h.not_keeps_of_rejected nonce)
    obtain ⟨-, hTurn, -⟩ := singleton_eq_append_cons hLast
    cases hTurn
  | again h _ ih =>
    obtain ⟨between, rfl, hRest⟩ :=
      append_eq_append_cons_of_not_mem hTrace (h.not_keeps_of_rejected nonce)
    obtain ⟨past, rfl, hLater⟩ := append_eq_append_cons_of_not_mem hRest
      (not_mem_of_prepares (unread_prepares _) rfl)
    obtain ⟨rfl, hEnds⟩ := ih hLater
    exact ⟨rfl, hEnds.later.later⟩

theorem Plays.exists_between {first last : NoncePool} (h : Plays first (before ++ after) last) :
    ∃ pool, Plays first before pool ∧ Plays pool after last := by
  induction before generalizing first with
  | nil => exact ⟨first, .nil first, h⟩
  | cons turn before ih =>
    cases h with
    | request hRequest hLater =>
      obtain ⟨pool, hBefore, hAfter⟩ := ih hLater
      exact ⟨pool, .request hRequest hBefore, hAfter⟩
    | pooled hPool hLater =>
      obtain ⟨pool, hBefore, hAfter⟩ := ih hLater
      exact ⟨pool, .pooled hPool hBefore, hAfter⟩

/-- Whatever a pool has in the end it had before, or it was kept. -/
theorem Plays.mem {first last : NoncePool} (h : Plays first trace last)
    (hMem : nonce ∈ last.nonces) :
    nonce ∈ first.nonces ∨ ⟨.keepNonce nonce, ()⟩ ∈ trace := by
  induction h with
  | nil => exact .inl hMem
  | request _ _ ih => exact (ih hMem).imp_right (List.mem_cons_of_mem _)
  | pooled h _ ih =>
    rcases ih hMem with hNext | hLater
    · refine (NoncePool.mem_of_onPool? h hNext).imp_right ?_
      rintro rfl
      exact List.mem_cons_self
    · exact .inr (List.mem_cons_of_mem _ hLater)

/-- A pool ends with the nonce that is kept last. -/
theorem Plays.mem_kept {first last : NoncePool}
    (h : Plays first (trace ++ [⟨.keepNonce nonce, ()⟩]) last) : nonce ∈ last.nonces := by
  induction trace generalizing first with
  | nil =>
    cases h with
    | request h _ => cases h
    | pooled h hLater =>
      cases h
      cases hLater
      exact NoncePool.mem_put_self _ _
  | cons turn trace ih =>
    cases h with
    | request _ hLater => exact ih hLater
    | pooled _ hLater => exact ih hLater

theorem Drawn.eq_draw {pool rest : NoncePool} {drawing : Trace}
    {drawn : Except NonceDrawError ReplayNonce} (h : Drawn newNonce drawing drawn)
    (hPlays : Plays pool drawing rest) : ∃ reply, pool.draw reply = (drawn, rest) ∧
      ∀ r, ⟨.head newNonce, r⟩ ∈ drawing → reply = nonceReply r := by
  cases h with
  | pooled nonce =>
    cases hPlays with
    | request hRequest _ => cases hRequest
    | pooled hTake hLater =>
      cases hLater
      have hDraw : pool.draw (.error "") = (.ok nonce, rest) := by
        rw [NoncePool.draw, NoncePool.take?_of_onPool? hTake]
      exact ⟨_, hDraw, by simp⟩
  | asked reply =>
    cases hPlays with
    | request hRequest _ => cases hRequest
    | pooled hTake hLater =>
      obtain ⟨hNone, rfl⟩ := NoncePool.take?_eq_none_of_onPool? hTake
      cases hLater with
      | pooled hHead _ => cases hHead
      | request _ hDone =>
        cases hDone
        have hDraw : rest.draw (nonceReply reply) = (ofReply (nonceReply reply), rest) := by
          rw [NoncePool.draw, hNone]
        refine ⟨_, hDraw, fun r hMem => ?_⟩
        cases hMem with
        | tail _ hMem =>
          cases List.mem_singleton.mp hMem
          rfl

theorem absorbed_of_ofHeaders? {headers : Http.Headers} (h : ofHeaders? headers = some nonce) :
    absorbed headers = [⟨.keepNonce nonce, ()⟩] := by
  unfold absorbed
  cases hHeaders : ofHeaders headers with
  | error e =>
    rw [ofHeaders?, hHeaders] at h
    cases h
  | ok found? =>
    obtain rfl := (ofHeaders?_eq hHeaders).symm.trans h
    rfl

theorem Request.Signs.carries {envelope : Envelope} (h : request.Signs nonce envelope) :
    request.Carries nonce envelope where
  signed := h
  payload := by rw [AccountKey.payload_of_sign h, Base64.decodeUrl_encodeUrl]
  header := ⟨_, AccountKey.headerValue?_of_sign h, AccountKey.field?_header _ _ _⟩

/-- A request that is sent up to so many times keeps to the protocol. -/
theorem Resent.protocol (h : Resent newNonce request maxRetries none trace result) :
    Protocol newNonce request trace result where
  bounded := h.posts_le
  warranted before url envelope reply after hTrace := by
    obtain ⟨nonce, posted, reply', hTurn, hSign, hWarranted⟩ := h.warranted hTrace rfl
    cases hTurn
    exact ⟨rfl, nonce, hSign.carries, hWarranted⟩
  followed before envelope reply after hTrace := h.followed hTrace
  keeps before nonce after hTrace := h.eq_keep hTrace
  gains first last hPlays nonce hMem := by
    refine (hPlays.mem hMem).imp_right fun hKept => ?_
    obtain ⟨before, after, rfl⟩ := List.append_of_mem hKept
    exact (h.eq_keep rfl).2.append
  pooled first last hPlays nonce hEnds := by
    obtain ⟨before, envelope, response, after, rfl, hReject, hNonce⟩ := hEnds
    rw [(h.followed rfl).eq_absorbed hReject, absorbed_of_ofHeaders? hNonce,
      List.append_cons] at hPlays
    exact hPlays.mem_kept
  draws first last before drawing after drawn hPlays hTrace hDrawn := by
    rw [hTrace] at hPlays
    obtain ⟨pool, hBefore, hLater⟩ := hPlays.exists_between
    obtain ⟨rest, hDrawing, hAfter⟩ := hLater.exists_between
    obtain ⟨reply, hDraw, hReply⟩ := hDrawn.eq_draw hDrawing
    exact ⟨pool, rest, reply, hBefore, hDraw, hAfter, hReply⟩

end

/-- From wherever a signed request has come to, it comes to its end whatever it is answered, and
then it has kept to the protocol. -/
theorem postRequest_protocol (newNonce : Url) (request : Request) {trace : Trace}
    {rest : Talk (Except TransportError Http.Response)}
    (h : Leads (postRequest newNonce request) trace rest) :
    (∀ answers : Trace → (c : Exchange) → c.Answer,
      ∃ later result, Runs rest later result ∧ Follows answers trace later) ∧
    ∀ later result, Runs rest later result → Protocol newNonce request (trace ++ later) result :=
  ⟨fun answers => exists_runs answers trace rest,
    fun _ _ run => (runs_sendAgain_iff.mp (h.trans run)).protocol⟩

/-- The response of a server that rejects a nonce, with another one. -/
def badNonceResponse : Http.Response :=
  ⟨⟨400⟩, [("replay-nonce", Utf8.encode "AQ")],
    Utf8.encode "\x7b\"type\":\"urn:ietf:params:acme:error:badNonce\"\x7d"⟩

theorem isSome_rejection?_badNonceResponse : (rejection? badNonceResponse).isSome = true := by
  decide +kernel

/-- The first nonce is from the pool and is rejected; the second came with the rejection. -/
theorem protocol_of_one_rejection :
    ∃ trace, Runs (postRequest AccountKey.shortUrl ⟨AccountKey.shortUrl, [], .short⟩) trace
        (.ok Traffic.nonceResponse) ∧ posts trace = 2 ∧
      Protocol AccountKey.shortUrl ⟨AccountKey.shortUrl, [], .short⟩ trace
        (.ok Traffic.nonceResponse) := by
  obtain ⟨first, hFirst⟩ := AccountKey.exists_sign_short
  obtain ⟨second, hSecond⟩ := AccountKey.exists_sign_short_again
  obtain ⟨problem, hReject⟩ := Option.isSome_iff_exists.mp isSome_rejection?_badNonceResponse
  let request : Request := ⟨AccountKey.shortUrl, [], .short⟩
  have hRejected : Sent AccountKey.shortUrl request none _ (.rejected problem _) :=
    .posted (.drawn (.pooled ⟨"AA"⟩)) hFirst (.rejected hReject)
  have hAnswered : rejection? Traffic.nonceResponse = none := rfl
  have hEnded : Sent AccountKey.shortUrl request (some ⟨"AQ"⟩) _ (.ended (.ok _)) :=
    .posted (.given _) hSecond (.answered hAnswered)
  have run : Runs (postRequest AccountKey.shortUrl request) _ _ :=
    runs_sendAgain_iff.mpr (.again hRejected (.ended hEnded))
  exact ⟨_, run, rfl, (postRequest_protocol _ _ (.here _)).2 _ _ run⟩

end Transport

end Enrollment
